import AllAiTools.NewApi.Service.ChannelAffinity

namespace AllAiTools.NewApi.Service.AffinityRecall

open Common.Str (isSpace)
open Foundation.Joined (joined joined_singleton joined_snoc)
open Relay.ChatViaResponses (Text trimSpace)
open ChannelAffinity

section Property

variable (library : Library) (setting : ChannelAffinitySetting)

/-- A request with the rule and the value that it is matched by. -/
structure Query where
  context : Context
  modelName : Text
  usingGroup : Text
  rule : ChannelAffinityRule
  value : Text

def Query.Matched (q : Query) : Prop :=
  setting.enabled = true ∧ findRule library q.context q.modelName setting.rules = some (q.rule, q.value)

def Query.parts (q : Query) : List Text := keyParts q.rule q.modelName q.usingGroup q.value

def Query.lookup (q : Query) (cache : Cache) (now : ℕ) : Option ℤ :=
  (getPreferredChannelByAffinity library setting q.context q.modelName q.usingGroup cache now).2

/-- The cache after the request was matched and its channel recorded. -/
def Query.record (q : Query) (id : ℤ) (cache : Cache) (now : ℕ) : Cache :=
  recordChannelAffinity setting q.context
    (getPreferredChannelByAffinity library setting q.context q.modelName q.usingGroup cache now).1 id cache now

def ttlOf (q : Query) : ℕ :=
  if 0 < q.rule.ttlSeconds then q.rule.ttlSeconds.toNat
  else if 0 < setting.defaultTTLSeconds then setting.defaultTTLSeconds.toNat
  else 3600

/-- The same rule, and the same in what it includes. -/
def Same (q q' : Query) : Prop :=
  q'.rule = q.rule ∧ (q.rule.includeModelName = true → q'.modelName = q.modelName) ∧
    (q.rule.includeUsingGroup = true → q'.usingGroup = q.usingGroup) ∧ q'.value = q.value

/-- Something that one of the rules includes is not the same. -/
def Differs (q q' : Query) : Prop :=
  ((q.rule.includeRuleName = true ∨ q'.rule.includeRuleName = true) ∧ q.rule.name ≠ q'.rule.name) ∨
    ((q.rule.includeModelName = true ∨ q'.rule.includeModelName = true) ∧ q.modelName ≠ q'.modelName) ∨
      ((q.rule.includeUsingGroup = true ∨ q'.rule.includeUsingGroup = true) ∧ q.usingGroup ≠ q'.usingGroup) ∨
        q.value ≠ q'.value

/-- What is recorded for a request is found for the same one, and changes nothing for one that
differs. -/
structure OwnOnly (q q' : Query) : Prop where
  recalled : Same q q' → ∀ cache id now later, 0 < id → later < now + ttlOf setting q →
    q'.lookup library setting (q.record library setting id cache now) later = some id
  apart : Differs q q' → ∀ cache id now later,
    q'.lookup library setting (q.record library setting id cache now) later =
      q'.lookup library setting cache later

/-- The namespace as a key begins with it. -/
def namespaceStart : Text := channelAffinityCacheNamespace ++ [':']

/-- A text without the blanks at its start, and then without the namespace or the colons there. -/
def lead (s : Text) : Text :=
  let key := s.dropWhile isSpace
  if namespaceStart <+: key then key.drop namespaceStart.length else trimColons key

def Plain (s : Text) : Prop :=
  (∀ c, s.head? = some c → isSpace c = false ∧ c ≠ ':') ∧ ¬ namespaceStart <+: s

/-- The components of a request to be found again begin with nothing that is stripped, its own channel
is recorded, and components that differ do not join to the same. -/
structure Clear (q q' : Query) : Prop where
  plain : Same q q' → Plain (joined ':' q.parts)
  own : Same q q' → setting.switchOnSuccess = true → q.context.getInt "channel_id".toList ≤ 0
  apart : Differs q q' → lead (joined ':' q'.parts) ≠ joined ':' q.parts

end Property

section Keys

/-- A text that ends with something else than a blank is only stripped at its start. -/
theorem trimSpace_of_last {s : Text} {c : Char} (hlast : s.getLast? = some c) (hc : isSpace c = false) :
    trimSpace s = s.dropWhile isSpace := by
  have hkeep : ∀ t : Text, t.getLast? = some c → (t.reverse.dropWhile isSpace).reverse = t := by
    intro t ht
    have hhead : t.reverse.head? = some c := by rw [List.head?_reverse, ht]
    cases hreverse : t.reverse with
    | nil =>
      rw [hreverse] at hhead
      cases hhead
    | cons d rest =>
      rw [hreverse] at hhead
      obtain rfl : d = c := Option.some.inj hhead
      rw [List.dropWhile_cons_of_neg (by simp [hc]), ← hreverse, List.reverse_reverse]
  have hdrop : (s.dropWhile isSpace).getLast? = some c := by
    have hmem : c ∈ s := List.mem_of_getLast? hlast
    have hne : s.dropWhile isSpace ≠ [] := by
      intro hnil
      have hall := List.dropWhile_eq_nil_iff.mp hnil c hmem
      rw [hc] at hall
      cases hall
    rw [← List.takeWhile_append_dropWhile (p := isSpace) (l := s), List.getLast?_append] at hlast
    cases hrest : (s.dropWhile isSpace).getLast? with
    | none => exact absurd (List.getLast?_eq_none_iff.mp hrest) hne
    | some d =>
      rw [hrest] at hlast
      exact hlast
  rw [trimSpace, hkeep _ hdrop]

theorem trimSpace_last {s : Text} {c : Char} (h : (trimSpace s).getLast? = some c) : isSpace c = false := by
  rw [trimSpace, List.getLast?_reverse] at h
  have hhead := List.head?_dropWhile_not isSpace (s.dropWhile isSpace).reverse
  rw [h] at hhead
  simpa using hhead

theorem itoa_last {v : ℤ} {c : Char} (h : (itoa v).getLast? = some c) : isSpace c = false := by
  have hdigit : c.isDigit = true :=
    Nat.isDigit_of_mem_toDigits (b := 10) (n := v.toNat) (by decide) (by decide) (List.mem_of_getLast? h)
  rw [Char.isDigit, Bool.and_eq_true, decide_eq_true_eq, decide_eq_true_eq] at hdigit
  have hlow : 48 ≤ c.toNat := hdigit.1
  have hhigh : c.toNat ≤ 57 := hdigit.2
  rw [isSpace, Bool.or_eq_false_iff]
  constructor
  · simp only [decide_eq_false_iff_not, List.mem_cons, List.not_mem_nil, or_false, not_or]
    omega
  · simp only [Bool.and_eq_false_iff, decide_eq_false_iff_not]
    omega

/-- A value that is found does not end with a blank. -/
theorem extract_last {c : Context} {src : ChannelAffinityKeySource} {ch : Char}
    (h : (extractChannelAffinityValue c src).getLast? = some ch) : isSpace ch = false := by
  have hnil : ∀ ch', ([] : Text).getLast? = some ch' → isSpace ch' = false := fun ch' hch ↦ by cases hch
  rw [extractChannelAffinityValue] at h
  split at h
  · split at h
    · exact hnil ch h
    · dsimp only at h
      split at h
      · exact hnil ch h
      · exact itoa_last h
  split at h
  · split at h
    · exact hnil ch h
    · exact trimSpace_last h
  split at h
  · split at h
    · exact hnil ch h
    · exact trimSpace_last h
  split at h
  · split at h
    · exact hnil ch h
    · cases hres : c.gjson src.path with
      | none =>
        rw [hres] at h
        exact hnil ch h
      | some res =>
        rw [hres] at h
        exact trimSpace_last h
  · exact hnil ch h

theorem affinityValue_last {c : Context} {sources : List ChannelAffinityKeySource} {ch : Char}
    (h : (affinityValue c sources).getLast? = some ch) : isSpace ch = false := by
  induction sources with
  | nil => cases h
  | cons src sources ih =>
    rw [affinityValue] at h
    split at h
    · exact extract_last h
    · exact ih h

/-- A text that ends with something and not with a blank. -/
def Ended (s : Text) : Prop := ∃ c, s.getLast? = some c ∧ isSpace c = false

theorem findRule_value {library : Library} {c : Context} {modelName : Text} {rules : List ChannelAffinityRule}
    {rule : ChannelAffinityRule} {value : Text}
    (h : findRule library c modelName rules = some (rule, value)) :
    Ended value := by
  induction rules with
  | nil => cases h
  | cons first rules ih =>
    rw [findRule] at h
    cases hmatch : matchRule library c modelName first with
    | none =>
      rw [hmatch] at h
      exact ih h
    | some found =>
      rw [hmatch] at h
      obtain ⟨-, rfl⟩ := Prod.mk.inj (Option.some.inj h)
      rw [matchRule] at hmatch
      split at hmatch
      · cases hmatch
      split at hmatch
      · cases hmatch
      split at hmatch
      · cases hmatch
      dsimp only at hmatch
      split at hmatch
      · cases hmatch
      rename_i hne
      split at hmatch
      · cases hmatch
      obtain rfl := Option.some.inj hmatch
      obtain ⟨c', hc'⟩ := Option.ne_none_iff_exists'.mp fun hnone ↦ hne (List.getLast?_eq_none_iff.mp hnone)
      exact ⟨c', hc', affinityValue_last hc'⟩

theorem joined_ended {parts : List Text} {value : Text} (hvalue : Ended value) :
    Ended (joined ':' (parts ++ [value])) := by
  obtain ⟨c, hc, hblank⟩ := hvalue
  refine ⟨c, ?_, hblank⟩
  by_cases hparts : parts = []
  · rw [hparts, List.nil_append, joined_singleton, hc]
  · rw [joined_snoc _ _ hparts, List.getLast?_append, List.getLast?_cons, hc]
    rfl

theorem namespacePrefix_eq : namespacePrefix channelAffinityCacheNamespace = namespaceStart := by decide

theorem dropWhile_ne_nil {s : Text} (h : Ended s) : s.dropWhile isSpace ≠ [] := by
  obtain ⟨c, hc, hblank⟩ := h
  intro hnil
  have hall := List.dropWhile_eq_nil_iff.mp hnil c (List.mem_of_getLast? hc)
  rw [hblank] at hall
  cases hall

/-- The key that a suffix is looked up by. -/
theorem fullKey_lookup {s : Text} (h : Ended s) :
    fullKey channelAffinityCacheNamespace s = namespaceStart ++ lead s := by
  have hne := dropWhile_ne_nil h
  obtain ⟨c, hc, hblank⟩ := h
  rw [fullKey, namespacePrefix_eq, trimSpace_of_last hc hblank, lead]
  dsimp only
  rw [if_neg hne, if_neg (by decide)]
  by_cases hstart : namespaceStart <+: s.dropWhile isSpace
  · rw [if_pos hstart, if_pos hstart]
    exact (List.prefix_iff_eq_append.mp hstart).symm
  · rw [if_neg hstart, if_neg hstart]

/-- The key that a suffix is recorded by. -/
theorem fullKey_record {s : Text} (h : Ended s) :
    fullKey channelAffinityCacheNamespace (channelAffinityCacheNamespace ++ ':' :: s) =
      namespaceStart ++ s := by
  have hsplit : channelAffinityCacheNamespace ++ ':' :: s = namespaceStart ++ s :=
    (List.append_assoc channelAffinityCacheNamespace [':'] s).symm
  have hended : Ended (namespaceStart ++ s) := by
    obtain ⟨c, hc, hblank⟩ := h
    refine ⟨c, ?_, hblank⟩
    rw [List.getLast?_append, hc]
    rfl
  have hkeep : (namespaceStart ++ s).dropWhile isSpace = namespaceStart ++ s := by
    have hstart : namespaceStart = 'n' :: namespaceStart.tail := by decide
    rw [hstart, List.cons_append, List.dropWhile_cons_of_neg (by decide)]
  rw [hsplit, fullKey_lookup hended, lead, hkeep, if_pos (List.prefix_append _ _), List.drop_left]

theorem lead_length_le (s : Text) : (lead s).length ≤ s.length := by
  have hdrop := (List.dropWhile_sublist (l := s) isSpace).length_le
  rw [lead]
  split
  · rw [List.length_drop]
    omega
  · exact ((List.dropWhile_sublist _).length_le).trans hdrop

/-- Nothing is stripped from the start exactly where there is nothing to strip. -/
theorem lead_eq_self_iff {s : Text} (h : Ended s) : lead s = s ↔ Plain s := by
  have hne : s ≠ [] := fun hnil ↦ dropWhile_ne_nil h (by rw [hnil]; rfl)
  obtain ⟨c, rest, rfl⟩ := List.exists_cons_of_ne_nil hne
  rw [Plain, List.head?_cons, lead]
  cases hblank : isSpace c with
  | true =>
    have hshort : ∀ t : Text, t.length ≤ rest.length → t ≠ c :: rest := fun t ht heq ↦ by
      rw [heq, List.length_cons] at ht
      omega
    have hdrop := (List.dropWhile_sublist (l := rest) isSpace).length_le
    rw [List.dropWhile_cons_of_pos hblank]
    refine iff_of_false ?_ fun hplain ↦ ?_
    · split
      · refine hshort _ ?_
        rw [List.length_drop]
        omega
      · exact hshort _ ((List.dropWhile_sublist _).length_le.trans hdrop)
    · have hclear := (hplain.1 c rfl).1
      rw [hblank] at hclear
      cases hclear
  | false =>
    rw [List.dropWhile_cons_of_neg (by simp [hblank])]
    by_cases hstart : namespaceStart <+: c :: rest
    · rw [if_pos hstart]
      refine iff_of_false (fun heq ↦ ?_) fun hplain ↦ hplain.2 hstart
      have hlen := congrArg List.length heq
      have hpos : 0 < namespaceStart.length := by decide
      rw [List.length_drop, List.length_cons] at hlen
      omega
    · rw [if_neg hstart, trimColons]
      by_cases hcolon : c = ':'
      · refine iff_of_false (fun heq ↦ ?_) fun hplain ↦ (hplain.1 c rfl).2 hcolon
        have hlen := congrArg List.length heq
        have hle := (List.dropWhile_sublist (l := rest) fun x ↦ decide (x = ':')).length_le
        rw [List.dropWhile_cons_of_pos (by simp [hcolon]), List.length_cons] at hlen
        omega
      · rw [List.dropWhile_cons_of_neg (by simp [hcolon])]
        refine iff_of_true rfl ⟨fun d hd ↦ ?_, hstart⟩
        obtain rfl := Option.some.inj hd
        exact ⟨hblank, hcolon⟩

end Keys

section Recall

variable {library : Library} {setting : ChannelAffinitySetting} {q q' : Query}

/-- The channel that is recorded. -/
def recordedId (setting : ChannelAffinitySetting) (q : Query) (id : ℤ) : ℤ :=
  if setting.switchOnSuccess = true ∧ 0 < q.context.getInt "channel_id".toList then
    q.context.getInt "channel_id".toList
  else id

theorem Query.Matched.ended (h : q.Matched library setting) : Ended (joined ':' q.parts) :=
  joined_ended (findRule_value h.2)

theorem lookup_eq (h : q.Matched library setting) (cache : Cache) (now : ℕ) :
    q.lookup library setting cache now =
    (cache (namespaceStart ++ lead (joined ':' q.parts))).bind fun entry ↦
      if now < entry.expires then some entry.channelId else none := by
  have hkey := fullKey_lookup h.ended
  have hne : namespaceStart ++ lead (joined ':' q.parts) ≠ [] :=
      List.append_ne_nil_of_left_ne_nil (by decide) _
  rw [Query.lookup, getPreferredChannelByAffinity, h.1, h.2]
  change cache.get channelAffinityCacheNamespace now (joined ':' q.parts) = _
  rw [Cache.get, hkey, if_neg hne]

theorem record_eq (h : q.Matched library setting) {id : ℤ} (hid : 0 < id) (cache : Cache) (now : ℕ) :
    q.record library setting id cache now = Function.update cache (namespaceStart ++ joined ':' q.parts)
      (some ⟨recordedId setting q id, now + ttlOf setting q⟩) := by
  have hkey := fullKey_record h.ended
  have hne : namespaceStart ++ joined ':' q.parts ≠ [] := List.append_ne_nil_of_left_ne_nil (by decide) _
  have hcontext : (getPreferredChannelByAffinity library setting q.context q.modelName q.usingGroup cache now).1 =
      some ⟨channelAffinityCacheNamespace ++ ':' :: joined ':' q.parts,
        if q.rule.ttlSeconds ≤ 0 then setting.defaultTTLSeconds else q.rule.ttlSeconds⟩ := by
    rw [getPreferredChannelByAffinity, h.1, h.2]
    rfl
  have hcacheKey : channelAffinityCacheNamespace ++ ':' :: joined ':' q.parts ≠ [] :=
    List.append_ne_nil_of_left_ne_nil (by decide) _
  rw [Query.record, recordChannelAffinity, hcontext, if_neg (not_le.mpr hid), h.1, if_neg (by decide)]
  dsimp only
  rw [if_neg hcacheKey, Cache.setWithTTL, hkey, if_neg hne]
  have httl : ∀ v d : ℤ, (if (if (if v ≤ 0 then d else v) ≤ 0 then d else if v ≤ 0 then d else v) ≤ 0 then (3600 : ℤ)
      else if (if v ≤ 0 then d else v) ≤ 0 then d else if v ≤ 0 then d else v).toNat =
        if 0 < v then v.toNat else if 0 < d then d.toNat else 3600 := by
    intro v d
    split_ifs <;> omega
  rw [httl]
  rfl

theorem parts_same (h : Same q q') : q'.parts = q.parts := by
  obtain ⟨hrule, hmodel, hgroup, hvalue⟩ := h
  rw [Query.parts, Query.parts, keyParts, keyParts, hrule, hvalue]
  congr 1
  congr 1
  · congr 1
    by_cases hinclude : q.rule.includeModelName = true
    · rw [hmodel hinclude]
    · simp [hinclude]
  · by_cases hinclude : q.rule.includeUsingGroup = true
    · rw [hgroup hinclude]
    · simp [hinclude]

theorem recordedId_eq_iff : (∀ id : ℤ, 0 < id → recordedId setting q id = id) ↔
    (setting.switchOnSuccess = true → q.context.getInt "channel_id".toList ≤ 0) := by
  constructor
  · intro h hswitch
    by_contra hpos
    have hsuccess : 0 < q.context.getInt "channel_id".toList := not_le.mp hpos
    have heq := h (q.context.getInt "channel_id".toList + 1) (by omega)
    rw [recordedId, if_pos ⟨hswitch, hsuccess⟩] at heq
    omega
  · intro h id _
    exact if_neg fun hboth ↦ absurd (h hboth.1) (not_le.mpr hboth.2)

theorem ttlOf_pos : 0 < ttlOf setting q := by
  rw [ttlOf]
  split_ifs <;> omega

def anyMatch : Library where
  matchString _ _ := true
  toLower s := s

/-- A rule by the model and a header. -/
def modelRule : ChannelAffinityRule where
  name := ['r']
  modelRegex := [['m']]
  pathRegex := []
  userAgentInclude := []
  keySources := [{ type := "request_header", key := ['k'], path := [] }]
  valueRegex := []
  ttlSeconds := 60
  includeUsingGroup := false
  includeModelName := true
  includeRuleName := false

def modelSetting : ChannelAffinitySetting where
  enabled := true
  switchOnSuccess := false
  defaultTTLSeconds := 3600
  rules := [modelRule]

def modelQuery (modelName value : Text) : Query where
  context := { path := [], userAgent := [], getInt := fun _ ↦ 0, getString := fun _ ↦ [],
               header := fun _ ↦ value, gjson := fun _ ↦ none }
  modelName := modelName
  usingGroup := []
  rule := modelRule
  value := value

end Recall

end AllAiTools.NewApi.Service.AffinityRecall
