import AllAiTools.Foundation.Spans
import AllAiTools.NewApi.Relay.ParamOverride

namespace AllAiTools.NewApi.Setting.StatusCodeRanges

open Foundation (Span)
open Foundation.Joined (joined)
open Relay.ParamOverride (Text digits value parseUint atoiSegment trimSpace)

abbrev StatusCodeRange := Span

section Printing

/-- `strconv.Itoa`. -/
def itoa (n : ℤ) : Text := if n < 0 then '-' :: digits n.natAbs else digits n.natAbs

def rangeToString (r : StatusCodeRange) : Text :=
  if r.start = r.stop then itoa r.start else itoa r.start ++ '-' :: itoa r.stop

def statusCodeRangesToString (ranges : List StatusCodeRange) : Text := joined ',' (ranges.map rangeToString)

def shouldMatchStatusCodeRanges (ranges : List StatusCodeRange) (code : ℤ) : Bool :=
  if code < 100 ∨ code > 599 then false else Span.search code ranges

end Printing

section Parsing

/-- `strconv.Atoi`; none where it returns an error. -/
def atoi (s : Text) : Option ℤ := (atoiSegment s).filter fun n ↦ -2 ^ 63 ≤ n ∧ n < 2 ^ 63

/-- A token without its spaces; none where it is refused, for reasons that are not kept. -/
def parseUnspaced (token : Text) : Option StatusCodeRange :=
  if token = [] then none
  else if '-' ∈ token then
    match token.splitOn '-' with
    | [first, second] =>
      if first = [] ∨ second = [] then none
      else (atoi first).bind fun start ↦ (atoi second).bind fun stop ↦
        if start > stop then none
        else if start < 100 ∨ stop > 599 then none
        else some ⟨start, stop⟩
    | _ => none
  else (atoi token).bind fun code ↦ if code < 100 ∨ code > 599 then none else some ⟨code, code⟩

def parseHTTPStatusCodeToken (token : Text) : Option StatusCodeRange :=
  parseUnspaced ((trimSpace token).filter (· ≠ ' '))

/-- The segments of the input that are not blank. -/
def tokens (input : Text) : List Text :=
  ((((trimSpace input).map fun c ↦ if c =
    '\uff0c' then ',' else c).splitOn ',').map trimSpace).filter (· ≠ [])

/-- By the start, then by the end. -/
def rangeBefore (a b : StatusCodeRange) : Prop := a.start < b.start ∨ a.start = b.start ∧ a.stop ≤ b.stop

instance : DecidableRel rangeBefore := fun _ _ ↦ inferInstanceAs (Decidable (_ ∨ _))

def parseHTTPStatusCodeRanges (input : Text) : Except Text (List StatusCodeRange) :=
  if trimSpace input = [] then .ok []
  else
    let invalid := (tokens input).filter fun seg ↦ (parseHTTPStatusCodeToken seg).isNone
    let ranges := (tokens input).filterMap parseHTTPStatusCodeToken
    if invalid ≠ [] then
      .error ("invalid http status code rules: ".toList ++ [',', ' '].intercalate invalid)
    else .ok (Span.merge (ranges.insertionSort rangeBefore))

end Parsing

end AllAiTools.NewApi.Setting.StatusCodeRanges

namespace AllAiTools.NewApi.Setting.RangeSets

open Foundation (Span)
open Foundation.Joined
open Relay.ParamOverride (Text digits value parseUint atoiSegment trimSpace isDigit_of_mem_digits
  digits_ne_nil value_digits)
open Common.Str (isSpace)
open StatusCodeRanges

section Property

/-- A number in decimals, with or without a plus sign. -/
def Number (t : Text) (n : ℤ) : Prop :=
  ∃ ds : Text, (t = ds ∨ t = '+' :: ds) ∧ ds ≠ [] ∧ ds.all Char.isDigit = true ∧ n = value ds

/-- A token with the spaces in it taken out. -/
def unspaced (token : Text) : Text := (trimSpace token).filter (· ≠ ' ')

/-- The codes a token stands for: a single one, or those from one to another. -/
inductive Denotes (token : Text) : Span → Prop
  | code {n : ℤ} : Number (unspaced token) n → 100 ≤ n → n ≤ 599 → Denotes token ⟨n, n⟩
  | range {a b : Text} {m n : ℤ} : unspaced token = a ++ '-' :: b → Number a m → Number b n →
      m ≤ n → 100 ≤ m → n ≤ 599 → Denotes token ⟨m, n⟩

def TokenCovers (token : Text) (code : ℤ) : Prop :=
  ∃ r, Denotes token r ∧ r.start ≤ code ∧ code ≤ r.stop

/-- The list is that of the set of codes which the tokens of the input stand for. -/
structure Normal (input : Text) (ranges : List StatusCodeRange) : Prop where
  separated : Span.Separated ranges
  exact : ∀ code, 100 ≤ code → code ≤ 599 →
    (shouldMatchStatusCodeRanges ranges code = true ↔ ∃ token ∈ tokens input, TokenCovers token code)
  printed : parseHTTPStatusCodeRanges (statusCodeRangesToString ranges) = .ok ranges

end Property

section Tokens

theorem parseUint_iff {s : Text} {n : ℕ} :
    parseUint s = some n ↔ s ≠ [] ∧ s.all Char.isDigit = true ∧ n = value s := by
  unfold parseUint
  split_ifs with h
  · rw [Option.some.injEq]
    exact ⟨fun hn ↦ ⟨h.1, h.2, hn.symm⟩, fun hn ↦ hn.2.2.symm⟩
  · exact iff_of_false (by simp) fun hn ↦ h ⟨hn.1, hn.2.1⟩

theorem atoiSegment_iff {s : Text} (hdash : '-' ∉ s) {n : ℤ} :
    atoiSegment s = some n ↔ Number s n := by
  have hplain : ∀ ds : Text, (parseUint ds).map (fun k : ℕ ↦ (k : ℤ)) = some n ↔
      ds ≠ [] ∧ ds.all Char.isDigit = true ∧ n = value ds := by
    intro ds
    simp only [Option.map_eq_some_iff, parseUint_iff]
    constructor
    · rintro ⟨k, ⟨hne, hall, rfl⟩, rfl⟩
      exact ⟨hne, hall, rfl⟩
    · rintro ⟨hne, hall, rfl⟩
      exact ⟨_, ⟨hne, hall, rfl⟩, rfl⟩
  cases s with
  | nil =>
    have hnone : atoiSegment [] = none := by decide
    rw [hnone]
    refine iff_of_false (by simp) ?_
    rintro ⟨ds, rfl | hplus, hne, -⟩
    · exact hne rfl
    · cases hplus
  | cons c s =>
    by_cases hplus : c = '+'
    · subst hplus
      have hread : atoiSegment ('+' :: s) = (parseUint s).map fun k : ℕ ↦ (k : ℤ) := by
        rw [atoiSegment]
        cases parseUint s <;> rfl
      rw [hread, hplain]
      constructor
      · exact fun h ↦ ⟨s, .inr rfl, h⟩
      · rintro ⟨ds, rfl | hds, hne, hall, hn⟩
        · exact absurd hall (by simp)
        · cases hds
          exact ⟨hne, hall, hn⟩
    · have hminus : c ≠ '-' := fun h ↦ hdash (h ▸ List.mem_cons_self)
      have hread : atoiSegment (c :: s) = (parseUint (c :: s)).map fun k : ℕ ↦ (k : ℤ) := by
        unfold atoiSegment
        split
        · rename_i h
          exact absurd (List.cons_eq_cons.mp h).1 hminus
        · rename_i h
          exact absurd (List.cons_eq_cons.mp h).1 hplus
        · cases parseUint (c :: s) <;> rfl
      rw [hread, hplain]
      constructor
      · exact fun h ↦ ⟨c :: s, .inl rfl, h⟩
      · rintro ⟨ds, rfl | hds, hne, hall, hn⟩
        · exact ⟨hne, hall, hn⟩
        · exact absurd (List.cons_eq_cons.mp hds).1 hplus

theorem atoi_iff {s : Text} (hdash : '-' ∉ s) {n : ℤ} :
    atoi s = some n ↔ Number s n ∧ n < 2 ^ 63 := by
  unfold atoi
  rw [Option.filter_eq_some_iff, atoiSegment_iff hdash, decide_eq_true_eq]
  constructor
  · exact fun h ↦ ⟨h.1, h.2.2⟩
  · rintro ⟨hn, hlt⟩
    obtain ⟨ds, -, -, -, rfl⟩ := id hn
    exact ⟨hn, by omega, hlt⟩

theorem Number.no_dash {t : Text} {n : ℤ} (h : Number t n) : '-' ∉ t := by
  obtain ⟨ds, hds, -, hall, -⟩ := h
  have hnot : '-' ∉ ds := fun hin ↦ absurd (List.all_eq_true.mp hall _ hin) (by decide)
  rcases hds with rfl | rfl
  · exact hnot
  · simpa using hnot

theorem Number.ne_nil {t : Text} {n : ℤ} (h : Number t n) : t ≠ [] := by
  obtain ⟨ds, rfl | rfl, hne, -⟩ := h
  · exact hne
  · exact List.cons_ne_nil _ _

theorem split_pair {t a b : Text} : t.splitOn '-' = [a, b] ↔ t = a ++ '-' :: b ∧ '-' ∉ a ∧ '-' ∉ b := by
  have hjoin : joined '-' [a, b] = a ++ '-' :: b := by
    rw [joined_cons '-' a (List.cons_ne_nil b []), joined_singleton]
  constructor
  · intro h
    have ht := joined_splitOn '-' t
    rw [h, hjoin] at ht
    refine ⟨ht.symm, ?_, ?_⟩
    · have hmem : a ∈ t.splitOn '-' := h ▸ List.mem_cons_self
      exact not_mem_of_mem_splitOn hmem
    · have hmem : b ∈ t.splitOn '-' := h ▸ List.mem_cons_of_mem a List.mem_cons_self
      exact not_mem_of_mem_splitOn hmem
  · rintro ⟨rfl, ha, hb⟩
    rw [← hjoin]
    exact splitOn_joined (by simp [ha, hb]) (List.cons_ne_nil _ _)

theorem parse_plain {t : Text} (hdash : '-' ∉ t) {r : Span} :
    parseUnspaced t = some r ↔ ∃ n, Number t n ∧ 100 ≤ n ∧ n ≤ 599 ∧ r = ⟨n, n⟩ := by
  unfold parseUnspaced
  by_cases hnil : t = []
  · rw [if_pos hnil]
    refine iff_of_false (by simp) ?_
    rintro ⟨n, hnumber, -⟩
    exact hnumber.ne_nil hnil
  · rw [if_neg hnil, if_neg hdash, Option.bind_eq_some_iff]
    constructor
    · rintro ⟨n, hn, hbound⟩
      obtain ⟨hnumber, -⟩ := (atoi_iff hdash).mp hn
      split_ifs at hbound with hout
      cases hbound
      exact ⟨n, hnumber, by omega, by omega, rfl⟩
    · rintro ⟨n, hnumber, hlow, hhigh, rfl⟩
      refine ⟨n, (atoi_iff hdash).mpr ⟨hnumber, by omega⟩, ?_⟩
      rw [if_neg (by omega)]

theorem parse_dash {t : Text} (hdash : '-' ∈ t) {r : Span} :
    parseUnspaced t = some r ↔ ∃ a b m n, t = a ++ '-' :: b ∧ Number a m ∧ Number b n ∧
      m ≤ n ∧ 100 ≤ m ∧ n ≤ 599 ∧ r = ⟨m, n⟩ := by
  unfold parseUnspaced
  rw [if_neg (List.ne_nil_of_mem hdash), if_pos hdash]
  constructor
  · intro h
    split at h
    · rename_i a b hsplit
      obtain ⟨ht, ha, hb⟩ := split_pair.mp hsplit
      split_ifs at h
      obtain ⟨m, hm, h⟩ := Option.bind_eq_some_iff.mp h
      obtain ⟨n, hn, h⟩ := Option.bind_eq_some_iff.mp h
      split_ifs at h with hmn hout
      cases h
      exact ⟨a, b, m, n, ht, ((atoi_iff ha).mp hm).1, ((atoi_iff hb).mp hn).1, by omega, by omega,
        by omega, rfl⟩
    · cases h
  · rintro ⟨a, b, m, n, ht, ha, hb, hmn, hm, hn, rfl⟩
    have hsplit := split_pair.mpr ⟨ht, ha.no_dash, hb.no_dash⟩
    have hstart : atoi a = some m := (atoi_iff ha.no_dash).mpr ⟨ha, by omega⟩
    have hstop : atoi b = some n := (atoi_iff hb.no_dash).mpr ⟨hb, by omega⟩
    rw [hsplit]
    dsimp only
    rw [if_neg (by simp [ha.ne_nil, hb.ne_nil]), hstart, Option.bind_some, hstop, Option.bind_some,
      if_neg (by omega), if_neg (by omega)]

/-- The parser reads a token as what it stands for, and refuses the others. -/
theorem parseToken_iff {token : Text} {r : Span} :
    parseHTTPStatusCodeToken token = some r ↔ Denotes token r := by
  have hparse : parseHTTPStatusCodeToken token = parseUnspaced (unspaced token) := rfl
  rw [hparse]
  generalize ht : unspaced token = t
  by_cases hdash : '-' ∈ t
  · rw [parse_dash hdash]
    constructor
    · rintro ⟨a, b, m, n, rfl, ha, hb, hmn, hm, hn, rfl⟩
      exact .range ht ha hb hmn hm hn
    · intro h
      cases h with
      | code hnumber _ _ => exact absurd (ht ▸ hdash) hnumber.no_dash
      | range hsplit ha hb hmn hm hn => exact ⟨_, _, _, _, ht.symm.trans hsplit, ha, hb, hmn, hm, hn, rfl⟩
  · rw [parse_plain hdash]
    constructor
    · rintro ⟨n, hnumber, hlow, hhigh, rfl⟩
      exact .code (ht ▸ hnumber) hlow hhigh
    · intro h
      cases h with
      | code hnumber hlow hhigh => exact ⟨_, ht ▸ hnumber, hlow, hhigh, rfl⟩
      | range hsplit _ _ _ _ _ => exact absurd (by rw [← ht, hsplit]; simp) hdash

end Tokens

section Printed

theorem trimSpace_eq {s : Text} (h : ∀ c ∈ s, isSpace c = false) : trimSpace s = s := by
  unfold trimSpace
  have hdrop : s.dropWhile isSpace = s := by
    cases s with
    | nil => rfl
    | cons c s => exact List.dropWhile_cons_of_neg (by simp [h c List.mem_cons_self])
  rw [hdrop, List.rdropWhile_eq_self_iff]
  intro hne hlast
  rw [h _ (List.getLast_mem hne)] at hlast
  cases hlast

/-- The characters of a printed range. -/
def Printed (c : Char) : Prop := c.isDigit = true ∨ c = '-'

theorem Printed.facts {c : Char} (h : Printed c) :
    isSpace c = false ∧ c ≠ ' ' ∧ c ≠ ',' ∧ c ≠ '\uff0c' := by
  rcases h with h | rfl
  · have hrange : 48 ≤ c.toNat ∧ c.toNat ≤ 57 := by
      simpa [Char.isDigit, UInt32.le_iff_toNat_le] using h
    have hne : ∀ d : Char, (d.toNat < 48 ∨ 57 < d.toNat) → c ≠ d := by
      rintro d hd rfl
      omega
    refine ⟨?_, hne ' ' (by decide), hne ',' (by decide), hne '\uff0c' (by decide)⟩
    unfold isSpace
    rw [Bool.or_eq_false_iff, decide_eq_false_iff_not, Bool.and_eq_false_iff, decide_eq_false_iff_not,
      decide_eq_false_iff_not]
    constructor
    · simp only [List.mem_cons, List.not_mem_nil, or_false]
      omega
    · omega
  · decide

theorem itoa_eq {n : ℤ} (hn : 0 ≤ n) : itoa n = digits n.toNat := by
  unfold itoa
  rw [if_neg (by omega)]
  congr 1
  omega

theorem number_itoa {n : ℤ} (hn : 0 ≤ n) : Number (itoa n) n := by
  rw [itoa_eq hn]
  refine ⟨digits n.toNat, .inl rfl, digits_ne_nil _, ?_, ?_⟩
  · exact List.all_eq_true.mpr fun c hc ↦ isDigit_of_mem_digits hc
  · rw [value_digits]
    omega

theorem printed_itoa {n : ℤ} (hn : 0 ≤ n) : ∀ c ∈ itoa n, Printed c := by
  rw [itoa_eq hn]
  exact fun c hc ↦ .inl (isDigit_of_mem_digits hc)

theorem printed_range {r : Span} (hstart : 0 ≤ r.start) (hstop : 0 ≤ r.stop) :
    ∀ c ∈ rangeToString r, Printed c := by
  intro c hc
  unfold rangeToString at hc
  split_ifs at hc
  · exact printed_itoa hstart c hc
  · rcases List.mem_append.mp hc with hc | hc
    · exact printed_itoa hstart c hc
    · rcases List.mem_cons.mp hc with rfl | hc
      · exact .inr rfl
      · exact printed_itoa hstop c hc

theorem rangeToString_ne_nil {r : Span} (hstart : 0 ≤ r.start) : rangeToString r ≠ [] := by
  unfold rangeToString
  split_ifs
  · exact (number_itoa hstart).ne_nil
  · simp

/-- A range within the bounds of a status code. -/
structure Within (r : Span) : Prop where
  low : 100 ≤ r.start
  ordered : r.start ≤ r.stop
  high : r.stop ≤ 599

theorem Denotes.within {token : Text} {r : Span} (h : Denotes token r) : Within r := by
  cases h with
  | code _ hlow hhigh => exact ⟨hlow, le_rfl, hhigh⟩
  | range _ _ _ hmn hm hn => exact ⟨hm, hmn, hn⟩

theorem unspaced_printed {s : Text} (h : ∀ c ∈ s, Printed c) : unspaced s = s := by
  unfold unspaced
  rw [trimSpace_eq fun c hc ↦ (h c hc).facts.1, List.filter_eq_self]
  exact fun c hc ↦ decide_eq_true (h c hc).facts.2.1

/-- A range is printed as a token that stands for it. -/
theorem denotes_printed {r : Span} (h : Within r) : Denotes (rangeToString r) r := by
  have hstart : 0 ≤ r.start := by
    have hlow := h.low
    omega
  have hstop : 0 ≤ r.stop := hstart.trans h.ordered
  have hunspaced := unspaced_printed (printed_range hstart hstop)
  obtain ⟨start, stop⟩ := r
  by_cases hone : start = stop
  · subst hone
    apply Denotes.code
    · rw [hunspaced, rangeToString, if_pos rfl]
      exact number_itoa hstart
    · exact h.low
    · exact h.high
  · apply Denotes.range (a := itoa start) (b := itoa stop)
    · rw [hunspaced, rangeToString, if_neg hone]
    · exact number_itoa hstart
    · exact number_itoa hstop
    · exact h.ordered
    · exact h.low
    · exact h.high

theorem tokens_printed {ranges : List StatusCodeRange} (h : ∀ r ∈ ranges, Within r) (hne : ranges ≠ []) :
    tokens (statusCodeRangesToString ranges) = ranges.map rangeToString := by
  have hprinted : ∀ s ∈ ranges.map rangeToString, ∀ c ∈ s, Printed c := by
    intro s hs
    obtain ⟨r, hr, rfl⟩ := List.mem_map.mp hs
    have hlow := (h r hr).low
    have hordered := (h r hr).ordered
    exact printed_range (by omega) (by omega)
  have hchars : ∀ c ∈ statusCodeRangesToString ranges, isSpace c = false ∧ c ≠ '\uff0c' := by
    intro c hc
    rcases mem_joined hc with rfl | ⟨s, hs, hc⟩
    · decide
    · exact ⟨(hprinted s hs c hc).facts.1, (hprinted s hs c hc).facts.2.2.2⟩
  have hcommas : (statusCodeRangesToString ranges).map (fun c ↦ if c = '\uff0c' then ',' else c) =
      statusCodeRangesToString ranges := by
    rw [List.map_congr_left fun c hc ↦ if_neg (hchars c hc).2, List.map_id']
  have hsplit : (statusCodeRangesToString ranges).splitOn ',' = ranges.map rangeToString := by
    apply splitOn_joined
    · exact fun s hs hcomma ↦ (hprinted s hs _ hcomma).facts.2.2.1 rfl
    · simpa using hne
  unfold tokens
  rw [trimSpace_eq fun c hc ↦ (hchars c hc).1, hcommas, hsplit,
    List.map_congr_left fun s hs ↦ trimSpace_eq fun c hc ↦ (hprinted s hs c hc).facts.1, List.map_id',
    List.filter_eq_self]
  intro s hs
  obtain ⟨r, hr, rfl⟩ := List.mem_map.mp hs
  have hlow := (h r hr).low
  exact decide_eq_true (rangeToString_ne_nil (by omega))

end Printed

section Lists

instance : IsTrans StatusCodeRange rangeBefore where
  trans a b c hab hbc := by
    unfold rangeBefore at *
    omega

instance : Std.Total rangeBefore where
  total a b := by
    unfold rangeBefore
    omega

/-- What is sorted is in the order of its starts. -/
theorem starting_sorted {ranges : List StatusCodeRange} (h : ∀ r ∈ ranges, Within r) :
    Span.Starting (ranges.insertionSort rangeBefore) := by
  constructor
  · intro r hr
    exact (h r ((List.mem_insertionSort rangeBefore).mp hr)).ordered
  · refine (List.pairwise_insertionSort rangeBefore ranges).imp ?_
    intro a b hab
    unfold rangeBefore at hab
    omega

theorem covers_sorted (ranges : List StatusCodeRange) (code : ℤ) :
    Span.Covers (ranges.insertionSort rangeBefore) code ↔ Span.Covers ranges code :=
  Span.covers_perm (List.perm_insertionSort rangeBefore ranges) code

theorem merge_within {ranges : List StatusCodeRange} (h : ∀ r ∈ ranges, Within r)
    (hranges : Span.Starting ranges) : ∀ r ∈ Span.merge ranges, Within r := by
  intro r hr
  have hseparated := Span.separated_merge hranges
  have hordered := hseparated.nonempty r hr
  have hcovered : ∀ x, r.start ≤ x → x ≤ r.stop → 100 ≤ x ∧ x ≤ 599 := by
    intro x hlow hhigh
    obtain ⟨s, hs, hstart, hstop⟩ := (Span.covers_merge hranges x).mp ⟨r, hr, hlow, hhigh⟩
    have hwithin := h s hs
    exact ⟨hwithin.low.trans hstart, hstop.trans hwithin.high⟩
  exact ⟨(hcovered r.start le_rfl hordered).1, hordered, (hcovered r.stop hordered le_rfl).2⟩

/-- A separated list is what the parser makes of its print. -/
theorem parse_printed {ranges : List StatusCodeRange} (h : ∀ r ∈ ranges, Within r)
    (hseparated : Span.Separated ranges) :
    parseHTTPStatusCodeRanges (statusCodeRangesToString ranges) = .ok ranges := by
  unfold parseHTTPStatusCodeRanges
  by_cases hempty : ranges = []
  · subst hempty
    exact if_pos (by decide)
  have htokens := tokens_printed h hempty
  have hread : ∀ r ∈ ranges, parseHTTPStatusCodeToken (rangeToString r) = some r := fun r hr ↦
    parseToken_iff.mpr (denotes_printed (h r hr))
  have hparsed : (tokens (statusCodeRangesToString ranges)).filterMap parseHTTPStatusCodeToken = ranges := by
    have hsame : ranges.filterMap (parseHTTPStatusCodeToken ∘ rangeToString) = ranges.filterMap some :=
      List.filterMap_congr hread
    rw [htokens, List.filterMap_map, hsame, List.filterMap_some]
  have hvalid : (tokens (statusCodeRangesToString ranges)).filter
      (fun seg ↦ (parseHTTPStatusCodeToken seg).isNone) = [] := by
    rw [htokens, List.filter_eq_nil_iff]
    intro seg hseg
    obtain ⟨r, hr, rfl⟩ := List.mem_map.mp hseg
    rw [hread r hr]
    exact Bool.false_ne_true
  have hsorted : ranges.insertionSort rangeBefore = ranges := by
    apply List.Pairwise.insertionSort_eq
    refine hseparated.gaps.imp_of_mem ?_
    intro a b ha _ hab
    have hordered := (h a ha).ordered
    unfold rangeBefore
    omega
  have hblank : trimSpace (statusCodeRangesToString ranges) ≠ [] := by
    intro hnil
    unfold tokens at htokens
    rw [hnil] at htokens
    have hnone : ranges.map rangeToString = [] := htokens.symm
    exact hempty (List.map_eq_nil_iff.mp hnone)
  rw [if_neg hblank]
  dsimp only
  rw [hvalid, hparsed, hsorted, if_neg (by simp), Span.merge_of_separated hseparated]

theorem accepted {input : Text} {ranges : List StatusCodeRange}
    (h : parseHTTPStatusCodeRanges input = .ok ranges) :
    ranges = Span.merge
      (((tokens input).filterMap parseHTTPStatusCodeToken).insertionSort rangeBefore) := by
  unfold parseHTTPStatusCodeRanges at h
  split_ifs at h with hblank
  · cases h
    have hnone : tokens input = [] := by
      unfold tokens
      rw [hblank]
      decide
    rw [hnone]
    rfl
  · dsimp only at h
    split_ifs at h
    cases h
    rfl

/-- An accepted list of ranges is the set of the codes its tokens stand for, in a normal form that
its print keeps; a refused one has a token that stands for none. -/
theorem ranges_normal (input : Text) :
    (∀ ranges, parseHTTPStatusCodeRanges input = .ok ranges → Normal input ranges) ∧
      ∀ message, parseHTTPStatusCodeRanges input = .error message →
        ∃ token ∈ tokens input, ∀ r, ¬ Denotes token r := by
  constructor
  · intro ranges hparse
    have hranges := accepted hparse
    have hwithin : ∀ r ∈ (tokens input).filterMap parseHTTPStatusCodeToken, Within r := by
      intro r hr
      obtain ⟨token, -, hread⟩ := List.mem_filterMap.mp hr
      exact (parseToken_iff.mp hread).within
    have hstarting := starting_sorted hwithin
    have hseparated : Span.Separated ranges := hranges ▸ Span.separated_merge hstarting
    refine ⟨hseparated, ?_, ?_⟩
    · intro code hlow hhigh
      have hmatch : shouldMatchStatusCodeRanges ranges code = Span.search code ranges := by
        unfold shouldMatchStatusCodeRanges
        rw [if_neg (by omega)]
      rw [hmatch, Span.search_iff hseparated, hranges, Span.covers_merge hstarting, covers_sorted]
      constructor
      · rintro ⟨r, hr, hcovers⟩
        obtain ⟨token, htoken, hread⟩ := List.mem_filterMap.mp hr
        exact ⟨token, htoken, r, parseToken_iff.mp hread, hcovers⟩
      · rintro ⟨token, htoken, r, hdenotes, hcovers⟩
        exact ⟨r, List.mem_filterMap.mpr ⟨token, htoken, parseToken_iff.mpr hdenotes⟩, hcovers⟩
    · apply parse_printed _ hseparated
      rw [hranges]
      apply merge_within _ hstarting
      intro r hr
      exact hwithin r ((List.mem_insertionSort rangeBefore).mp hr)
  · intro message hparse
    unfold parseHTTPStatusCodeRanges at hparse
    split_ifs at hparse
    dsimp only at hparse
    split_ifs at hparse with hinvalid
    obtain ⟨token, htoken⟩ := List.exists_mem_of_ne_nil _ hinvalid
    obtain ⟨hmem, hnone⟩ := List.mem_filter.mp htoken
    refine ⟨token, hmem, ?_⟩
    intro r hr
    rw [parseToken_iff.mpr hr] at hnone
    cases hnone

end Lists

end AllAiTools.NewApi.Setting.RangeSets
