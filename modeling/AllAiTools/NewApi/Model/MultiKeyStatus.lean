import AllAiTools.Foundation.Run
import AllAiTools.NewApi.Model.ChannelStatus

namespace AllAiTools.NewApi.Model.MultiKeyStatus

open Foundation Common.Str Channels Abilities CachedChannels ChannelStatus

section View

/-- What the two copies of a multi-key channel are compared by. -/
structure View where
  status : ℤ
  list : ℕ → Option ℤ

def view (channel : Channel) : View := ⟨channel.status, channel.channelInfo.multiKeyStatusList⟩

/-- A key is listed as disabled. -/
def DisabledAt (list : ℕ → Option ℤ) (i : ℕ) : Prop :=
  ∃ status, list i = some status ∧ status ≠ channelStatusEnabled

def AllDisabled (n : ℕ) (list : ℕ → Option ℤ) : Prop := ∀ i < n, DisabledAt list i

theorem hasEnabledMultiKey_iff (keys : List String) (list : ℕ → Option ℤ) :
    hasEnabledMultiKey keys list = true ↔ ¬ AllDisabled keys.length list := by
  unfold hasEnabledMultiKey AllDisabled DisabledAt
  rw [List.any_eq_true]
  constructor
  · rintro ⟨i, hi, henabled⟩ hall
    obtain ⟨status, hs, hne⟩ := hall i (List.mem_range.mp hi)
    rw [hs, decide_eq_true_eq] at henabled
    exact hne henabled
  · intro hnot
    push Not at hnot
    obtain ⟨i, hi, henabled⟩ := hnot
    refine ⟨i, List.mem_range.mpr hi, ?_⟩
    cases hs : list i with
    | none => rfl
    | some status => simpa using henabled status hs

instance (list : ℕ → Option ℤ) (i : ℕ) : Decidable (DisabledAt list i) :=
  decidable_of_iff ((list i).any (· ≠ channelStatusEnabled) = true) (by
    cases h : list i <;> simp [DisabledAt, h])

instance (n : ℕ) (list : ℕ → Option ℤ) : Decidable (AllDisabled n list) :=
  inferInstanceAs (Decidable (∀ i < n, DisabledAt list i))

/-- What a call does to a channel with the given keys. -/
def View.after (keys : List String) (v : View) (call : StatusCall) : View :=
  match keys.idxOf? call.usingKey with
  | none => if keys = [] ∨ call.usingKey = "" then { v with status := call.status } else v
  | some i =>
    let list := Function.update v.list i
      (if call.status = channelStatusEnabled then none else some call.status)
    if AllDisabled keys.length list then ⟨channelStatusAutoDisabled, list⟩
    else if call.status = channelStatusEnabled then ⟨channelStatusEnabled, list⟩
    else ⟨v.status, list⟩

variable {parse : String → Option (List String)}

theorem handler_fields (now : ℤ) (channel : Channel) (usingKey : String) (status : ℤ)
    (reason : String) :
    let channel' := handlerMultiKeyUpdate parse now channel usingKey status reason
    channel'.id = channel.id ∧ channel'.getKeys parse = channel.getKeys parse ∧
      channel'.channelInfo.isMultiKey = channel.channelInfo.isMultiKey := by
  have hkeys : ∀ channel' : Channel, channel'.key = channel.key → channel'.keys = channel.keys →
      channel'.getKeys parse = channel.getKeys parse := by
    intro channel' hkey hcached
    rw [Channel.getKeys, hkey, hcached, Channel.getKeys]
  unfold handlerMultiKeyUpdate
  dsimp only
  by_cases hnil : channel.getKeys parse = []
  · rw [if_pos hnil]
    exact ⟨rfl, hkeys _ rfl rfl, rfl⟩
  · rw [if_neg hnil]
    cases (channel.getKeys parse).idxOf? usingKey with
    | none =>
      dsimp only
      split_ifs
      · exact ⟨rfl, rfl, rfl⟩
      · exact ⟨rfl, hkeys _ rfl rfl, rfl⟩
    | some keyIndex =>
      dsimp only
      split_ifs <;> exact ⟨rfl, hkeys _ rfl rfl, rfl⟩

theorem view_handler (call : StatusCall) (channel : Channel) :
    view (handlerMultiKeyUpdate parse call.now channel call.usingKey call.status call.reason) =
      (view channel).after (channel.getKeys parse) call := by
  unfold handlerMultiKeyUpdate View.after
  dsimp only
  by_cases hnil : channel.getKeys parse = []
  · rw [if_pos hnil, hnil]
    rfl
  · rw [if_neg hnil]
    cases (channel.getKeys parse).idxOf? call.usingKey with
    | none =>
      dsimp only
      by_cases hempty : call.usingKey = ""
      · rw [if_neg (not_not.mpr hempty), if_pos (.inr hempty)]
        rfl
      · rw [if_pos hempty, if_neg (by tauto)]
    | some keyIndex =>
      dsimp only
      have hiff := hasEnabledMultiKey_iff (channel.getKeys parse)
      by_cases hs : call.status = channelStatusEnabled
      · have hlist : (view channel).list = channel.channelInfo.multiKeyStatusList := rfl
        simp only [if_pos hs, hlist]
        by_cases hall : AllDisabled (channel.getKeys parse).length
            (Function.update channel.channelInfo.multiKeyStatusList keyIndex none)
        · have hnot := (hiff _).not.mpr (not_not.mpr hall)
          rw [if_pos hnot, if_pos hall]
          rfl
        · rw [if_neg (not_not.mpr ((hiff _).mpr hall)), if_neg hall]
          rfl
      · have hlist : (view channel).list = channel.channelInfo.multiKeyStatusList := rfl
        simp only [if_neg hs, hlist]
        by_cases hall : AllDisabled (channel.getKeys parse).length
            (Function.update channel.channelInfo.multiKeyStatusList keyIndex (some call.status))
        · have hnot := (hiff _).not.mpr (not_not.mpr hall)
          rw [if_pos hnot, if_pos hall]
          rfl
        · rw [if_neg (not_not.mpr ((hiff _).mpr hall)), if_neg hall]
          rfl

end View

section Step

variable (parse : String → Option (List String)) (id : ℤ)

def step (s : ChannelStore) (call : StatusCall) : ChannelStore :=
  (updateChannelStatus parse id call s).2

/-- The multi-key channel with an id, in the cache and in the database. -/
structure At (keys : List String) (s : ChannelStore) (cached stored : Channel) : Prop where
  inCache : s.cache.channelsIDM id = some cached
  inDatabase : s.db.channels.find id = some stored
  multiCached : cached.channelInfo.isMultiKey = true
  multiStored : stored.channelInfo.isMultiKey = true
  keysCached : cached.getKeys parse = keys
  keysStored : stored.getKeys parse = keys

/-- A write of the channel's row succeeds. -/
def Stores (call : StatusCall) : Prop := call.reachable = true ∧ id ≠ 0

instance (call : StatusCall) : Decidable (Stores id call) := inferInstanceAs (Decidable (_ ∧ _))

variable {parse id} {keys : List String} {s : ChannelStore} {cached stored : Channel}

theorem updateCached_spec (call : StatusCall) (hc : s.cache.channelsIDM id = some cached)
    (hm : cached.channelInfo.isMultiKey = true) :
    ∃ cache, updateCached parse id call s.cache = some cache ∧ cache.channelsIDM id =
      some (handlerMultiKeyUpdate parse call.now cached call.usingKey call.status call.reason) := by
  unfold updateCached
  rw [hc]
  dsimp only
  rw [if_pos hm]
  split_ifs
  · refine ⟨_, rfl, ?_⟩
    simp [cacheUpdateChannelStatus]
  · exact ⟨_, rfl, Function.update_self _ _ _⟩

theorem updateStored_spec (call : StatusCall) {db : Database}
    (hd : db.channels.find id = some stored) (hm : stored.channelInfo.isMultiKey = true) :
    (updateStored parse id call db).2.channels.find id =
      some (if stored.status = call.status ∨ ¬ Stores id call then stored
        else handlerMultiKeyUpdate parse call.now stored call.usingKey call.status call.reason) := by
  have hid : stored.id = id := Table.find_key hd
  unfold updateStored
  by_cases hr : call.reachable = true
  · rw [if_pos hr, hd]
    dsimp only
    by_cases hs : stored.status = call.status
    · rw [if_pos hs, if_pos (.inl hs)]
      exact hd
    · rw [if_neg hs, if_pos hm]
      have hchannels : ∀ (p : Prop) [Decidable p] (db : Database) (abilities : Table Ability.key),
          (if p then { db with abilities } else db).channels = db.channels := by
        intro p _ db abilities
        split_ifs <;> rfl
      rw [hchannels, saveWithoutKey]
      have hfields := @handler_fields parse call.now stored call.usingKey call.status
        call.reason
      dsimp only at hfields
      rw [hfields.1, hid, if_pos hr]
      by_cases hzero : id = 0
      · rw [if_pos hzero, if_pos (.inr fun h ↦ h.2 hzero)]
        exact hd
      · rw [if_neg hzero, if_neg]
        · change (db.channels.save _).find id = _
          rw [Table.find_save, if_pos (hfields.1.trans hid), hd]
          rfl
        · rintro (h | h)
          · exact hs h
          · exact h ⟨hr, hzero⟩
  · rw [if_neg hr, if_pos (.inr fun h ↦ hr h.1)]
    exact hd

/-- A call as it acts on the two copies. -/
theorem step_at (h : At parse id keys s cached stored) (call : StatusCall) :
    ∃ cached' stored', At parse id keys (step parse id s call) cached' stored' ∧
      view cached' = (view cached).after keys call ∧
      view stored' = if stored.status = call.status ∨ ¬ Stores id call then view stored
        else (view stored).after keys call := by
  obtain ⟨cache, hcache, hc⟩ := @updateCached_spec parse id _ _ call h.inCache h.multiCached
  have hd := @updateStored_spec parse id _ call _ h.inDatabase h.multiStored
  have hstep : step parse id s call = ⟨cache, (updateStored parse id call s.db).2⟩ := by
    rw [step, updateChannelStatus, hcache]
  obtain ⟨_, hkeysc, hmultic⟩ := @handler_fields parse call.now cached call.usingKey
    call.status call.reason
  obtain ⟨_, hkeysd, hmultid⟩ := @handler_fields parse call.now stored call.usingKey
    call.status call.reason
  refine ⟨_, _, ⟨by rw [hstep]; exact hc, by rw [hstep]; exact hd, hmultic.trans h.multiCached, ?_,
    hkeysc.trans h.keysCached, ?_⟩, ?_, ?_⟩
  · split_ifs
    · exact h.multiStored
    · exact hmultid.trans h.multiStored
  · split_ifs
    · exact h.keysStored
    · exact hkeysd.trans h.keysStored
  · rw [view_handler, h.keysCached]
  · split_ifs
    · rfl
    · rw [view_handler, h.keysStored]

end Step

section Condition

/-- The call leaves the channel's status and list as they are. -/
def Unchanging (keys : List String) (v : View) (call : StatusCall) : Prop :=
  match keys.idxOf? call.usingKey with
  | none => keys = [] ∨ call.usingKey = "" → v.status = call.status
  | some i =>
    if call.status = channelStatusEnabled then v.status = channelStatusEnabled ∧ v.list i = none
    else v.list i = some call.status ∧
      (AllDisabled keys.length v.list → v.status = channelStatusAutoDisabled)

/-- The status that the call leaves says whether all keys are disabled. -/
def Telling (keys : List String) (v : View) (call : StatusCall) : Prop :=
  match keys.idxOf? call.usingKey with
  | none =>
    if keys = [] ∨ call.usingKey = "" then
      call.status = channelStatusManuallyDisabled ∨
        (call.status = channelStatusAutoDisabled ↔ AllDisabled keys.length v.list)
    else v.status = channelStatusManuallyDisabled ∨
      (v.status = channelStatusAutoDisabled ↔ AllDisabled keys.length v.list)
  | some i => call.status ≠ channelStatusEnabled → v.status = channelStatusAutoDisabled →
      AllDisabled keys.length (Function.update v.list i (some call.status))

/-- The condition on a call and the state before it. -/
structure Meets (id : ℤ) (keys : List String) (v : View) (call : StatusCall) : Prop where
  written : v.status ≠ call.status ∧ Stores id call ∨ Unchanging keys v call
  once : ∀ i, keys.idxOf? call.usingKey = some i → ∀ j, keys[j]? = some call.usingKey →
    j = i ∨ (DisabledAt v.list j ↔ call.status ≠ channelStatusEnabled)
  telling : Telling keys v call
  manual : v.status = channelStatusManuallyDisabled → call.usingKey ∈ keys →
    call.status ≠ channelStatusEnabled

variable {keys : List String} {v : View} {call : StatusCall}

theorem idxOf_lt {i : ℕ} (h : keys.idxOf? call.usingKey = some i) :
    i < keys.length ∧ keys[i]? = some call.usingKey := by
  rw [List.idxOf?, List.findIdx?_eq_some_iff_getElem] at h
  obtain ⟨hlt, heq, _⟩ := h
  exact ⟨hlt, by simpa [List.getElem?_eq_getElem hlt] using heq⟩

theorem idxOf_none : keys.idxOf? call.usingKey = none ↔ call.usingKey ∉ keys := by
  exact List.idxOf?_eq_none_iff

theorem disabledAt_update (list : ℕ → Option ℤ) (i j : ℕ) (entry : Option ℤ) :
    DisabledAt (Function.update list i entry) j ↔
      if j = i then ∃ status, entry = some status ∧ status ≠ channelStatusEnabled
      else DisabledAt list j := by
  unfold DisabledAt
  by_cases hj : j = i
  · rw [if_pos hj, hj, Function.update_self]
  · rw [if_neg hj, Function.update_of_ne hj]

/-- A key that was enabled keeps the keys from being disabled all. -/
theorem not_allDisabled_enabled {i : ℕ} (hi : i < keys.length) (list : ℕ → Option ℤ) :
    ¬ AllDisabled keys.length (Function.update list i none) := by
  intro hall
  obtain ⟨status, hs, _⟩ := hall i hi
  rw [Function.update_self] at hs
  cases hs

theorem after_key_enabled {i : ℕ} (hi : keys.idxOf? call.usingKey = some i)
    (hs : call.status = channelStatusEnabled) :
    v.after keys call = ⟨channelStatusEnabled, Function.update v.list i none⟩ := by
  have hnot := not_allDisabled_enabled (idxOf_lt hi).1 v.list
  rw [View.after, hi]
  simp only [if_pos hs, if_neg hnot]

theorem after_key_disabled {i : ℕ} (hi : keys.idxOf? call.usingKey = some i)
    (hs : call.status ≠ channelStatusEnabled) :
    v.after keys call =
      ⟨if AllDisabled keys.length (Function.update v.list i (some call.status)) then
          channelStatusAutoDisabled else v.status,
        Function.update v.list i (some call.status)⟩ := by
  rw [View.after, hi]
  simp only [if_neg hs]
  split_ifs <;> rfl

theorem after_unknown (hi : keys.idxOf? call.usingKey = none) :
    v.after keys call =
      if keys = [] ∨ call.usingKey = "" then { v with status := call.status } else v := by
  rw [View.after, hi]

theorem view_ext {v w : View} : v = w ↔ v.status = w.status ∧ v.list = w.list := by
  obtain ⟨status, list⟩ := v
  obtain ⟨status', list'⟩ := w
  exact View.mk.injEq _ _ _ _ ▸ Iff.rfl

theorem after_eq_self_iff : v.after keys call = v ↔ Unchanging keys v call := by
  unfold Unchanging
  cases hi : keys.idxOf? call.usingKey with
  | none =>
    rw [after_unknown hi]
    dsimp only
    by_cases hk : keys = [] ∨ call.usingKey = ""
    · rw [if_pos hk, view_ext]
      exact ⟨fun h _ ↦ h.1.symm, fun h ↦ ⟨(h hk).symm, rfl⟩⟩
    · rw [if_neg hk]
      exact iff_of_true rfl fun h ↦ absurd h hk
  | some i =>
    have hupdate : ∀ entry, Function.update v.list i entry = v.list ↔ v.list i = entry := by
      intro entry
      rw [Function.update_eq_self_iff]
      exact eq_comm
    dsimp only
    by_cases hs : call.status = channelStatusEnabled
    · rw [if_pos hs, after_key_enabled hi hs, view_ext, hupdate]
      exact and_congr_left' eq_comm
    · rw [if_neg hs, after_key_disabled hi hs, view_ext, hupdate, and_comm]
      refine and_congr_right fun hlist ↦ ?_
      have hsame : Function.update v.list i (some call.status) = v.list := (hupdate _).mpr hlist
      simp only [hsame]
      by_cases hall : AllDisabled keys.length v.list
      · rw [if_pos hall]
        exact ⟨fun h _ ↦ h.symm, fun h ↦ (h hall).symm⟩
      · rw [if_neg hall]
        exact iff_of_true rfl fun h ↦ absurd h hall

/-- After a call the status says whether all keys are disabled, exactly under the condition. -/
theorem telling_iff :
    ((v.after keys call).status ≠ channelStatusManuallyDisabled →
      ((v.after keys call).status = channelStatusAutoDisabled ↔
        AllDisabled keys.length (v.after keys call).list)) ↔ Telling keys v call := by
  unfold Telling
  cases hi : keys.idxOf? call.usingKey with
  | none =>
    rw [after_unknown hi]
    dsimp only
    split_ifs
    · exact Decidable.or_iff_not_imp_left.symm
    · exact Decidable.or_iff_not_imp_left.symm
  | some i =>
    dsimp only
    by_cases hs : call.status = channelStatusEnabled
    · rw [after_key_enabled hi hs]
      have hdiffer : channelStatusEnabled ≠ channelStatusAutoDisabled := by decide
      refine iff_of_true (fun _ ↦ iff_of_false hdiffer ?_) fun h ↦ absurd hs h
      exact not_allDisabled_enabled (idxOf_lt hi).1 v.list
    · rw [after_key_disabled hi hs]
      dsimp only
      by_cases hall : AllDisabled keys.length (Function.update v.list i (some call.status))
      · rw [if_pos hall]
        exact iff_of_true (fun _ ↦ iff_of_true rfl hall) fun _ _ ↦ hall
      · rw [if_neg hall]
        constructor
        · intro h _ hauto
          have hne : v.status ≠ channelStatusManuallyDisabled := by
            rw [hauto]
            decide
          exact (h hne).mp hauto
        · intro h _
          exact ⟨fun hauto ↦ h hs hauto, fun hd ↦ absurd hd hall⟩

end Condition

section History

/-- The last of the calls that name a key disables it; `before` tells where none names it. -/
def LeftDisabled (calls : List StatusCall) (key : String) (before : Prop) : Prop :=
  match (calls.filter (·.usingKey = key)).getLast? with
  | none => before
  | some call => call.status ≠ channelStatusEnabled

theorem leftDisabled_append (calls : List StatusCall) (call : StatusCall) (key : String)
    (before : Prop) : LeftDisabled (calls ++ [call]) key before ↔
      if call.usingKey = key then call.status ≠ channelStatusEnabled
      else LeftDisabled calls key before := by
  unfold LeftDisabled
  rw [List.filter_append]
  by_cases hk : call.usingKey = key
  · rw [if_pos hk, List.filter_cons_of_pos (by simpa using hk), List.filter_nil,
      List.getLast?_append_of_ne_nil _ (List.cons_ne_nil call [])]
    rfl
  · rw [if_neg hk, List.filter_cons_of_neg (by simpa using hk), List.filter_nil, List.append_nil]

variable {keys : List String} {v : View} {call : StatusCall} {initial : ℕ → Option ℤ}
  {calls : List StatusCall}

/-- A key is listed as disabled exactly where the last call that names it disabled it. -/
def Listed (keys : List String) (initial : ℕ → Option ℤ) (calls : List StatusCall)
    (list : ℕ → Option ℤ) : Prop :=
  ∀ i key, keys[i]? = some key →
    (DisabledAt list i ↔ LeftDisabled calls key (DisabledAt initial i))

theorem after_list_key {i : ℕ} (hi : keys.idxOf? call.usingKey = some i) (j : ℕ) :
    DisabledAt (v.after keys call).list j ↔
      if j = i then call.status ≠ channelStatusEnabled else DisabledAt v.list j := by
  by_cases hs : call.status = channelStatusEnabled
  · rw [after_key_enabled hi hs, disabledAt_update]
    simp [hs]
  · rw [after_key_disabled hi hs, disabledAt_update]
    simp [hs]

theorem after_list_unknown (hi : keys.idxOf? call.usingKey = none) :
    (v.after keys call).list = v.list := by
  rw [after_unknown hi]
  split_ifs <;> rfl

/-- The list goes on telling what the calls did, exactly where no other place holds the key
that the call names. -/
theorem listed_iff (h : Listed keys initial calls v.list) :
    Listed keys initial (calls ++ [call]) (v.after keys call).list ↔
      ∀ i, keys.idxOf? call.usingKey = some i → ∀ j, keys[j]? = some call.usingKey →
        j = i ∨ (DisabledAt v.list j ↔ call.status ≠ channelStatusEnabled) := by
  constructor
  · intro hlisted i hi j hj
    have hnew := hlisted j call.usingKey hj
    rw [after_list_key hi, leftDisabled_append, if_pos rfl] at hnew
    by_cases hji : j = i
    · exact .inl hji
    · rw [if_neg hji] at hnew
      exact .inr hnew
  · intro honce j key hj
    rw [leftDisabled_append]
    by_cases hk : call.usingKey = key
    · subst hk
      rw [if_pos rfl]
      cases hi : keys.idxOf? call.usingKey with
      | none => exact absurd (List.mem_of_getElem? hj) (idxOf_none.mp hi)
      | some i =>
        rw [after_list_key hi]
        by_cases hji : j = i
        · rw [if_pos hji]
        · rw [if_neg hji]
          exact (honce i hi j hj).resolve_left hji
    · rw [if_neg hk, ← h j key hj]
      cases hi : keys.idxOf? call.usingKey with
      | none => rw [after_list_unknown hi]
      | some i =>
        rw [after_list_key hi, if_neg]
        rintro rfl
        have hkey := (idxOf_lt hi).2
        rw [hj, Option.some.injEq] at hkey
        exact hk hkey.symm

theorem manual_iff : (v.status = channelStatusManuallyDisabled → call.usingKey ∈ keys →
      call.status = channelStatusEnabled → (v.after keys call).status ≠ channelStatusEnabled) ↔
    (v.status = channelStatusManuallyDisabled → call.usingKey ∈ keys →
      call.status ≠ channelStatusEnabled) := by
  refine forall_congr' fun _ ↦ forall_congr' fun hmem ↦ forall_congr' fun hs ↦ ?_
  obtain ⟨i, hi⟩ : ∃ i, keys.idxOf? call.usingKey = some i := by
    cases hi : keys.idxOf? call.usingKey with
    | none => exact absurd hmem (idxOf_none.mp hi)
    | some i => exact ⟨i, rfl⟩
  rw [after_key_enabled hi hs]
  exact iff_of_false (fun h ↦ h rfl) id

end History

section Runs

variable (parse : String → Option (List String)) (id : ℤ)

/-- What holds after a call: both copies agree; the list says which keys the calls so far
left disabled; the channel is auto-disabled exactly where all its keys are disabled, unless it
is disabled manually; and a manually disabled channel was not enabled through a key. -/
structure Kept (initial : ℕ → Option ℤ) (calls : List StatusCall) (before : ChannelStore)
    (call : StatusCall) (after : ChannelStore) : Prop where
  agree : ∃ cached stored, after.cache.channelsIDM id = some cached ∧
    after.db.channels.find id = some stored ∧ view cached = view stored
  listed : ∀ cached, after.cache.channelsIDM id = some cached →
    Listed (cached.getKeys parse) initial calls (view cached).list
  telling : ∀ cached, after.cache.channelsIDM id = some cached →
    cached.status ≠ channelStatusManuallyDisabled →
      (cached.status = channelStatusAutoDisabled ↔
        AllDisabled (cached.getKeys parse).length (view cached).list)
  manual : ∀ cached cached', before.cache.channelsIDM id = some cached →
    after.cache.channelsIDM id = some cached' → cached.status = channelStatusManuallyDisabled →
    call.usingKey ∈ cached.getKeys parse → call.status = channelStatusEnabled →
    cached'.status ≠ channelStatusEnabled

variable {parse id} {keys : List String} {initial : ℕ → Option ℤ} {calls : List StatusCall}
  {s : ChannelStore} {cached stored : Channel}

/-- A call keeps the two copies consistent exactly under the condition. -/
theorem kept_iff (h : At parse id keys s cached stored) (hagree : view cached = view stored)
    (hlisted : Listed keys initial calls (view cached).list) (call : StatusCall) :
    Kept parse id initial (calls ++ [call]) s call (step parse id s call) ↔
      Meets id keys (view cached) call := by
  obtain ⟨cached', stored', hat, hc, hd⟩ := step_at h call
  have hagree' : (∃ c d, (step parse id s call).cache.channelsIDM id = some c ∧
      (step parse id s call).db.channels.find id = some d ∧ view c = view d) ↔
      ((view cached).status ≠ call.status ∧ Stores id call ∨ Unchanging keys (view cached) call) := by
    have hviews : (∃ c d, (step parse id s call).cache.channelsIDM id = some c ∧
        (step parse id s call).db.channels.find id = some d ∧ view c = view d) ↔
        view cached' = view stored' := by
      rw [hat.inCache, hat.inDatabase]
      simp
    have hstatus : stored.status = (view cached).status := by rw [hagree]; rfl
    rw [hviews, hc, hd, ← hagree, hstatus, ← after_eq_self_iff]
    by_cases hskip : (view cached).status = call.status ∨ ¬ Stores id call
    · rw [if_pos hskip]
      refine ⟨.inr, fun hor ↦ hor.resolve_left fun hw ↦ ?_⟩
      exact hskip.elim hw.1 fun hn ↦ hn hw.2
    · rw [if_neg hskip]
      push Not at hskip
      exact iff_of_true rfl (.inl hskip)
  constructor
  · intro hkept
    refine ⟨hagree'.mp hkept.agree, ?_, ?_, ?_⟩
    · have hl := hkept.listed cached' hat.inCache
      rw [hat.keysCached, hc] at hl
      exact (listed_iff hlisted).mp hl
    · have ht := hkept.telling cached' hat.inCache
      change (view cached').status ≠ _ → ((view cached').status = _ ↔ _) at ht
      rw [hat.keysCached, hc] at ht
      exact telling_iff.mp ht
    · refine manual_iff.mp fun hm hmem hs ↦ ?_
      have hne := hkept.manual cached cached' h.inCache hat.inCache hm
        (h.keysCached.symm ▸ hmem) hs
      rw [← hc]
      exact hne
  · intro hmeets
    refine ⟨hagree'.mpr hmeets.written, ?_, ?_, ?_⟩
    · intro c hcache
      obtain rfl := Option.some.inj (hat.inCache.symm.trans hcache)
      rw [hat.keysCached, hc]
      exact (listed_iff hlisted).mpr hmeets.once
    · intro c hcache
      obtain rfl := Option.some.inj (hat.inCache.symm.trans hcache)
      have ht := telling_iff.mpr hmeets.telling
      rw [← hc] at ht
      rw [hat.keysCached]
      exact ht
    · intro c c' hcache hcache' hm hmem hs
      obtain rfl := Option.some.inj (h.inCache.symm.trans hcache)
      obtain rfl := Option.some.inj (hat.inCache.symm.trans hcache')
      have hne := manual_iff.mpr hmeets.manual hm (h.keysCached ▸ hmem) hs
      rw [← hc] at hne
      exact hne

/-- The copies agree, and the list tells what the calls so far did. -/
def Settled (parse : String → Option (List String)) (id : ℤ) (keys : List String)
    (initial : ℕ → Option ℤ) (calls : List StatusCall) (s : ChannelStore) : Prop :=
  ∃ cached stored, At parse id keys s cached stored ∧ view cached = view stored ∧
    Listed keys initial calls (view cached).list

theorem settled_step {call : StatusCall} (h : Settled parse id keys initial calls s)
    (hkept : Kept parse id initial (calls ++ [call]) s call (step parse id s call)) :
    Settled parse id keys initial (calls ++ [call]) (step parse id s call) := by
  obtain ⟨cached, stored, hat, _, _⟩ := h
  obtain ⟨cached', stored', hat', _, _⟩ := step_at hat call
  obtain ⟨c, d, hcache, hdatabase, hagree⟩ := hkept.agree
  obtain rfl := Option.some.inj (hat'.inCache.symm.trans hcache)
  obtain rfl := Option.some.inj (hat'.inDatabase.symm.trans hdatabase)
  have hlisted := hkept.listed cached' hat'.inCache
  rw [hat'.keysCached] at hlisted
  exact ⟨cached', stored', hat', hagree, hlisted⟩

/-- At every point of a run from a state where the copies agree, if each call keeps them
consistent. -/
theorem settled_run (h : Settled parse id keys initial [] s)
    (hkept : ∀ first call rest, calls = first ++ call :: rest →
      Settled parse id keys initial first (Run.run (step parse id) s first) →
      Kept parse id initial (first ++ [call]) (Run.run (step parse id) s first) call
        (step parse id (Run.run (step parse id) s first) call)) {first rest : List StatusCall}
    (hcalls : calls = first ++ rest) :
    Settled parse id keys initial first (Run.run (step parse id) s first) := by
  induction first using List.reverseRecOn generalizing rest with
  | nil => exact h
  | append_singleton first call ih =>
    have hsplit : calls = first ++ call :: rest := by
      rw [hcalls, List.append_assoc, List.singleton_append]
    have hbefore := ih hsplit
    rw [Run.run_append]
    exact settled_step hbefore (hkept first call rest hsplit hbefore)

/-- After every call of a run the two copies of the channel are consistent. -/
def ConsistentThroughout (parse : String → Option (List String)) (id : ℤ)
    (initial : ℕ → Option ℤ) (s : ChannelStore) (calls : List StatusCall) : Prop :=
  ∀ first call rest, calls = first ++ call :: rest →
    Kept parse id initial (first ++ [call]) (Run.run (step parse id) s first) call
      (Run.run (step parse id) s (first ++ [call]))

/-- Every call of a run meets the condition in the state it finds. -/
def MeetsThroughout (parse : String → Option (List String)) (id : ℤ) (s : ChannelStore)
    (calls : List StatusCall) : Prop :=
  ∀ first call rest, calls = first ++ call :: rest → ∀ cached,
    (Run.run (step parse id) s first).cache.channelsIDM id = some cached →
      Meets id (cached.getKeys parse) (view cached) call

/-- The copies stay consistent through a run exactly where every call meets the condition. -/
theorem multi_key_iff (h : At parse id keys s cached stored) (hagree : view cached = view stored)
    (calls : List StatusCall) :
    ConsistentThroughout parse id (view cached).list s calls ↔ MeetsThroughout parse id s calls := by
  have hstart : Settled parse id keys (view cached).list [] s :=
    ⟨cached, stored, h, hagree, fun i key _ ↦ Iff.rfl⟩
  constructor
  · intro hall first call rest hcalls c hcache
    have hkept : ∀ first call rest, calls = first ++ call :: rest →
        Kept parse id (view cached).list (first ++ [call]) (Run.run (step parse id) s first) call
          (step parse id (Run.run (step parse id) s first) call) := by
      intro first call rest hcalls
      have hk := hall first call rest hcalls
      rwa [Run.run_append] at hk
    obtain ⟨c', d', hat, hagree', hlisted⟩ :=
      settled_run hstart (fun first call rest hcalls _ ↦ hkept first call rest hcalls) hcalls
    obtain rfl := Option.some.inj (hat.inCache.symm.trans hcache)
    rw [hat.keysCached]
    exact (kept_iff hat hagree' hlisted call).mp (hkept first call rest hcalls)
  · intro hmeets first call rest hcalls
    have hkept : ∀ first call rest, calls = first ++ call :: rest →
        Settled parse id keys (view cached).list first (Run.run (step parse id) s first) →
        Kept parse id (view cached).list (first ++ [call]) (Run.run (step parse id) s first) call
          (step parse id (Run.run (step parse id) s first) call) := by
      rintro first call rest hcalls ⟨c, d, hat, hagree', hlisted⟩
      have hm := hmeets first call rest hcalls c hat.inCache
      rw [hat.keysCached] at hm
      exact (kept_iff hat hagree' hlisted call).mpr hm
    rw [Run.run_append]
    exact hkept first call rest hcalls (settled_run hstart hkept hcalls)

def twoKeys : Channel := { id := 1, key := "a\nb", channelInfo := { isMultiKey := true } }

def synced : ChannelStore where
  cache :=
    { group2model2channels := fun _ _ ↦ []
      channelsIDM := fun id ↦ if id = 1 then some { twoKeys with keys := ["a", "b"] } else none }
  db := { channels := .single twoKeys, abilities := .empty }

def noJson : String → Option (List String) := fun _ ↦ none

theorem synced_at : At noJson 1 ["a", "b"] synced { twoKeys with keys := ["a", "b"] } twoKeys :=
  ⟨rfl, rfl, rfl, rfl, by decide, by decide⟩

def disableA : StatusCall := ⟨"a", channelStatusAutoDisabled, "quota", 0, true⟩

def enableA : StatusCall := ⟨"a", channelStatusEnabled, "", 1, true⟩

theorem disable_consistent :
    ConsistentThroughout noJson 1 (view twoKeys).list synced [disableA] := by
  refine (multi_key_iff synced_at rfl [disableA]).mpr ?_
  intro first call rest hcalls cached hcache
  obtain ⟨rfl, rfl⟩ : first = [] ∧ call = disableA := by
    cases first with
    | nil => exact ⟨rfl, (List.cons.inj hcalls).1.symm⟩
    | cons _ first => simp at hcalls
  obtain rfl := Option.some.inj (synced_at.inCache.symm.trans hcache)
  have hidx : ["a", "b"].idxOf? disableA.usingKey = some 0 := by decide
  rw [synced_at.keysCached]
  refine ⟨.inl ⟨by decide, rfl, by decide⟩, ?_, ?_, fun h ↦ absurd h (by decide)⟩
  · intro i hi j hj
    obtain rfl := Option.some.inj (hidx.symm.trans hi)
    match j, hj with
    | 0, _ => exact .inl rfl
    | 1, h => exact absurd h (by decide)
    | _ + 2, h => cases h
  · rw [Telling, hidx]
    exact fun _ h ↦ absurd h (by decide)

/-- A key that is enabled while its channel is enabled stays disabled in the database. -/
theorem enable_diverges :
    ¬ ∀ (parse : String → Option (List String)) (id : ℤ) (keys : List String) (s : ChannelStore)
      (cached stored : Channel) (calls : List StatusCall), At parse id keys s cached stored →
        view cached = view stored → ConsistentThroughout parse id (view cached).list s calls := by
  intro hclaim
  obtain ⟨cached, stored, hc, hd, hagree⟩ :=
    (hclaim noJson 1 ["a", "b"] synced _ _ [disableA, enableA] synced_at rfl [disableA] enableA []
      rfl).agree
  have hcache : ((Run.run (step noJson 1) synced [disableA, enableA]).cache.channelsIDM 1).map
      (fun c ↦ (view c).list 0) = some none := by decide
  have hdatabase : ((Run.run (step noJson 1) synced [disableA, enableA]).db.channels.find 1).map
      (fun c ↦ (view c).list 0) = some (some channelStatusAutoDisabled) := by decide
  rw [List.singleton_append] at hc hd
  rw [hc, Option.map_some, Option.some.injEq] at hcache
  rw [hd, Option.map_some, ← hagree, hcache] at hdatabase
  cases hdatabase

end Runs

end AllAiTools.NewApi.Model.MultiKeyStatus
