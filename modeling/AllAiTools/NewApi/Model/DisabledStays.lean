import AllAiTools.NewApi.Model.MultiKeyStatus
import AllAiTools.NewApi.Model.PollingKeys

namespace AllAiTools.NewApi.Model.DisabledStays

open Foundation Run Common.Str Channels ChannelStatus MultiKeyStatus PollingKeys

variable (parse : String → Option (List String))

section Statement

def Copy.list (copy : Copy) : ℕ → Option ℤ := copy.channel.channelInfo.multiKeyStatusList

/-- The key that a copy's status update changes, and whether it disables it. -/
def Copy.change (copy : Copy) : Option (ℕ × Bool) :=
  match copy.job with
  | .poll _ => none
  | .status call =>
    ((copy.channel.getKeys parse).idxOf? call.usingKey).map
      fun k ↦ (k, decide (call.status ≠ channelStatusEnabled))

/-- The channel with the keys that the last committed call to name them disabled, and for every copy
those that were disabled so after it had been read. -/
structure Watched where
  shared : Shared
  disabled : Finset ℕ
  missed : ℕ → Finset ℕ

/-- What becomes of a set of disabled keys when a call commits. -/
def committed (change : Option (ℕ × Bool)) (keys : Finset ℕ) : Finset ℕ :=
  match change with
  | some (k, true) => insert k keys
  | some (k, false) => keys.erase k
  | none => keys

def step (s : Watched) (event : Event) : Watched :=
  let change := (s.shared.written event).bind fun w ↦ Copy.change parse w.2.1
  let missed := fun i ↦ committed change (s.missed i)
  { shared := s.shared.step parse event
    disabled := committed change s.disabled
    missed := match s.shared.taken parse event with
      | some (i, _) => Function.update missed i ∅
      | none => missed }

/-- A multi-key channel with some keys disabled, before any copy is read. -/
def start (stored : Channel) : Watched where
  shared := ⟨stored, fun _ ↦ none⟩
  disabled := (Finset.range (stored.getKeys parse).length).filter
    fun k ↦ DisabledAt stored.channelInfo.multiKeyStatusList k
  missed _ := ∅

/-- The row lists as disabled every key that the last call to name it disabled. -/
def Kept (s : Watched) : Prop :=
  ∀ k ∈ s.disabled, DisabledAt s.shared.stored.channelInfo.multiKeyStatusList k

/-- No copy is written that has missed the disabling of a key it lists as enabled, the key that its
own call enables apart. -/
def Fresh (s : Watched) (event : Event) : Prop :=
  ∀ w ∈ s.shared.written event, ∀ k ∈ s.missed w.1,
    Copy.change parse w.2.1 ≠ some (k, false) → DisabledAt (Copy.list w.2.1) k

instance (s : Watched) : Decidable (Kept s) := inferInstanceAs (Decidable (∀ k ∈ s.disabled, _))

instance (s : Watched) (event : Event) : Decidable (Fresh parse s event) :=
  inferInstanceAs (Decidable (∀ w ∈ s.shared.written event, ∀ k ∈ s.missed w.1, _ → _))

end Statement

section Steps

theorem pollKey_info (keys : List String) (channel : Channel) (stored : ChannelInfo) :
    let info := (pollKey keys channel stored).channel.channelInfo
    info.multiKeyStatusList = channel.channelInfo.multiKeyStatusList ∧
      info.isMultiKey = channel.channelInfo.isMultiKey := by
  rw [pollKey]
  cases nextEnabled keys channel.channelInfo.multiKeyStatusList _ <;> exact ⟨rfl, rfl⟩

theorem getNextEnabledKey_info (channel : Channel) (stored : Option ChannelInfo) (intn : ℕ → ℕ) :
    let info := (getNextEnabledKey parse channel stored intn).channel.channelInfo
    info.multiKeyStatusList = channel.channelInfo.multiKeyStatusList ∧
      info.isMultiKey = channel.channelInfo.isMultiKey := by
  simp only [getNextEnabledKey]
  split_ifs
  · exact ⟨rfl, rfl⟩
  · exact ⟨rfl, rfl⟩
  · exact ⟨rfl, rfl⟩
  · cases stored with
    | none => exact ⟨rfl, rfl⟩
    | some info => exact pollKey_info _ channel info
  · exact ⟨rfl, rfl⟩
  · exact ⟨rfl, rfl⟩

/-- What holds of the copies as long as no write is stale. -/
structure Watching (s : Watched) : Prop where
  stored : s.shared.stored.channelInfo.isMultiKey = true
  multi : ∀ i copy, s.shared.copies i = some copy → copy.channel.channelInfo.isMultiKey = true
  missed : ∀ i copy, s.shared.copies i = some copy → s.missed i ⊆ s.disabled
  listed : ∀ i copy, s.shared.copies i = some copy → ∀ k ∈ s.disabled,
    k ∈ s.missed i ∨ DisabledAt (Copy.list copy) k ∨ Copy.change parse copy = some (k, false)
  own : ∀ i copy, s.shared.copies i = some copy → ∀ k, Copy.change parse copy = some (k, true) →
    DisabledAt (Copy.list copy) k

variable {parse} {s : Shared} {event : Event}

theorem written_copy {i : ℕ} {copy : Copy} {row : Channel}
    (h : s.written event = some (i, copy, row)) :
    s.copies i = some copy ∧ row.channelInfo = copy.channel.channelInfo := by
  cases event with
  | saveChannelInfo j written =>
    cases written with
    | false => cases h
    | true =>
      simp only [Shared.written] at h
      split at h
      · rename_i channel hcopy
        simp only [Option.some.injEq, Prod.mk.injEq] at h
        obtain ⟨rfl, rfl, rfl⟩ := h
        exact ⟨hcopy, rfl⟩
      · cases h
  | saveWithoutKey j written =>
    cases written with
    | false => cases h
    | true =>
      simp only [Shared.written] at h
      split at h
      · rename_i channel call hcopy
        split_ifs at h
        simp only [Option.some.injEq, Prod.mk.injEq] at h
        obtain ⟨rfl, rfl, rfl⟩ := h
        exact ⟨hcopy, rfl⟩
      · cases h
  | load j => cases h
  | poll j reachable intn => cases h
  | readStatus j call => cases h

theorem taken_written {x : ℕ × Copy} (h : s.taken parse event = some x) :
    s.written event = none := by
  cases event with
  | load j => rfl
  | readStatus j call => rfl
  | poll j reachable intn => cases h
  | saveChannelInfo j written => cases h
  | saveWithoutKey j written => cases h

/-- What a status update leaves a copy of the row with. -/
theorem changeStatus_list (call : StatusCall) (hm : s.stored.channelInfo.isMultiKey = true)
    (k : ℕ) :
    let copy : Copy := ⟨changeStatus parse s.stored call, .status call⟩
    (DisabledAt s.stored.channelInfo.multiKeyStatusList k →
      DisabledAt (Copy.list copy) k ∨ Copy.change parse copy = some (k, false)) ∧
    (Copy.change parse copy = some (k, true) → DisabledAt (Copy.list copy) k) := by
  have hkeys := (@handler_fields parse call.now s.stored call.usingKey call.status
    call.reason).2.1
  have hlist := congrArg View.list (@view_handler parse call s.stored)
  simp only [changeStatus, if_pos hm, Copy.change, hkeys, Copy.list]
  change (_ → DisabledAt (view _).list k ∨ _) ∧ (_ → DisabledAt (view _).list k)
  rw [hlist]
  cases hidx : (s.stored.getKeys parse).idxOf? call.usingKey with
  | none =>
    rw [after_list_unknown hidx]
    exact ⟨.inl, fun h ↦ by simp at h⟩
  | some i =>
    rw [after_list_key hidx k]
    simp only [Option.map_some, Option.some.injEq, Prod.mk.injEq, decide_eq_true_eq,
      decide_eq_false_iff_not, not_not]
    by_cases hk : k = i
    · rw [if_pos hk]
      refine ⟨fun _ ↦ ?_, fun h ↦ h.2⟩
      by_cases hs : call.status = channelStatusEnabled
      · exact .inr ⟨hk.symm, hs⟩
      · exact .inl hs
    · rw [if_neg hk]
      exact ⟨.inl, fun h ↦ absurd h.1.symm hk⟩

theorem taken_copy {i : ℕ} {copy : Copy} (hm : s.stored.channelInfo.isMultiKey = true)
    (h : s.taken parse event = some (i, copy)) :
    s.copies i = none ∧ copy.channel.channelInfo.isMultiKey = true ∧
    ∀ k, (DisabledAt s.stored.channelInfo.multiKeyStatusList k →
        DisabledAt (Copy.list copy) k ∨ Copy.change parse copy = some (k, false)) ∧
      (Copy.change parse copy = some (k, true) → DisabledAt (Copy.list copy) k) := by
  cases event with
  | load j =>
    simp only [Shared.taken] at h
    split_ifs at h with hfree
    simp only [Option.some.injEq, Prod.mk.injEq] at h
    obtain ⟨rfl, rfl⟩ := h
    exact ⟨Option.isNone_iff_eq_none.mp hfree, hm, fun k ↦ ⟨.inl, fun hchange ↦ by cases hchange⟩⟩
  | readStatus j call =>
    simp only [Shared.taken] at h
    split_ifs at h with hfree
    simp only [Option.some.injEq, Prod.mk.injEq] at h
    obtain ⟨rfl, rfl⟩ := h
    have hmulti := (@handler_fields parse call.now s.stored call.usingKey call.status
      call.reason).2.2
    refine ⟨Option.isNone_iff_eq_none.mp hfree.1, ?_, changeStatus_list call hm⟩
    rw [changeStatus, if_pos hm, hmulti, hm]
  | poll j reachable intn => cases h
  | saveChannelInfo j written => cases h
  | saveWithoutKey j written => cases h

structure Alike (parse : String → Option (List String)) (before copy : Copy) : Prop where
  list : Copy.list copy = Copy.list before
  multi : copy.channel.channelInfo.isMultiKey = before.channel.channelInfo.isMultiKey
  change : Copy.change parse copy = Copy.change parse before

/-- A copy that an event leaves has just been read, or lists the keys of the one before it. -/
theorem changed_copy {i : ℕ} {copy : Copy} (h : s.changed parse event = some (i, some copy)) :
    s.taken parse event = some (i, copy) ∨
      ∃ before, s.copies i = some before ∧ Alike parse before copy := by
  have htaken {event : Event}
      (h : (s.taken parse event).map (fun x ↦ (x.1, some x.2)) = some (i, some copy)) :
      s.taken parse event = some (i, copy) := by
    obtain ⟨x, hx, heq⟩ := Option.map_eq_some_iff.mp h
    cases heq
    exact hx
  cases event with
  | load j => exact .inl (htaken h)
  | readStatus j call => exact .inl (htaken h)
  | poll j reachable intn =>
    simp only [Shared.changed] at h
    split at h
    · rename_i channel hj
      simp only [Option.some.injEq, Prod.mk.injEq] at h
      obtain ⟨rfl, rfl⟩ := h
      obtain ⟨hlist, hmulti⟩ := getNextEnabledKey_info parse channel
        (if reachable then some s.stored.channelInfo else none) intn
      exact .inr ⟨_, hj, hlist, hmulti, rfl⟩
    · cases h
  | saveChannelInfo j written =>
    simp only [Shared.changed] at h
    split at h
    · rename_i channel hj
      simp only [Option.some.injEq, Prod.mk.injEq] at h
      obtain ⟨rfl, rfl⟩ := h
      exact .inr ⟨_, hj, rfl, rfl, rfl⟩
    · cases h
  | saveWithoutKey j written =>
    simp only [Shared.changed] at h
    split at h <;> simp at h

theorem step_copy {j : ℕ} {copy : Copy} (h : (s.step parse event).copies j = some copy) :
    s.taken parse event = some (j, copy) ∨
      ∃ before, s.copies j = some before ∧ Alike parse before copy := by
  have hsame (hj : s.copies j = some copy) : ∃ before, s.copies j = some before ∧
      Alike parse before copy := ⟨copy, hj, rfl, rfl, rfl⟩
  simp only [Shared.step] at h
  cases hchanged : s.changed parse event with
  | none =>
    rw [hchanged] at h
    exact .inr (hsame h)
  | some x =>
    simp only [hchanged, Function.update_apply] at h
    split_ifs at h with hj
    · refine changed_copy ?_
      rw [hchanged, hj, ← h]
    · exact .inr (hsame h)

end Steps

section Runs

variable {parse} {s : Watched} {event : Event}

theorem committed_mono {change : Option (ℕ × Bool)} {keys keys' : Finset ℕ} (h : keys ⊆ keys') :
    committed change keys ⊆ committed change keys' := by
  match change with
  | none => exact h
  | some (k, true) => exact Finset.insert_subset_insert k h
  | some (k, false) => exact Finset.erase_subset_erase k h

/-- A key that counts as disabled after a commit did so before, or was disabled by it; the key that
the commit enables does not. -/
theorem mem_committed {change : Option (ℕ × Bool)} {keys : Finset ℕ} {k : ℕ} :
    k ∈ committed change keys ↔
      change = some (k, true) ∨ (k ∈ keys ∧ change ≠ some (k, false)) := by
  match change with
  | none => simp [committed]
  | some (i, true) => simp [committed, eq_comm]
  | some (i, false) => simp [committed, and_comm, eq_comm]

theorem stored_step : (s.shared.written event = none ∧
      (step parse s event).shared.stored = s.shared.stored ∧
      (step parse s event).disabled = s.disabled) ∨
    ∃ i copy row, s.shared.written event = some (i, copy, row) ∧
      (step parse s event).shared.stored = row ∧
      (step parse s event).disabled = committed (Copy.change parse copy) s.disabled := by
  cases hw : s.shared.written event with
  | none => exact .inl ⟨rfl, by simp [step, Shared.step, hw], by simp [step, hw, committed]⟩
  | some w =>
    obtain ⟨i, copy, row⟩ := w
    exact .inr ⟨i, copy, row, rfl, by simp [step, Shared.step, hw], by simp [step, hw]⟩

/-- What a copy that was there before still misses. -/
theorem missed_step {i : ℕ} {copy : Copy} (h : s.shared.copies i = some copy)
    (hmulti : s.shared.stored.channelInfo.isMultiKey = true) :
    ∃ change, (step parse s event).disabled = committed change s.disabled ∧
      (step parse s event).missed i = committed change (s.missed i) := by
  refine ⟨(s.shared.written event).bind fun w ↦ Copy.change parse w.2.1, rfl, ?_⟩
  simp only [step]
  cases ht : s.shared.taken parse event with
  | none => rfl
  | some x =>
    have hfree := (taken_copy hmulti ht).1
    have hne : i ≠ x.1 := by
      rintro rfl
      rw [h] at hfree
      cases hfree
    simp [Function.update_of_ne hne]

theorem watching_step (h : Watching parse s) (hkept : Kept s) (event : Event) :
    Watching parse (step parse s event) := by
  have hold {i : ℕ} {copy before : Copy} (hb : s.shared.copies i = some before)
      (halike : Alike parse before copy) :
      (step parse s event).missed i ⊆ (step parse s event).disabled ∧
      ∀ k ∈ (step parse s event).disabled, k ∈ (step parse s event).missed i ∨
        DisabledAt (Copy.list copy) k ∨ Copy.change parse copy = some (k, false) := by
    obtain ⟨change, hdisabled, hmissed⟩ := @missed_step parse s event _ _ hb h.stored
    rw [hdisabled, hmissed, halike.list, halike.change]
    refine ⟨committed_mono (h.missed i before hb), fun k hk ↦ ?_⟩
    rcases mem_committed.mp hk with hk | ⟨hk, hne⟩
    · exact .inl (mem_committed.mpr (.inl hk))
    · rcases h.listed i before hb k hk with hm | hrest
      · exact .inl (mem_committed.mpr (.inr ⟨hm, hne⟩))
      · exact .inr hrest
  have hnew {i : ℕ} {copy : Copy} (ht : s.shared.taken parse event = some (i, copy)) :
      (step parse s event).missed i = ∅ ∧ (step parse s event).disabled = s.disabled := by
    have hw := taken_written ht
    simp [step, ht, hw, committed]
  constructor
  · rcases @stored_step parse s event with
      ⟨_, hs, _⟩ | ⟨i, copy, row, hw, hs, _⟩
    · rw [hs, h.stored]
    · obtain ⟨hcopy, hrow⟩ := written_copy hw
      rw [hs, hrow, h.multi i copy hcopy]
  · intro i copy hcopy
    rcases step_copy hcopy with ht | ⟨before, hb, halike⟩
    · exact (taken_copy h.stored ht).2.1
    · rw [halike.multi, h.multi i before hb]
  · intro i copy hcopy
    rcases step_copy hcopy with ht | ⟨before, hb, halike⟩
    · rw [(hnew ht).1]
      exact Finset.empty_subset _
    · exact (hold hb halike).1
  · intro i copy hcopy k hk
    rcases step_copy hcopy with ht | ⟨before, hb, halike⟩
    · rw [(hnew ht).2] at hk
      exact .inr (((taken_copy h.stored ht).2.2 k).1 (hkept k hk))
    · exact (hold hb halike).2 k hk
  · intro i copy hcopy k hchange
    rcases step_copy hcopy with ht | ⟨before, hb, halike⟩
    · exact ((taken_copy h.stored ht).2.2 k).2 hchange
    · rw [halike.list]
      exact h.own i before hb k (halike.change ▸ hchange)

theorem kept_step_iff (h : Watching parse s) (hkept : Kept s) (event : Event) :
    Kept (step parse s event) ↔ Fresh parse s event := by
  rcases @stored_step parse s event with
    ⟨hw, hs, hd⟩ | ⟨i, copy, row, hw, hs, hd⟩
  · rw [Kept, hs, hd]
    refine ⟨fun _ w hsome ↦ ?_, fun _ ↦ hkept⟩
    rw [hw] at hsome
    cases hsome
  · obtain ⟨hcopy, hrow⟩ := written_copy hw
    rw [Kept, hs, hd, hrow]
    constructor
    · intro hall w hsome k hk hne
      rw [hw] at hsome
      cases hsome
      exact hall k (mem_committed.mpr (.inr ⟨h.missed i copy hcopy hk, hne⟩))
    · intro hfresh k hk
      rcases mem_committed.mp hk with hchange | ⟨hdisabled, hne⟩
      · exact h.own i copy hcopy k hchange
      · rcases h.listed i copy hcopy k hdisabled with hmissed | hlisted | hchange
        · exact hfresh _ hw k hmissed hne
        · exact hlisted
        · exact absurd hchange hne

theorem start_watching {stored : Channel} (h : stored.channelInfo.isMultiKey = true) :
    Watching parse (start parse stored) where
  stored := h
  multi i copy hcopy := by cases hcopy
  missed i copy hcopy := by cases hcopy
  listed i copy hcopy := by cases hcopy
  own i copy hcopy := by cases hcopy

theorem start_kept (stored : Channel) : Kept (start parse stored) := fun _ hk ↦
  (Finset.mem_filter.mp hk).2

/-- Every run keeps disabled what its calls disabled at each of its points exactly when no copy is
written that has missed such a call. -/
theorem kept_throughout_iff {stored : Channel} (h : stored.channelInfo.isMultiKey = true)
    (trace : List Event) :
    (∀ first rest, trace = first ++ rest → Kept (run (step parse) (start parse stored) first)) ↔
      Along (step parse) (Fresh parse) (start parse stored) trace := by
  have hstart := @start_watching parse _ h
  constructor
  · intro hall
    rw [along_iff]
    rintro first event rest rfl
    have hbefore : Along (step parse) (fun s _ ↦ Kept s) (start parse stored) first := by
      rw [along_iff]
      rintro earlier i later rfl
      exact hall earlier (i :: later ++ event :: rest) (List.append_assoc _ _ _)
    have hwatching := hbefore.invariant (Watching parse)
      (fun _ i hw hk ↦ watching_step hw hk i) hstart
    have hafter := hall (first ++ [event]) rest (by simp)
    rw [run_append] at hafter
    exact (kept_step_iff hwatching (hall first (event :: rest) rfl) event).mp hafter
  · rintro hfresh first rest rfl
    have hfirst := ((along_append _ first rest).mp hfresh).1
    refine (hfirst.invariant (fun s ↦ Watching parse s ∧ Kept s) ?_ ⟨hstart, start_kept stored⟩).2
    rintro s event ⟨hw, hk⟩ hok
    exact ⟨watching_step hw hk event, (kept_step_iff hw hk event).mpr hok⟩

/-- A channel of two keys that takes them in turn. -/
def pollingKeys : Channel where
  id := 1
  key := "a\nb"
  channelInfo := { isMultiKey := true, multiKeyMode := multiKeyModePolling }

/-- A request that reads the channel after key a was disabled keeps it so. -/
theorem pollingKeys_kept : Kept (run (step noJson) (start noJson pollingKeys)
    [.readStatus 0 disableA, .saveWithoutKey 0 true, .load 1, .poll 1 true fun _ ↦ 0,
      .saveChannelInfo 1 true]) := by
  refine (kept_throughout_iff rfl _).mpr ?_ _ [] (List.append_nil _).symm
  simp only [along_cons, along_nil]
  decide +kernel

/-- A request that has read the channel before key a was disabled enables it again. -/
theorem pollingKeys_not_kept : ¬∀ (parse : String → Option (List String)) (stored : Channel)
    (trace : List Event), stored.channelInfo.isMultiKey = true →
      Kept (run (step parse) (start parse stored) trace) := by
  intro h
  have hkept := h noJson pollingKeys [.load 0, .readStatus 1 disableA, .saveWithoutKey 1 true,
    .poll 0 true fun _ ↦ 0, .saveChannelInfo 0 true] rfl
  revert hkept
  decide +kernel

end Runs

end AllAiTools.NewApi.Model.DisabledStays
