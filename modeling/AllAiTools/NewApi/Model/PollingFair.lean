import AllAiTools.NewApi.Model.PollingKeys

namespace AllAiTools.NewApi.Model.PollingFair

open Channels PollingKeys

section Calls

/-- Where the channels and their polling index are kept. -/
inductive Storage
  | memory
  | database

/-- A call of `GetNextEnabledKey`: on a copy of the channel, or on the channel as it is kept, with
whether its information can be read and a save goes through. -/
structure Call where
  copy : Option Channel := none
  reachable : Bool := true
  written : Bool := true
  intn : ℕ → ℕ := fun _ ↦ 0

/-- The call moves the index that the next call starts from. -/
def Call.kept (call : Call) : Storage → Bool
  | .memory => call.copy.isNone
  | .database => call.written

variable (parse : String → Option (List String)) (storage : Storage)

/-- The answer to a call, and the channel that is kept afterwards. -/
def answer (kept : Channel) (call : Call) : Except String (String × ℕ) × Channel :=
  let polled := getNextEnabledKey parse (call.copy.getD kept)
    (if call.reachable then some kept.channelInfo else none) call.intn
  (polled.result, if polled.saves ∧ call.kept storage then
      { kept with channelInfo := polled.channel.channelInfo } else kept)

def answers (kept : Channel) : List Call → List (Except String (String × ℕ))
  | [] => []
  | call :: calls =>
    (answer parse storage kept call).1 :: answers (answer parse storage kept call).2 calls

/-- A channel that polls over the keys, of which some may be disabled. -/
structure Polls (keys : List String) (statusList : ℕ → Option ℤ) (channel : Channel) : Prop where
  keys : channel.getKeys parse = keys
  isMultiKey : channel.channelInfo.isMultiKey
  mode : channel.channelInfo.multiKeyMode = multiKeyModePolling
  statusList : channel.channelInfo.multiKeyStatusList = statusList

/-- Each enabled key is handed out once, and nothing else. -/
def Fair (keys : List String) (statusList : ℕ → Option ℤ)
    (results : List (Except String (String × ℕ))) : Prop :=
  ∃ idxs : List ℕ, idxs.Perm (enabledIdx keys statusList) ∧ results = idxs.map (handOut keys)

end Calls

section Cycle

variable {keys : List String} {statusList : ℕ → Option ℤ}

def isEnabled (statusList : ℕ → Option ℤ) (idx : ℕ) : Bool :=
  getStatus statusList idx = channelStatusEnabled

/-- The enabled keys, in their order around the list from a place on. -/
def cycle (keys : List String) (statusList : ℕ → Option ℤ) (start : ℕ) : List ℕ :=
  ((List.range keys.length).rotate start).filter (isEnabled statusList)

theorem cycle_perm (start : ℕ) : (cycle keys statusList start).Perm (enabledIdx keys statusList) :=
  (List.rotate_perm _ _).filter _

theorem rotate_range (n start : ℕ) :
    (List.range n).rotate start = (List.range n).map fun i ↦ (start + i) % n := by
  refine List.ext_getElem (by simp) fun i hi _ ↦ ?_
  rw [List.getElem_rotate, List.getElem_map, List.getElem_range, List.getElem_range,
    List.length_range, Nat.add_comm]

theorem rotate_range_mod (n k : ℕ) : (List.range n).rotate (k % n) = (List.range n).rotate k := by
  have hmod := List.rotate_mod (List.range n) k
  rw [List.length_range] at hmod
  exact hmod

theorem nextEnabled_eq (start : ℕ) :
    nextEnabled keys statusList start = (cycle keys statusList start).head? := by
  rw [nextEnabled, cycle, rotate_range, List.head?_filter]
  rfl

/-- After a key has been handed out, the others come before it. -/
theorem cycle_next {start idx : ℕ} {rest : List ℕ}
    (h : cycle keys statusList start = idx :: rest) :
    cycle keys statusList ((idx + 1) % keys.length) = rest ++ [idx] := by
  obtain ⟨before, after, hrange, hbefore, hidx, hafter⟩ := List.filter_eq_cons_iff.mp h
  have hplace : idx = (start + before.length) % keys.length := by
    have hitem : ((List.range keys.length).rotate start)[before.length]? = some idx := by
      rw [hrange, List.getElem?_append_right le_rfl, Nat.sub_self]
      rfl
    rw [rotate_range, List.getElem?_map] at hitem
    obtain ⟨i, hi, rfl⟩ := Option.map_eq_some_iff.mp hitem
    obtain ⟨_, rfl⟩ := List.getElem?_eq_some_iff.mp hi
    rw [List.getElem_range]
  have hnext : (List.range keys.length).rotate ((idx + 1) % keys.length) =
      after ++ (before ++ [idx]) := by
    calc (List.range keys.length).rotate ((idx + 1) % keys.length)
        = (List.range keys.length).rotate ((start + (before.length + 1)) % keys.length) := by
          rw [hplace, Nat.mod_add_mod, Nat.add_assoc]
      _ = (List.range keys.length).rotate (start + (before.length + 1)) := rotate_range_mod _ _
      _ = ((before ++ [idx]) ++ after).rotate (before ++ [idx]).length := by
          rw [← List.rotate_rotate, hrange, List.length_append, List.length_singleton,
            List.append_cons]
      _ = after ++ (before ++ [idx]) := List.rotate_append_length_eq _ _
  have hnone : before.filter (isEnabled statusList) = [] :=
    List.filter_eq_nil_iff.mpr hbefore
  rw [cycle, hnext, List.filter_append, List.filter_append, hafter, hnone, List.nil_append,
    List.filter_singleton, hidx]
  rfl

end Cycle

section Rounds

variable {keys : List String} {statusList : ℕ → Option ℤ}

/-- The keys that calls hand out, each of which moves the index or does not. -/
def handed (keys : List String) (statusList : ℕ → Option ℤ) (start : ℕ) : List Bool → List ℕ
  | [] => []
  | moves :: calls =>
    let idx := (cycle keys statusList start).headD 0
    idx :: handed keys statusList (if moves then (idx + 1) % keys.length else start) calls

/-- As long as each call moves the index, the calls go once around. -/
theorem handed_eq_take {start : ℕ} {calls : List Bool} (hmoves : ∀ moves ∈ calls.dropLast, moves)
    (hlength : calls.length ≤ (cycle keys statusList start).length) :
    handed keys statusList start calls = (cycle keys statusList start).take calls.length := by
  induction calls generalizing start with
  | nil => rfl
  | cons moves calls ih =>
    cases hcycle : cycle keys statusList start with
    | nil =>
      rw [hcycle] at hlength
      cases hlength
    | cons idx rest =>
      rw [handed, hcycle, List.headD_cons]
      cases calls with
      | nil => rfl
      | cons moves' calls =>
        obtain ⟨hmove, hmoves'⟩ := List.forall_mem_cons.mp hmoves
        have hnext := cycle_next hcycle
        rw [hcycle, List.length_cons, List.length_cons] at hlength
        have hle : (moves' :: calls).length ≤ rest.length := Nat.le_of_succ_le_succ hlength
        rw [if_pos hmove, ih hmoves' (by rw [hnext, List.length_append]; omega), hnext,
          List.take_append_of_le_length hle]
        rfl

/-- A call that does not move the index has its key handed out again. -/
theorem handed_nodup {start : ℕ} {calls : List Bool}
    (h : (handed keys statusList start calls).Nodup) : ∀ moves ∈ calls.dropLast, moves := by
  induction calls generalizing start with
  | nil => exact fun moves hmem ↦ by cases hmem
  | cons moves calls ih =>
    cases calls with
    | nil => exact fun moves hmem ↦ by cases hmem
    | cons moves' calls =>
      obtain ⟨hnot, hrest⟩ := List.nodup_cons.mp h
      refine List.forall_mem_cons.mpr ⟨?_, ih hrest⟩
      by_contra hkept
      refine hnot ?_
      rw [if_neg hkept, handed]
      exact List.mem_cons_self

theorem handed_fair_iff {start : ℕ} {calls : List Bool}
    (hlength : calls.length = (enabledIdx keys statusList).length) :
    (handed keys statusList start calls).Perm (enabledIdx keys statusList) ↔
      ∀ moves ∈ calls.dropLast, moves := by
  have hcycle : (cycle keys statusList start).Perm (enabledIdx keys statusList) := cycle_perm start
  constructor
  · intro hperm
    refine handed_nodup (hperm.nodup_iff.mpr ?_)
    exact List.nodup_range.filter _
  · intro hmoves
    have hle : calls.length = (cycle keys statusList start).length := by
      rw [hlength, hcycle.length_eq]
    rw [handed_eq_take hmoves hle.le, hle, List.take_length]
    exact hcycle

end Rounds

section Fairness

variable {parse : String → Option (List String)} {keys : List String} {statusList : ℕ → Option ℤ}
  {storage : Storage}

/-- The place a call starts from. -/
def startOf (keys : List String) (channelInfo : ChannelInfo) : ℕ :=
  (if channelInfo.multiKeyPollingIndex < 0 ∨ channelInfo.multiKeyPollingIndex ≥ keys.length then 0
  else channelInfo.multiKeyPollingIndex).toNat

theorem cycle_ne_nil (h : enabledIdx keys statusList ≠ []) (start : ℕ) :
    cycle keys statusList start ≠ [] := by
  intro hnil
  have hperm : (cycle keys statusList start).Perm (enabledIdx keys statusList) := cycle_perm start
  rw [hnil] at hperm
  exact h hperm.symm.eq_nil

/-- What a call answers, and what it leaves for the next one. -/
theorem getNextEnabledKey_polls {channel : Channel} (h : Polls parse keys statusList channel)
    (henabled : enabledIdx keys statusList ≠ []) (channelInfo : ChannelInfo) (intn : ℕ → ℕ) :
    getNextEnabledKey parse channel (some channelInfo) intn =
      ⟨handOut keys ((cycle keys statusList (startOf keys channelInfo)).headD 0),
        { channel with channelInfo := { channel.channelInfo with multiKeyPollingIndex :=
          (((cycle keys statusList (startOf keys channelInfo)).headD 0 + 1) % keys.length : ℕ) } },
        true⟩ := by
  have hkeys : keys ≠ [] := by
    rintro rfl
    exact henabled rfl
  have hmode : multiKeyModePolling ≠ multiKeyModeRandom := by decide
  unfold getNextEnabledKey
  simp only [h.keys, h.statusList, h.mode, h.isMultiKey, not_true_eq_false, if_false, if_neg hkeys,
    if_neg henabled, if_neg hmode, if_true]
  unfold pollKey
  simp only [h.statusList, nextEnabled_eq]
  obtain ⟨idx, rest, hcycle⟩ := List.exists_cons_of_ne_nil
    (cycle_ne_nil henabled (startOf keys channelInfo))
  unfold startOf at hcycle ⊢
  simp only [hcycle, List.head?_cons, List.headD_cons, h.isMultiKey, h.mode]

theorem getNextEnabledKey_unreachable {channel : Channel} (h : Polls parse keys statusList channel)
    (henabled : enabledIdx keys statusList ≠ []) (intn : ℕ → ℕ) :
    (getNextEnabledKey parse channel none intn).result = .error "record not found" := by
  have hkeys : keys ≠ [] := by
    rintro rfl
    exact henabled rfl
  have hmode : multiKeyModePolling ≠ multiKeyModeRandom := by decide
  unfold getNextEnabledKey
  simp only [h.keys, h.statusList, h.mode, h.isMultiKey, not_true_eq_false, if_false, if_neg hkeys,
    if_neg henabled, if_neg hmode, if_true]

/-- The channel that a call leaves still polls over the same keys. -/
theorem answer_polls {kept : Channel} {call : Call}
    (hcall : Polls parse keys statusList (call.copy.getD kept))
    (henabled : enabledIdx keys statusList ≠ []) (hreachable : call.reachable) :
    answer parse storage kept call =
      (handOut keys ((cycle keys statusList (startOf keys kept.channelInfo)).headD 0),
        if call.kept storage then
          { kept with channelInfo := { (call.copy.getD kept).channelInfo with
            multiKeyPollingIndex :=
              (((cycle keys statusList (startOf keys kept.channelInfo)).headD 0 + 1) %
                keys.length : ℕ) } }
        else kept) := by
  unfold answer
  rw [if_pos hreachable, getNextEnabledKey_polls hcall henabled]
  simp only [true_and]

theorem polls_moved {kept copy : Channel} (hkept : Polls parse keys statusList kept)
    (hcopy : Polls parse keys statusList copy) (idx : ℤ) :
    Polls parse keys statusList { kept with channelInfo :=
      { copy.channelInfo with multiKeyPollingIndex := idx } } where
  keys := hkept.keys
  isMultiKey := hcopy.isMultiKey
  mode := hcopy.mode
  statusList := hcopy.statusList

theorem startOf_moved (channelInfo : ChannelInfo) {idx : ℕ} (h : idx < keys.length) :
    startOf keys { channelInfo with multiKeyPollingIndex := idx } = idx := by
  unfold startOf
  dsimp only
  rw [if_neg (by omega), Int.toNat_natCast]

/-- Calls whose lookups succeed hand out the keys around the list. -/
theorem answers_eq {kept : Channel} (hkept : Polls parse keys statusList kept) {calls : List Call}
    (hcalls : ∀ call ∈ calls, ∀ copy, call.copy = some copy → Polls parse keys statusList copy)
    (henabled : enabledIdx keys statusList ≠ []) (hreachable : ∀ call ∈ calls, call.reachable) :
    answers parse storage kept calls =
      (handed keys statusList (startOf keys kept.channelInfo)
        (calls.map (·.kept storage))).map (handOut keys) := by
  induction calls generalizing kept with
  | nil => rfl
  | cons call calls ih =>
    obtain ⟨hcall, hrest⟩ := List.forall_mem_cons.mp hcalls
    obtain ⟨hreach, hreachable'⟩ := List.forall_mem_cons.mp hreachable
    have hon : Polls parse keys statusList (call.copy.getD kept) := by
      cases hcopy : call.copy with
      | none => exact hkept
      | some copy => exact hcall copy hcopy
    have hpos : 0 < keys.length := by
      refine List.length_pos_iff.mpr ?_
      rintro rfl
      exact henabled rfl
    rw [answers, answer_polls hon henabled hreach, List.map_cons, handed, List.map_cons]
    refine congrArg₂ List.cons rfl ?_
    by_cases hmoves : call.kept storage
    · rw [if_pos hmoves, if_pos hmoves, ih (polls_moved hkept hon _) hrest hreachable',
        startOf_moved _ (Nat.mod_lt _ hpos)]
    · rw [if_neg hmoves, if_neg hmoves, ih hkept hrest hreachable']

theorem answers_unreachable {kept : Channel} (hkept : Polls parse keys statusList kept)
    {calls : List Call}
    (hcalls : ∀ call ∈ calls, ∀ copy, call.copy = some copy → Polls parse keys statusList copy)
    (henabled : enabledIdx keys statusList ≠ []) (hresults : ∀ result ∈
      answers parse storage kept calls, ∃ idx, result = handOut keys idx) :
    ∀ call ∈ calls, call.reachable := by
  induction calls generalizing kept with
  | nil => exact fun call hmem ↦ by cases hmem
  | cons call calls ih =>
    obtain ⟨hcall, hrest⟩ := List.forall_mem_cons.mp hcalls
    have hon : Polls parse keys statusList (call.copy.getD kept) := by
      cases hcopy : call.copy with
      | none => exact hkept
      | some copy => exact hcall copy hcopy
    obtain ⟨hfirst, hothers⟩ := List.forall_mem_cons.mp hresults
    have hreach : call.reachable := by
      by_contra hunreachable
      obtain ⟨idx, hidx⟩ := hfirst
      unfold answer at hidx
      dsimp only at hidx
      rw [if_neg hunreachable, getNextEnabledKey_unreachable hon henabled] at hidx
      cases hidx
    refine List.forall_mem_cons.mpr ⟨hreach, ?_⟩
    rw [answer_polls hon henabled hreach] at hothers
    by_cases hmoves : call.kept storage
    · rw [if_pos hmoves] at hothers
      exact ih (polls_moved hkept hon _) hrest hothers
    · rw [if_neg hmoves] at hothers
      exact ih hkept hrest hothers

theorem handOut_injective : Function.Injective (handOut keys) := by
  intro idx idx' h
  exact (Prod.mk.inj (Except.ok.inj h)).2

/-- As many calls as there are enabled keys hand out each of them once exactly where each lookup
succeeds and each call but the last moves the index that is kept. -/
theorem polling_fair_iff {kept : Channel} (hkept : Polls parse keys statusList kept)
    {calls : List Call}
    (hcalls : ∀ call ∈ calls, ∀ copy, call.copy = some copy → Polls parse keys statusList copy)
    (henabled : enabledIdx keys statusList ≠ [])
    (hlength : calls.length = (enabledIdx keys statusList).length) :
    Fair keys statusList (answers parse storage kept calls) ↔
      (∀ call ∈ calls, call.reachable) ∧ ∀ call ∈ calls.dropLast, call.kept storage := by
  have hbools : (∀ moves ∈ (calls.map (·.kept storage)).dropLast, moves = true) ↔
      ∀ call ∈ calls.dropLast, call.kept storage := by
    rw [← List.map_dropLast, List.forall_mem_map]
  rw [← hbools, ← handed_fair_iff (by rw [List.length_map, hlength])]
  constructor
  · rintro ⟨idxs, hperm, hresults⟩
    have hreachable : ∀ call ∈ calls, call.reachable := by
      have hall : ∀ result ∈ answers parse storage kept calls, ∃ idx, result = handOut keys idx := by
        intro result hresult
        rw [hresults] at hresult
        obtain ⟨idx, _, rfl⟩ := List.mem_map.mp hresult
        exact ⟨idx, rfl⟩
      exact answers_unreachable hkept hcalls henabled hall
    refine ⟨hreachable, ?_⟩
    rw [answers_eq hkept hcalls henabled hreachable] at hresults
    rw [List.map_injective_iff.mpr handOut_injective hresults]
    exact hperm
  · rintro ⟨hreachable, hperm⟩
    exact ⟨_, hperm, answers_eq hkept hcalls henabled hreachable⟩

/-- Three keys, of which the second is disabled. -/
def threeKeys : Channel where
  id := 1
  key := "a\nb\nc"
  channelInfo :=
    { isMultiKey := true, multiKeyMode := multiKeyModePolling, multiKeyPollingIndex := 9,
      multiKeyStatusList := fun i ↦ if i = 1 then some 2 else none }

def noArray : String → Option (List String) := fun _ ↦ none

theorem threeKeys_polls : Polls noArray ["a", "b", "c"] (fun i ↦ if i = 1 then some 2 else none)
    threeKeys where
  keys := by decide
  isMultiKey := rfl
  mode := rfl
  statusList := rfl

theorem polling_fair_three : Fair ["a", "b", "c"] (fun i ↦ if i = 1 then some 2 else none)
    (answers noArray .memory threeKeys [{}, {}]) := by
  refine (polling_fair_iff threeKeys_polls ?_ (by decide) rfl).mpr ⟨?_, ?_⟩
  · intro call hcall copy hcopy
    simp only [List.mem_cons, List.not_mem_nil, or_false, or_self] at hcall
    rw [hcall] at hcopy
    cases hcopy
  · decide
  · decide

/-- Two requests that are pinned to the channel read it from the database, beside the cache. -/
theorem polling_unfair : ¬ ∀ (storage : Storage) (keys : List String) (statusList : ℕ → Option ℤ)
    (kept : Channel) (calls : List Call), Polls noArray keys statusList kept →
      (∀ call ∈ calls, ∀ copy, call.copy = some copy → Polls noArray keys statusList copy) →
      enabledIdx keys statusList ≠ [] → calls.length = (enabledIdx keys statusList).length →
      Fair keys statusList (answers noArray storage kept calls) := by
  intro hall
  have hcopies : ∀ call ∈ [{ copy := some threeKeys }, { copy := some threeKeys }], ∀ copy,
      Call.copy call = some copy →
        Polls noArray ["a", "b", "c"] (fun i ↦ if i = 1 then some 2 else none) copy := by
    intro call hcall copy hcopy
    simp only [List.mem_cons, List.not_mem_nil, or_false, or_self] at hcall
    rw [hcall] at hcopy
    obtain rfl := Option.some.inj hcopy
    exact threeKeys_polls
  obtain ⟨idxs, hperm, hresults⟩ := hall .memory _ _ _ _ threeKeys_polls hcopies (by decide) rfl
  rw [answers_eq threeKeys_polls hcopies (by decide) (by decide)] at hresults
  rw [← List.map_injective_iff.mpr handOut_injective hresults] at hperm
  have hnodup := hperm.nodup_iff.mpr (List.nodup_range.filter _)
  revert hnodup
  decide

end Fairness

end AllAiTools.NewApi.Model.PollingFair
