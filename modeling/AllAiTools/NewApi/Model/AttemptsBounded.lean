import AllAiTools.Foundation.Run
import AllAiTools.NewApi.Model.SecondFactor

namespace AllAiTools.NewApi.Model.AttemptsBounded

open Foundation Foundation.Run SecondFactor

section Property

/-- The times at which a lock that begins at `start` would hold. -/
def during (start : ℤ) (e : Evaluation) : Bool :=
  start ≤ e.time && decide (e.time < start + lockoutDuration * 1000)

/-- Between successes, no more wrong codes than the limit are evaluated in the time a lock lasts. -/
def Bounded (log : List Evaluation) : Prop :=
  ∀ before stretch after, log = before ++ stretch ++ after → (∀ e ∈ stretch, e.success = false) →
    ∀ start, (stretch.filter (during start)).length ≤ maxFailAttempts

/-- No call has begun; the rows are as they are stored. -/
def initial (row : TwoFA) (codes : Table BackupCode.id) (now : ℤ) : State :=
  { row := row, codes := codes, now := now }

/-- A backup code is saved as used only while it is stored as unused. -/
def SavedUnused (s : State) (x : Step) : Prop :=
  ∀ t bc, s.calls x.call = .savingCode t bc → x.act = .saveCode false →
    (s.codes.find bc.id).any fun stored ↦ !stored.isUsed

def Phase.Pending : Phase → Prop
  | .savingCode _ _ => True
  | .updating _ => True
  | _ => False

def Act.Evaluates : Act → Prop
  | .totp _ => True
  | .backup _ => True
  | _ => False

/-- A code is evaluated only by a call that holds the row as it is stored, while no other has one to
save, and no update of the row fails. -/
structure Exclusive (s : State) (x : Step) : Prop where
  current : ∀ t, s.calls x.call = .holding t → Act.Evaluates x.act → t = s.row
  alone : Act.Evaluates x.act → ∀ call, ¬ Phase.Pending (s.calls call)
  saved : x.act ≠ .update true

end Property

section Effects

variable (v : Verifier)

/-- What a step does, seen at the time it is taken. -/
inductive Effect (s : State) (x : Step) : State → Prop
  | stays : Effect s x s
  | load (h : ¬ Phase.Pending (s.calls x.call)) : Effect s x (s.set x.call (.holding s.row))
  | wrong (t : TwoFA) (h : s.calls x.call = .holding t) (hact : Act.Evaluates x.act)
      (hlock : t.isLocked s.now = false) : Effect s x (s.wrong x.call t)
  | right (t : TwoFA) (h : s.calls x.call = .holding t) (hact : Act.Evaluates x.act) :
      Effect s x (s.right x.call t)
  | matched (t : TwoFA) (bc : BackupCode) (h : s.calls x.call = .holding t)
      (hact : Act.Evaluates x.act) (hmem : bc ∈ s.codes.rows) (hunused : bc.isUsed = false) :
      Effect s x (s.set x.call (.savingCode t { bc with isUsed := true, usedAt := some s.now }))
  | codeFailed (t : TwoFA) (bc : BackupCode) (h : s.calls x.call = .savingCode t bc)
      (hact : x.act = .saveCode true) : Effect s x (s.set x.call (.holding t))
  | codeSaved (t : TwoFA) (bc : BackupCode) (h : s.calls x.call = .savingCode t bc)
      (hact : x.act = .saveCode false) : Effect s x (saveCode s x.call t bc)
  | updateFailed (t : TwoFA) (h : s.calls x.call = .updating t) (hact : x.act = .update true) :
      Effect s x (s.set x.call (.holding t))
  | updated (t : TwoFA) (h : s.calls x.call = .updating t) (hact : x.act = .update false) :
      Effect s x { s.set x.call (.holding t) with row := t }

theorem act_effect (s : State) (call wait : ℕ) (a : Act) :
    Effect s ⟨call, wait, a⟩ (act v s call a) := by
  unfold act
  cases hphase : s.calls call with
  | idle =>
    cases a with
    | load => exact .load fun hpending ↦ by rw [hphase] at hpending; exact hpending
    | _ => exact .stays
  | holding t =>
    cases a with
    | load => exact .load fun hpending ↦ by rw [hphase] at hpending; exact hpending
    | totp code =>
      dsimp only
      unfold validateTOTPAndUpdateUsage
      split_ifs with hlock hcode
      · exact .stays
      · exact .wrong t hphase trivial (by simpa using hlock)
      · exact .right t hphase trivial
    | backup code =>
      dsimp only
      unfold validateBackupCodeAndUpdateUsage
      split_ifs with hlock hcode
      · exact .stays
      · exact .stays
      · dsimp only
        cases hfind : (s.codes.rows.filter (!·.isUsed)).find? fun bc ↦
            v.validatePasswordAndHash (normalizeBackupCode v code) bc.codeHash with
        | none => exact .wrong t hphase trivial (by simpa using hlock)
        | some bc =>
          obtain ⟨hmem, hunused⟩ := List.mem_filter.mp (List.mem_of_find?_eq_some hfind)
          exact .matched t bc hphase trivial hmem (by simpa using hunused)
    | _ => exact .stays
  | savingCode t bc =>
    cases a with
    | saveCode failed =>
      cases failed with
      | true => exact .codeFailed t bc hphase rfl
      | false => exact .codeSaved t bc hphase rfl
    | _ => exact .stays
  | updating t =>
    cases a with
    | update failed =>
      cases failed with
      | true => exact .updateFailed t hphase rfl
      | false => exact .updated t hphase rfl
    | _ => exact .stays

theorem step_effect (s : State) (x : Step) :
    Effect { s with now := s.now + x.wait } x (step v s x) :=
  act_effect v { s with now := s.now + x.wait } x.call x.wait x.act

end Effects

section Codes

variable {v : Verifier}

theorem set_calls (s : State) (call : ℕ) (phase : Phase) (other : ℕ) :
    (s.set call phase).calls other = if other = call then phase else s.calls other :=
  Function.update_apply s.calls call phase other

/-- What has been accepted is stored as used, and what is about to be saved is used only if it has
been accepted meanwhile. -/
structure CodesKept (s : State) : Prop where
  used : ∀ id ∈ s.accepted, ∃ stored, s.codes.find id = some stored ∧ stored.isUsed = true
  saving : ∀ call t bc, s.calls call = .savingCode t bc → bc.isUsed = true ∧
    ∃ stored, s.codes.find bc.id = some stored ∧ (stored.isUsed = true → bc.id ∈ s.accepted)

theorem CodesKept.set {s s' : State} (h : CodesKept s) (hcodes : s'.codes = s.codes)
    (haccepted : s'.accepted = s.accepted) {call : ℕ} {phase : Phase}
    (hcalls : s'.calls = (s.set call phase).calls) (hphase : ∀ t bc, phase ≠ .savingCode t bc) :
    CodesKept s' := by
  refine ⟨?_, ?_⟩
  · rw [hcodes, haccepted]
    exact h.used
  · intro other t bc hother
    rw [hcalls, set_calls] at hother
    rw [hcodes, haccepted]
    split_ifs at hother
    · exact absurd hother (hphase t bc)
    · exact h.saving other t bc hother

theorem CodesKept.effect {s s' : State} {x : Step} (h : CodesKept s) (he : Effect s x s') :
    CodesKept s' := by
  cases he with
  | stays => exact h
  | load _ => exact h.set rfl rfl rfl fun _ _ heq ↦ by cases heq
  | wrong t _ _ _ => exact h.set rfl rfl rfl fun _ _ heq ↦ by cases heq
  | right t _ _ => exact h.set rfl rfl rfl fun _ _ heq ↦ by cases heq
  | matched t bc _ _ hmem hunused =>
    refine ⟨h.used, fun other t' bc' hother ↦ ?_⟩
    rw [set_calls] at hother
    split_ifs at hother
    · cases hother
      have hfind : s.codes.find bc.id = some bc := Table.find_of_mem hmem
      refine ⟨rfl, bc, hfind, fun hused ↦ ?_⟩
      rw [hunused] at hused
      cases hused
    · exact h.saving other t' bc' hother
  | codeFailed t bc _ _ => exact h.set rfl rfl rfl fun _ _ heq ↦ by cases heq
  | codeSaved t bc hphase _ =>
    obtain ⟨hused, stored, hfind, _⟩ := h.saving x.call t bc hphase
    refine ⟨fun id hid ↦ ?_, fun other t' bc' hother ↦ ?_⟩
    · dsimp only [saveCode] at hid ⊢
      rw [Table.find_save]
      by_cases heq : bc.id = id
      · rw [if_pos heq, ← heq, hfind]
        exact ⟨bc, rfl, hused⟩
      · rw [if_neg heq]
        rcases List.mem_append.mp hid with hold | hnew
        · exact h.used id hold
        · exact absurd (List.mem_singleton.mp hnew).symm heq
    · have hcall : (s.set x.call (.updating (t.markUsed s.now))).calls other =
          .savingCode t' bc' := hother
      rw [set_calls] at hcall
      split_ifs at hcall
      obtain ⟨hused', stored', hfind', haccepted⟩ := h.saving other t' bc' hcall
      dsimp only [saveCode]
      refine ⟨hused', ?_⟩
      rw [Table.find_save]
      by_cases heq : bc.id = bc'.id
      · rw [if_pos heq, hfind']
        exact ⟨bc, rfl, fun _ ↦ by rw [heq]; exact List.mem_append_right _ List.mem_cons_self⟩
      · rw [if_neg heq]
        exact ⟨stored', hfind', fun h ↦ List.mem_append_left _ (haccepted h)⟩
  | updateFailed t _ _ => exact h.set rfl rfl rfl fun _ _ heq ↦ by cases heq
  | updated t _ _ => exact h.set rfl rfl rfl fun _ _ heq ↦ by cases heq

theorem step_saveCode {s : State} {x : Step} {t : TwoFA} {bc : BackupCode}
    (hphase : s.calls x.call = .savingCode t bc) (hact : x.act = .saveCode false) :
    step v s x = saveCode { s with now := s.now + x.wait } x.call t bc := by
  obtain ⟨call, wait, a⟩ := x
  dsimp only at hphase hact
  rw [hact, SecondFactor.step]
  unfold act
  dsimp only
  rw [hphase]
  rfl

/-- A step accepts a code a second time when it saves one that is stored as used. -/
theorem accepted_iff {s : State} {x : Step} (h : CodesKept s) (hnodup : s.accepted.Nodup) :
    (step v s x).accepted.Nodup ↔ SavedUnused s x := by
  by_cases hsave : ∃ t bc, s.calls x.call = .savingCode t bc ∧ x.act = .saveCode false
  · obtain ⟨t, bc, hphase, hact⟩ := hsave
    obtain ⟨_, stored, hfind, haccepted⟩ := h.saving x.call t bc hphase
    have hstored : stored.isUsed = true ↔ bc.id ∈ s.accepted := by
      refine ⟨haccepted, fun hid ↦ ?_⟩
      obtain ⟨stored', hfind', hused⟩ := h.used bc.id hid
      rw [hfind] at hfind'
      cases hfind'
      exact hused
    have hunused : SavedUnused s x ↔ bc.id ∉ s.accepted := by
      rw [← hstored]
      constructor
      · intro hsaved hused
        have hany := hsaved t bc hphase hact
        rw [hfind, Option.any_some, hused] at hany
        cases hany
      · intro hnot t' bc' hphase' _
        rw [hphase] at hphase'
        cases hphase'
        rw [hfind, Option.any_some, Bool.eq_false_iff.mpr hnot]
        rfl
    rw [step_saveCode hphase hact, hunused]
    exact List.nodup_append.trans ⟨fun hall hid ↦ hall.2.2 bc.id hid bc.id List.mem_cons_self rfl,
      fun hnot ↦ ⟨hnodup, List.nodup_singleton _, fun id hid other hother ↦ by
        rw [List.mem_singleton.mp hother]
        rintro rfl
        exact hnot hid⟩⟩
  · have hsame : (step v s x).accepted = s.accepted := by
      have he := step_effect v s x
      generalize step v s x = s' at he ⊢
      cases he with
      | codeSaved t bc hphase hact => exact absurd ⟨t, bc, hphase, hact⟩ hsave
      | _ => rfl
    rw [hsame]
    exact iff_of_true hnodup fun t bc hphase hact ↦ absurd ⟨t, bc, hphase, hact⟩ hsave

theorem CodesKept.step {s : State} (h : CodesKept s) (x : Step) : CodesKept (step v s x) :=
  CodesKept.effect (s := { s with now := s.now + x.wait }) ⟨h.used, h.saving⟩ (step_effect v s x)

variable (v) in
theorem accepted_once_iff (row : TwoFA) (codes : Table BackupCode.id) (now : ℤ) (trace : List Step) :
    (∀ first rest, trace = first ++ rest →
      (run (step v) (initial row codes now) first).accepted.Nodup) ↔
    Along (step v) SavedUnused (initial row codes now) trace := by
  have hstart : CodesKept (initial row codes now) :=
    ⟨fun _ hid ↦ absurd hid List.not_mem_nil, fun _ _ _ hphase ↦ by cases hphase⟩
  have hkept : ∀ first, CodesKept (run (step v) (initial row codes now) first) :=
    fun first ↦ invariant (fun s x (h : CodesKept s) ↦ h.step x) hstart first
  rw [← throughout_iff (fun s ↦ CodesKept s ∧ s.accepted.Nodup) ?_ ⟨hstart, List.nodup_nil⟩]
  · exact forall_congr' fun first ↦ forall₂_congr fun rest _ ↦ (and_iff_right (hkept first)).symm
  · intro s x h
    rw [accepted_iff (v := v) h.1 h.2 |>.symm]
    exact and_iff_right (h.1.step x)

end Codes

section Attempts

variable {v : Verifier}

/-- The wrong codes since the last success, the newest first. -/
def since (log : List Evaluation) : List Evaluation := log.reverse.takeWhile fun e ↦ !e.success

theorem since_of_suffix {before stretch : List Evaluation} (h : ∀ e ∈ stretch, e.success = false) :
    since (before ++ stretch) = stretch.reverse ++ since before := by
  rw [since, List.reverse_append, List.takeWhile_append_of_pos]
  · rfl
  · intro e he
    rw [h e (List.mem_reverse.mp he)]
    rfl

theorem since_wrong (log : List Evaluation) (now : ℤ) :
    since (log ++ [⟨now, false⟩]) = ⟨now, false⟩ :: since log := by
  rw [since_of_suffix (by simp)]
  rfl

theorem since_right (log : List Evaluation) (now : ℤ) : since (log ++ [⟨now, true⟩]) = [] := by
  rw [since, List.reverse_append]
  rfl

/-- One more evaluation keeps to the bound if the wrong codes before it leave room. -/
theorem bounded_append {log : List Evaluation} {e : Evaluation} (h : Bounded log)
    (hroom : e.success = false → ∀ start, during start e →
      ((since log).filter (during start)).length < maxFailAttempts) : Bounded (log ++ [e]) := by
  intro before stretch after heq hwrong start
  rcases List.eq_nil_or_concat' after with rfl | ⟨after, last, rfl⟩
  · rcases List.eq_nil_or_concat' stretch with rfl | ⟨stretch, last, rfl⟩
    · exact Nat.zero_le _
    · rw [List.append_nil, ← List.append_assoc] at heq
      obtain ⟨hlog, hlast⟩ := List.append_inj' heq rfl
      cases hlast
      have hstretch : ∀ e ∈ stretch, e.success = false := fun e he ↦
        hwrong e (List.mem_append_left _ he)
      rw [List.filter_append, List.length_append]
      cases hin : during start e with
      | false =>
        have hbefore := h before stretch [] (by rw [List.append_nil, hlog]) hstretch start
        have hnone : [e].filter (during start) = [] := by rw [List.filter_singleton, hin]; rfl
        exact (congrArg (_ + ·) (congrArg List.length hnone)).trans_le hbefore
      | true =>
        have hlt := hroom (hwrong e (List.mem_append_right _ List.mem_cons_self)) start hin
        rw [hlog, since_of_suffix hstretch, List.filter_append, List.length_append,
          List.filter_reverse, List.length_reverse] at hlt
        have hone : ([e].filter (during start)).length ≤ 1 := List.length_filter_le _ [e]
        have hle : (stretch.filter (during start)).length + ([e].filter (during start)).length ≤
            maxFailAttempts := by omega
        exact hle
  · rw [← List.append_assoc] at heq
    obtain ⟨hlog, _⟩ := List.append_inj' heq rfl
    exact h before stretch after hlog hwrong start

/-- A row that counts the wrong codes and locks the user out from the last on. -/
structure Guarded (t : TwoFA) (wrong : List Evaluation) : Prop where
  counts : wrong.length ≤ t.failedAttempts
  locks : maxFailAttempts ≤ wrong.length → ∃ until_, t.lockedUntil = some until_ ∧
    ∀ e ∈ wrong, e.time + lockoutDuration * 1000 ≤ until_

theorem Guarded.increment {t : TwoFA} {wrong : List Evaluation} {now : ℤ} (h : Guarded t wrong)
    (hpast : ∀ e ∈ wrong, e.time ≤ now) :
    Guarded (t.incrementFailedAttempts now) (⟨now, false⟩ :: wrong) := by
  have hcounts := h.counts
  refine ⟨?_, fun hmany ↦ ⟨now + lockoutDuration * 1000, ?_, ?_⟩⟩
  · rw [List.length_cons]
    exact Nat.succ_le_succ hcounts
  · rw [List.length_cons] at hmany
    exact if_pos (hmany.trans (Nat.succ_le_succ hcounts))
  · refine List.forall_mem_cons.mpr ⟨le_rfl, fun e he ↦ ?_⟩
    have hle := hpast e he
    omega

theorem Guarded.markUsed (t : TwoFA) (now : ℤ) : Guarded (t.markUsed now) [] where
  counts := Nat.zero_le _
  locks hmany := absurd hmany (by decide)

/-- An unlocked row leaves room for one more wrong code in any time a lock lasts. -/
theorem Guarded.room {t : TwoFA} {wrong : List Evaluation} {now : ℤ} (h : Guarded t wrong)
    (hlock : t.isLocked now = false) {start : ℤ} (hin : during start ⟨now, false⟩) :
    (wrong.filter (during start)).length < maxFailAttempts := by
  by_cases hmany : maxFailAttempts ≤ wrong.length
  · obtain ⟨until_, hlocked, hafter⟩ := h.locks hmany
    have hover : ¬ now < until_ := by
      rw [TwoFA.isLocked, hlocked, Option.any_some] at hlock
      exact of_decide_eq_false hlock
    have hnone : wrong.filter (during start) = [] := by
      refine List.filter_eq_nil_iff.mpr fun e he hduring ↦ ?_
      have hgone := hafter e he
      simp only [during, Bool.and_eq_true, decide_eq_true_eq] at hduring hin
      omega
    rw [hnone]
    decide
  · exact (List.length_filter_le _ _).trans_lt (not_le.mp hmany)

/-- Every call that has an attempt to save has counted it, and so has the stored row where none
has. -/
structure LogKept (s : State) : Prop where
  past : ∀ e ∈ s.log, e.time ≤ s.now
  bounded : Bounded s.log
  one : ∀ i j, Phase.Pending (s.calls i) → Phase.Pending (s.calls j) → i = j
  updating : ∀ i t, s.calls i = .updating t → Guarded t (since s.log)
  stored : (∀ i t, s.calls i ≠ .updating t) → Guarded s.row (since s.log)

theorem since_subset {log : List Evaluation} {e : Evaluation} (h : e ∈ since log) : e ∈ log :=
  List.mem_reverse.mp ((List.takeWhile_sublist _).subset h)

theorem pending_set {s : State} {call : ℕ} {phase : Phase} (h : ¬ Phase.Pending phase) {other : ℕ}
    (hpending : Phase.Pending ((s.set call phase).calls other)) : Phase.Pending (s.calls other) := by
  rw [set_calls] at hpending
  split_ifs at hpending
  · exact absurd hpending h
  · exact hpending

theorem pending_alone {s : State} {call : ℕ} {phase : Phase}
    (h : ∀ other, ¬ Phase.Pending (s.calls other)) {other : ℕ}
    (hpending : Phase.Pending ((s.set call phase).calls other)) : other = call := by
  rw [set_calls] at hpending
  split_ifs at hpending with hother
  · exact hother
  · exact absurd hpending (h other)

theorem LogKept.quiet {s : State} (h : LogKept s) {call : ℕ} {t : TwoFA}
    (hstored : ¬ Phase.Pending (s.calls call) ∨ ∀ u, s.calls call ≠ .updating u) :
    LogKept (s.set call (.holding t)) := by
  refine ⟨h.past, h.bounded, fun i j hi hj ↦ ?_, fun i u hi ↦ ?_, fun hnone ↦ h.stored ?_⟩
  · exact h.one i j (pending_set id hi) (pending_set id hj)
  · rw [set_calls] at hi
    split_ifs at hi
    exact h.updating i u hi
  · intro i u hi
    have hother := hnone i u
    rw [set_calls] at hother
    split_ifs at hother with hcall
    · subst hcall
      rcases hstored with hidle | hnot
      · rw [hi] at hidle
        exact hidle trivial
      · exact hnot u hi
    · exact hother hi

theorem LogKept.append {s s' : State} {e : Evaluation} {call : ℕ} {t : TwoFA} (h : LogKept s)
    (hnow : s'.now = s.now) (hlog : s'.log = s.log ++ [e]) (he : e.time = s.now)
    (hcalls : s'.calls = (s.set call (.updating t)).calls)
    (halone : ∀ other, Phase.Pending (s'.calls other) → other = call)
    (hroom : e.success = false → ∀ start, during start e →
      ((since s.log).filter (during start)).length < maxFailAttempts)
    (hguarded : Guarded t (since (s.log ++ [e]))) : LogKept s' := by
  have hcall : s'.calls call = .updating t := by rw [hcalls, set_calls, if_pos rfl]
  refine ⟨?_, hlog ▸ bounded_append h.bounded hroom, ?_, ?_, fun hnone ↦ absurd hcall (hnone call t)⟩
  · rw [hlog, hnow]
    exact List.forall_mem_append.mpr ⟨h.past, List.forall_mem_singleton.mpr he.le⟩
  · intro i j hi hj
    rw [halone i hi, halone j hj]
  · intro i u hi
    have hpending : Phase.Pending (s'.calls i) := by rw [hi]; trivial
    rw [halone i hpending, hcall] at hi
    cases hi
    rw [hlog]
    exact hguarded

theorem LogKept.effect {s s' : State} {x : Step} (h : LogKept s) (hx : Exclusive s x)
    (he : Effect s x s') : LogKept s' := by
  have hsince : ∀ e ∈ since s.log, e.time ≤ s.now := fun e hin ↦ h.past e (since_subset hin)
  have hstored : Act.Evaluates x.act → Guarded s.row (since s.log) := fun hact ↦
    h.stored fun i t hi ↦ hx.alone hact i (by rw [hi]; trivial)
  have hright : ∀ t : TwoFA, Guarded (t.markUsed s.now) (since (s.log ++ [⟨s.now, true⟩])) := by
    intro t
    rw [since_right]
    exact Guarded.markUsed t s.now
  cases he with
  | stays => exact h
  | load hphase => exact h.quiet (.inl hphase)
  | wrong t hphase hact hlock =>
    -- the held row is the stored one, which guards what has been evaluated so far
    have ht := hx.current t hphase hact
    subst ht
    refine h.append rfl rfl rfl rfl (fun other hother ↦ pending_alone (hx.alone hact) hother)
      (fun _ start hin ↦ (hstored hact).room hlock hin) ?_
    rw [since_wrong]
    exact (hstored hact).increment hsince
  | right t hphase hact =>
    exact h.append rfl rfl rfl rfl (fun other hother ↦ pending_alone (hx.alone hact) hother)
      (fun hwrong ↦ by cases hwrong) (hright t)
  | matched t bc hphase hact _ _ =>
    refine ⟨h.past, h.bounded, fun i j hi hj ↦ ?_, fun i u hi ↦ ?_, fun _ ↦ hstored hact⟩
    · rw [pending_alone (hx.alone hact) hi, pending_alone (hx.alone hact) hj]
    · rw [set_calls] at hi
      split_ifs at hi
      exact h.updating i u hi
  | codeFailed t bc hphase _ =>
    exact h.quiet (.inr fun u hu ↦ by rw [hphase] at hu; cases hu)
  | codeSaved t bc hphase _ =>
    have hpending : Phase.Pending (s.calls x.call) := by rw [hphase]; trivial
    refine h.append rfl rfl rfl rfl (fun other hother ↦ ?_) (fun hwrong ↦ by cases hwrong) (hright t)
    by_contra hne
    have hold : ((s.set x.call (.updating (t.markUsed s.now))).calls other) = s.calls other := by
      rw [set_calls, if_neg hne]
    exact hne (h.one other x.call (hold ▸ hother) hpending)
  | updateFailed t _ hact => exact absurd hact hx.saved
  | updated t hphase _ =>
    refine ⟨h.past, h.bounded, fun i j hi hj ↦ ?_, fun i u hi ↦ ?_, fun _ ↦ h.updating x.call t hphase⟩
    · exact h.one i j (pending_set id hi) (pending_set id hj)
    · have hother : ((s.set x.call (.holding t)).calls i) = .updating u := hi
      rw [set_calls] at hother
      split_ifs at hother
      exact h.updating i u hother

theorem LogKept.step {s : State} (h : LogKept s) {x : Step} (hx : Exclusive s x) :
    LogKept (step v s x) := by
  refine LogKept.effect (s := { s with now := s.now + x.wait }) ?_ ⟨hx.current, hx.alone, hx.saved⟩
    (step_effect v s x)
  refine ⟨fun e he ↦ ?_, h.bounded, h.one, h.updating, h.stored⟩
  have hpast := h.past e he
  dsimp only
  omega

end Attempts

/-- Backup codes are accepted once exactly when each is saved while it is still stored as unused; and
wrong codes are bounded as long as codes are evaluated by one call at a time, on the row as it is
stored. -/
theorem attempts_bounded (v : Verifier) (row : TwoFA) (codes : Table BackupCode.id) (now : ℤ)
    (trace : List Step) :
    ((∀ first rest, trace = first ++ rest →
        (run (step v) (initial row codes now) first).accepted.Nodup) ↔
      Along (step v) SavedUnused (initial row codes now) trace) ∧
    (Along (step v) Exclusive (initial row codes now) trace →
      ∀ first rest, trace = first ++ rest →
        Bounded (run (step v) (initial row codes now) first).log) := by
  refine ⟨accepted_once_iff v row codes now trace, ?_⟩
  rintro halong first rest rfl
  have hstart : LogKept (initial row codes now) := by
    refine ⟨fun _ he ↦ absurd he List.not_mem_nil, ?_, fun _ _ hpending _ ↦ hpending.elim,
      fun _ _ hphase ↦ (by cases hphase), fun _ ↦ ⟨Nat.zero_le _, fun hmany ↦ ?_⟩⟩
    swap
    · have hnone : maxFailAttempts ≤ 0 := hmany
      exact absurd hnone (by decide)
    intro before stretch after hempty _ start
    have hnil : stretch = [] := by
      have h := hempty.symm
      simp only [initial, List.append_eq_nil_iff] at h
      exact h.1.2
    rw [hnil]
    exact Nat.zero_le _
  have hfirst := ((along_append _ first rest).mp halong).1
  exact (hfirst.invariant LogKept (fun _ _ h hx ↦ h.step hx) hstart).bounded

/-- Hashes that are the codes themselves, and no time-based code that is right. -/
def plainVerifier : Verifier where
  toUpper := id
  validate _ _ _ := false
  validatePasswordAndHash := (· == ·)

def oneCode : Table BackupCode.id := .single { id := 1, codeHash := "AAAA-BBBB" }

/-- A call that tries a code and counts the attempt. -/
def inTurn : List Step := [⟨0, 0, .load⟩, ⟨0, 0, .totp "000000"⟩, ⟨0, 0, .update false⟩]

theorem attempts_bounded_inTurn :
    Bounded (run (step plainVerifier) (initial { secret := "" } oneCode 0) inTurn).log := by
  refine (attempts_bounded plainVerifier { secret := "" } oneCode 0 inTurn).2 ?_ inTurn [] (by simp)
  have hidle : ∀ call, ¬ Phase.Pending (Function.update (fun _ ↦ Phase.idle) 0
      (.holding { secret := "" }) call) := by
    intro call
    rw [Function.update_apply]
    split_ifs <;> exact id
  exact ⟨⟨fun _ hphase ↦ (by cases hphase), fun _ _ ↦ id, by decide⟩,
    ⟨fun t hphase _ ↦ (Phase.holding.inj hphase).symm, fun _ ↦ hidle, by decide⟩,
    ⟨fun _ _ hact ↦ hact.elim, fun hact ↦ hact.elim, by decide⟩, trivial⟩

/-- Two calls find the same backup code unused before either saves it. -/
def codeTwice : List Step :=
  [⟨0, 0, .load⟩, ⟨1, 0, .load⟩, ⟨0, 0, .backup "AAAABBBB"⟩, ⟨1, 0, .backup "AAAABBBB"⟩,
    ⟨0, 0, .saveCode false⟩, ⟨1, 0, .saveCode false⟩]

/-- Six calls read the row before any has counted its attempt. -/
def sixAtOnce : List Step :=
  (List.range 6).map (fun call ↦ ⟨call, 0, .load⟩) ++
    (List.range 6).map (fun call ↦ ⟨call, 0, .totp "000000"⟩)

theorem attempts_unbounded :
    ¬ (run (step plainVerifier) (initial { secret := "" } oneCode 0) codeTwice).accepted.Nodup ∧
      ¬ Bounded (run (step plainVerifier) (initial { secret := "" } oneCode 0) sixAtOnce).log := by
  constructor
  · have haccepted : (run (step plainVerifier) (initial { secret := "" } oneCode 0)
        codeTwice).accepted = [1, 1] := by decide
    rw [haccepted]
    decide
  · intro h
    have hlog : (run (step plainVerifier) (initial { secret := "" } oneCode 0) sixAtOnce).log =
        List.replicate 6 ⟨0, false⟩ := by decide
    rw [hlog] at h
    exact absurd (h [] (List.replicate 6 ⟨0, false⟩) [] (by simp) (by decide) 0) (by decide)

end AllAiTools.NewApi.Model.AttemptsBounded
