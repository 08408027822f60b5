import AllAiTools.Foundation.ReadCommitted
import AllAiTools.NewApi.Model.SubscriptionPreConsume

namespace AllAiTools.NewApi.Model.AmountUsed

open Foundation Foundation.Run Foundation.ReadCommitted Common.Str Subscription
open SubscriptionPreConsume

/-- The statements that write. A `Save` of a subscription writes the whole row that
its transaction has read, with the used amount computed from it; `delta` is what the
call means to add. -/
inductive Write
  | resetSub (read new : UserSubscription)
  | saveSub (read : UserSubscription) (delta used : ℤ)
  | createRecord (record : SubscriptionPreConsumeRecord)
  | saveRecord (record : SubscriptionPreConsumeRecord)

inductive Row
  | sub (id : ℤ)
  | record (requestId : String)
  deriving DecidableEq

def apply : Write → Store → Store
  | .resetSub _ new, s => { s with subs := s.subs.save new }
  | .saveSub read _ used, s => { s with subs := s.subs.save { read with amountUsed := used } }
  | .createRecord record, s => { s with records := (s.records.insert record).getD s.records }
  | .saveRecord record, s => { s with records := s.records.save record }

def lock : Write → Option Row
  | .resetSub _ new => some (.sub new.id)
  | .saveSub read _ _ => some (.sub read.id)
  | .createRecord record => some (.record record.requestId)
  | .saveRecord record => some (.record record.requestId)

/-- The unique index on the request id. -/
def refuses : Write → Store → Bool
  | .createRecord record, s => (s.records.find record.requestId).isSome
  | _, _ => false

def rules : Rules Store Write Row := ⟨apply, lock, refuses⟩

abbrev Prog := Program Store Write Error

def fail (e : Error) : Prog := .done (.error e)

def finish : Prog := .commit (.done (.ok ())) (fail .database)

section PreConsume

variable (cal : Calendar) (requestId : String) (userId amount now : ℤ)

def answerDuplicate : Prog :=
  .query (fun s ↦ match s.records.find requestId with
    | none => fail .database
    | some dup => if dup.status = .refunded then fail .alreadyRefunded else finish) (fail .database)

def consumeFrom (sub : UserSubscription) : Prog :=
  .write (.createRecord ⟨requestId, userId, sub.id, amount, .consumed⟩)
    (.write (.saveSub sub amount (sub.amountUsed + amount)) finish (fail .database))
    (answerDuplicate requestId)

def consumeFirst : List UserSubscription → Prog
  | [] => fail (.quotaInsufficient amount)
  | candidate :: rest =>
    let pay (sub : UserSubscription) : Prog :=
      if 0 < sub.amountTotal ∧ sub.amountTotal - sub.amountUsed < amount then consumeFirst rest
      else consumeFrom requestId userId amount sub
    .query (fun s ↦ match getSubscriptionPlanByIdTx false s candidate.planId with
      | .error e => fail e
      | .ok plan => match maybeReset cal plan candidate now with
        | none => pay candidate
        | some sub => .write (.resetSub candidate sub) (pay sub) (fail .database)) (fail .database)

def preConsumeUserSubscription : Prog :=
  if userId ≤ 0 then fail .invalidUserId
  else if trimSpace requestId = "" then fail .requestIdEmpty
  else if amount ≤ 0 then fail .amountNotPositive
  else .query (fun s ↦ match s.records.find requestId with
    | some existing =>
      if existing.status = .refunded then fail .alreadyRefunded
      else .query (fun s ↦ match s.subs.find existing.userSubscriptionId with
        | none => fail .recordNotFound
        | some _ => finish) (fail .database)
    | none => .query (fun s ↦
        if activeSubs s userId now = [] then fail .noActiveSubscription
        else consumeFirst cal requestId userId amount now (activeSubs s userId now))
      (fail .noActiveSubscription)) (fail .database)

end PreConsume

/-- The transaction of a delta, and what follows it. -/
def postConsumeDelta (id delta : ℤ) (next : Prog) : Prog :=
  if id ≤ 0 then fail .invalidUserSubscriptionId
  else if delta = 0 then next
  else .query (fun s ↦ match s.subs.find id with
    | none => fail .recordNotFound
    | some sub =>
      let used := newUsed sub.amountUsed delta
      if 0 < sub.amountTotal ∧ sub.amountTotal < used then
        fail (.usedExceedsTotal used sub.amountTotal)
      else .write (.saveSub sub delta used) (.commit next (fail .database)) (fail .database))
    (fail .database)

def postConsumeUserSubscriptionDelta (id delta : ℤ) : Prog :=
  postConsumeDelta id delta (.done (.ok ()))

/-- The delta's transaction runs on a connection of its own, after the outer one has
read the record and before it has written anything. -/
def refundSubscriptionPreConsume (requestId : String) : Prog :=
  if trimSpace requestId = "" then fail .requestIdEmpty
  else .query (fun s ↦ match s.records.find requestId with
    | none => fail .recordNotFound
    | some record =>
      let mark : Prog := .write (.saveRecord { record with status := .refunded }) finish (fail .database)
      if record.status = .refunded then finish
      else if record.preConsumed ≤ 0 then mark
      else postConsumeDelta record.userSubscriptionId (-record.preConsumed) mark) (fail .database)

/-- The calls whose statements interleave. -/
inductive Call
  | preConsume (cal : Calendar) (requestId : String) (userId amount now : ℤ)
  | postConsume (id delta : ℤ)
  | refund (requestId : String)

def Call.program : Call → Prog
  | .preConsume cal requestId userId amount now =>
    preConsumeUserSubscription cal requestId userId amount now
  | .postConsume id delta => postConsumeUserSubscriptionDelta id delta
  | .refund requestId => refundSubscriptionPreConsume requestId

def interleave (s : Store) (calls : List Call) (trace : List Move) : System Store Write Error :=
  run rules.step (.start s (calls.map Call.program)) trace

/-- What a write means to add to the used amount of a subscription. -/
def deltaOn (k : ℤ) : Write → ℤ
  | .saveSub read delta _ => if read.id = k then delta else 0
  | _ => 0

/-- The writes fit the used amount that is stored: it is what their transaction read,
it is not reset, and it is not clamped at zero. -/
def Fresh (k : ℤ) (s : Store) (b : List Write) : Prop :=
  (∀ read new, .resetSub read new ∈ b → new.id ≠ k) ∧
    ∀ read delta used, .saveSub read delta used ∈ b → read.id = k →
      (∃ row, s.subs.find k = some row ∧ row.amountUsed = read.amountUsed) ∧
        used = read.amountUsed + delta

/-- The used amount stays within the total. -/
def Within (k : ℤ) (s : Store) : Prop :=
  ∀ row, s.subs.find k = some row → 0 < row.amountTotal → row.amountUsed ≤ row.amountTotal

section Shape

/-- A transaction saves a used amount at most once, as its last write and within the
total, and after one that changes it the call can only fail by a failing statement. -/
structure Shape (k : ℤ) (b : List Write) (next : Prog) : Prop where
  saves : (∀ read delta used, .saveSub read delta used ∉ b) ∨
    ∃ b₁ read delta used, b = b₁ ++ [.saveSub read delta used] ∧
      (∀ read delta used, .saveSub read delta used ∉ b₁) ∧
      (0 < read.amountTotal → used ≤ read.amountTotal)
  settles : weigh (deltaOn k) b ≠ 0 → next.Succeeds rules

variable {k : ℤ} {b : List Write}

/-- No used amount has been saved so far. -/
def Unsaved (b : List Write) : Prop := ∀ read delta used, .saveSub read delta used ∉ b

theorem Unsaved.weigh (h : Unsaved b) : weigh (deltaOn k) b = 0 := by
  refine List.sum_eq_zero fun x hx ↦ ?_
  obtain ⟨w, hw, rfl⟩ := List.mem_map.mp hx
  cases w with
  | saveSub read delta used => exact absurd hw (h read delta used)
  | resetSub read new => rfl
  | createRecord record => rfl
  | saveRecord record => rfl

theorem Unsaved.append {w : Write} (h : Unsaved b) (hw : ∀ read delta used, w ≠ .saveSub read delta used) :
    Unsaved (b ++ [w]) := by
  intro read delta used hmem
  rcases List.mem_append.mp hmem with hb | hl
  · exact h read delta used hb
  · exact hw read delta used (List.mem_singleton.mp hl).symm

theorem fail_commits (e : Error) : (fail e).Commits (Shape k) b := trivial

theorem finish_commits (h : Unsaved b) : finish.Commits (Shape k) b :=
  ⟨⟨.inl h, fun hne ↦ absurd h.weigh hne⟩, trivial, trivial⟩

theorem save_commits {read : UserSubscription} {delta used : ℤ} {next : Prog} (h : Unsaved b)
    (hfits : 0 < read.amountTotal → used ≤ read.amountTotal) (hs : next.Succeeds rules)
    (hn : next.Commits (Shape k) []) :
    (Program.write (.saveSub read delta used) (.commit next (fail .database))
      (fail .database)).Commits (Shape k) b :=
  ⟨⟨⟨.inr ⟨b, read, delta, used, rfl, h, hfits⟩, fun _ ↦ hs⟩, hn, trivial⟩, trivial⟩

theorem answerDuplicate_commits (requestId : String) (h : Unsaved b) :
    (answerDuplicate requestId).Commits (Shape k) b := by
  refine ⟨fun s ↦ ?_, trivial⟩
  dsimp only
  split
  · trivial
  · split_ifs
    · trivial
    · exact finish_commits h

theorem consumeFrom_commits (requestId : String) (userId amount : ℤ) {sub : UserSubscription}
    (h : Unsaved b) (hfits : ¬(0 < sub.amountTotal ∧ sub.amountTotal - sub.amountUsed < amount)) :
    (consumeFrom requestId userId amount sub).Commits (Shape k) b := by
  refine ⟨?_, answerDuplicate_commits requestId h⟩
  refine save_commits (h.append (by intro _ _ _ h; cases h)) ?_ rfl trivial
  intro hpos
  omega

theorem consumeFirst_commits (cal : Calendar) (requestId : String) (userId amount now : ℤ)
    (candidates : List UserSubscription) (h : Unsaved b) :
    (consumeFirst cal requestId userId amount now candidates).Commits (Shape k) b := by
  induction candidates generalizing b with
  | nil => trivial
  | cons candidate rest ih =>
    have hpay (sub : UserSubscription) {b : List Write} (h : Unsaved b) :
        (if 0 < sub.amountTotal ∧ sub.amountTotal - sub.amountUsed < amount then
          consumeFirst cal requestId userId amount now rest
        else consumeFrom requestId userId amount sub).Commits (Shape k) b := by
      split_ifs with hshort
      · exact ih h
      · exact consumeFrom_commits requestId userId amount h hshort
    refine ⟨fun s ↦ ?_, trivial⟩
    dsimp only
    split
    · trivial
    split
    · exact hpay candidate h
    · exact ⟨hpay _ (h.append (by intro _ _ _ h; cases h)), trivial⟩

theorem postConsumeDelta_commits (id delta : ℤ) {next : Prog} (hs : next.Succeeds rules)
    (hn : next.Commits (Shape k) []) : (postConsumeDelta id delta next).Commits (Shape k) [] := by
  unfold postConsumeDelta
  split_ifs
  · trivial
  · exact hn
  refine ⟨fun s ↦ ?_, trivial⟩
  dsimp only
  split
  · trivial
  split_ifs with hfits
  · trivial
  · exact save_commits (by intro _ _ _ h; cases h) (by omega) hs hn

theorem program_commits (c : Call) : c.program.Commits (Shape k) [] := by
  have hnil : Unsaved [] := by
    intro _ _ _ h
    cases h
  cases c with
  | preConsume cal requestId userId amount now =>
    simp only [Call.program, preConsumeUserSubscription]
    split_ifs
    · trivial
    · trivial
    · trivial
    refine ⟨fun s ↦ ?_, trivial⟩
    dsimp only
    split
    · split_ifs
      · trivial
      refine ⟨fun s ↦ ?_, trivial⟩
      dsimp only
      split
      · trivial
      · exact finish_commits hnil
    · refine ⟨fun s ↦ ?_, trivial⟩
      dsimp only
      split_ifs
      · trivial
      · exact consumeFirst_commits cal requestId userId amount now _ hnil
  | postConsume id delta => exact postConsumeDelta_commits id delta rfl trivial
  | refund requestId =>
    simp only [Call.program, refundSubscriptionPreConsume]
    split_ifs
    · trivial
    refine ⟨fun s ↦ ?_, trivial⟩
    dsimp only
    split
    · trivial
    rename_i record hrecord
    have hmark : (Program.write (.saveRecord { record with status := .refunded }) finish
        (fail .database)).Commits (Shape k) [] := by
      refine ⟨finish_commits (hnil.append ?_), trivial⟩
      intro _ _ _ h
      cases h
    split_ifs
    · exact finish_commits hnil
    · exact hmark
    · exact postConsumeDelta_commits _ _ ⟨fun _ ↦ rfl, rfl⟩ hmark

end Shape

section Main

variable {k : ℤ} {s : Store} {b : List Write}

theorem applyAll_append (b b' : List Write) (s : Store) :
    rules.applyAll (b ++ b') s = rules.applyAll b' (rules.applyAll b s) :=
  List.foldl_append

/-- Fitting writes of which none saves a used amount leave the subscription alone. -/
theorem find_applyAll_unsaved (hu : Unsaved b)
    (hf : ∀ read new, .resetSub read new ∈ b → new.id ≠ k) :
    (rules.applyAll b s).subs.find k = s.subs.find k := by
  induction b generalizing s with
  | nil => rfl
  | cons w b ih =>
    have hu' : Unsaved b := fun read delta used h ↦ hu read delta used (List.mem_cons_of_mem w h)
    have hf' : ∀ read new, .resetSub read new ∈ b → new.id ≠ k :=
      fun read new h ↦ hf read new (List.mem_cons_of_mem w h)
    have hw : (apply w s).subs.find k = s.subs.find k := by
      cases w with
      | resetSub read new => exact Table.find_save_of_ne _ (hf read new List.mem_cons_self)
      | saveSub read delta used => exact absurd List.mem_cons_self (hu read delta used)
      | createRecord record => rfl
      | saveRecord record => rfl
    exact (ih hu' hf').trans hw

/-- What a fitting transaction leaves of the subscription. -/
theorem find_applyAll {next : Prog} (hs : Shape k b next) (hf : Fresh k s b) :
    (rules.applyAll b s).subs.find k = s.subs.find k ∧ weigh (deltaOn k) b = 0 ∨
      ∃ (row read : UserSubscription) (used : ℤ), s.subs.find k = some row ∧
        (rules.applyAll b s).subs.find k = some { read with amountUsed := used } ∧
        used = row.amountUsed + weigh (deltaOn k) b ∧
        (0 < read.amountTotal → used ≤ read.amountTotal) := by
  rcases hs.saves with hu | ⟨b₁, read, delta, used, rfl, hu, hfits⟩
  · exact .inl ⟨find_applyAll_unsaved hu hf.1, Unsaved.weigh hu⟩
  have hf₁ : ∀ read new, .resetSub read new ∈ b₁ → new.id ≠ k :=
    fun read new h ↦ hf.1 read new (List.mem_append_left _ h)
  have hkeep := find_applyAll_unsaved (s := s) hu hf₁
  have hlast : rules.applyAll (b₁ ++ [.saveSub read delta used]) s =
      apply (.saveSub read delta used) (rules.applyAll b₁ s) := applyAll_append _ _ s
  have hw : weigh (deltaOn k) (b₁ ++ [.saveSub read delta used]) =
      if read.id = k then delta else 0 := by
    rw [weigh_append, Unsaved.weigh hu]
    simp [weigh, deltaOn]
  rw [hlast, hw]
  by_cases hk : read.id = k
  · obtain ⟨⟨row, hrow, hread⟩, hused⟩ :=
      hf.2 read delta used (List.mem_append_right _ (List.mem_singleton.mpr rfl)) hk
    refine .inr ⟨row, read, used, hrow, ?_, ?_, hfits⟩
    · simp only [apply]
      rw [Table.find_save, if_pos hk, hkeep, hrow]
      rfl
    · rw [if_pos hk, hread, hused]
  · left
    rw [if_neg hk]
    refine ⟨?_, rfl⟩
    have hsave := Table.find_save_of_ne (rules.applyAll b₁ s).subs
      (a := { read with amountUsed := used }) hk
    exact hsave.trans hkeep

theorem used_applyAll {next : Prog} (hs : Shape k b next) (hf : Fresh k s b) :
    (rules.applyAll b s).used k = s.used k + weigh (deltaOn k) b := by
  rcases find_applyAll hs hf with ⟨hsame, hz⟩ | ⟨row, read, used, hrow, hnew, hused, _⟩
  · simp [Store.used, hsame, hz]
  · simp [Store.used, hrow, hnew, hused]

theorem within_applyAll {next : Prog} (h : Within k s) (hs : Shape k b next) (hf : Fresh k s b) :
    Within k (rules.applyAll b s) := by
  rcases find_applyAll hs hf with ⟨hsame, _⟩ | ⟨row, read, used, _, hnew, _, hfits⟩
  · unfold Within
    rw [hsame]
    exact h
  · intro row' hrow'
    rw [hnew] at hrow'
    cases hrow'
    exact hfits

/-- No update of a subscription's used amount is lost in a state of a run. -/
def LosesNoUpdate (k used₀ : ℤ) (sys : System Store Write Error) : Prop :=
  (sys.Finished → sys.store.used k = used₀ + sys.granted (deltaOn k)) ∧ Within k sys.store

/-- The step is no commit on top of a used amount other than the one read, no clamped
one, and no failure of a call that has already committed its delta. -/
def Clean (k : ℤ) (sys : System Store Write Error) (m : Move) : Prop :=
  (∀ b, sys.commits m = some b → Fresh k sys.store b) ∧ NoLateFailure (deltaOn k) sys m

/-- One subscription, of which nothing is used. -/
def unusedSub : Store where
  plans := .empty
  subs := .single
    { id := 1, userId := 1, planId := 1, amountTotal := 100, amountUsed := 0, endTime := 1000 }
  records := .empty

/-- A step that commits nothing and does not fail is clean. -/
theorem clean_of_none {sys : System Store Write Error} {m : Move} (h : sys.commits m = none)
    (hf : m.fails = false) : Clean k sys m := by
  refine ⟨fun b hb ↦ ?_, fun hfails ↦ ?_⟩
  · rw [h] at hb
    cases hb
  · rw [hf] at hfails
    cases hfails

theorem clean_of_save {sys : System Store Write Error} {m : Move} {read row : UserSubscription}
    {delta used : ℤ} (h : sys.commits m = some [.saveSub read delta used]) (hf : m.fails = false)
    (hrow : sys.store.subs.find k = some row) (hread : row.amountUsed = read.amountUsed)
    (hused : used = read.amountUsed + delta) : Clean k sys m := by
  refine ⟨fun b hb ↦ ?_, fun hfails ↦ ?_⟩
  · rw [h] at hb
    cases hb
    refine ⟨?_, ?_⟩
    · intro _ _ hmem
      simp at hmem
    · intro _ _ _ hmem _
      simp only [List.mem_singleton, Write.saveSub.injEq] at hmem
      obtain ⟨rfl, rfl, rfl⟩ := hmem
      exact ⟨⟨row, hrow, hread⟩, hused⟩
  · rw [hf] at hfails
    cases hfails

end Main

end AllAiTools.NewApi.Model.AmountUsed
