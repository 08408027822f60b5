import AllAiTools.NewApi.Service.TaskPolling

namespace AllAiTools.NewApi.Service.TaskBilledOnce

open Foundation Foundation.Run Foundation.CompareAndSet Foundation.Compensation Model.AsyncTask
open Funding TaskBilling TaskPolling

/-- A failed task whose pre-consumed quota has to be given back. -/
def Owes (t : Task) : Prop :=
  t.status = taskStatusFailure ∧ t.quota ≠ 0 ∧ isLegacy t = false

def terms : Terms Task where
  Failed t := t.status = taskStatusFailure
  Owes := Owes
  failed_of_owes h := h.1

def stage : Phase → Stage
  | .refunding _ _ => .due
  | .saving _ true => .unsaved
  | _ => .clear

/-- The system as a compensation: the refunds pay for the failures of the row. -/
def ledger (s : System) : State Task ℕ where
  row := s.row
  paid := s.refunds.length
  stage p := stage (s.phase p)

/-- A task has been refunded at most once, it has been refunded only if it has
failed, and if it has failed it has been refunded; the process that is between the
two statements of one of these steps excepted. -/
structure BilledOnce (s : System) : Prop where
  refunded_once : s.refunds.length ≤ 1
  failed_of_refunded : s.refunds ≠ [] →
    s.row.status = taskStatusFailure ∨ ∃ p t, s.phase p = .saving t true
  refunded_of_failed : s.row.status = taskStatusFailure → s.row.quota ≠ 0 →
    isLegacy s.row = false → s.refunds.length = 1 ∨ ∃ p t poller, s.phase p = .refunding t poller

/-- A refund has been paid whose failure is not yet in the row. -/
def Unsaved (s : System) : Prop := ∃ p t, s.phase p = .saving t true

/-- A refund has been paid or is the next statement of a process. -/
def Started (s : System) : Prop :=
  s.refunds ≠ [] ∨ ∃ p t poller, s.phase p = .refunding t poller

/-- The steps under which a task is billed once. -/
def Keeps (env : Env) (s : System) : Event → Prop
  | .load _ | .loadTimedOut _ _ | .loadFetch _ | .settle _ _ _ => True
  | .sweep p _ failed => ∀ t, s.phase p = .sweeping t → failed = false →
      s.row.status = t.status → t.quota ≠ 0 → isLegacy t = false → ¬ Unsaved s
  | .sunoItem p item f => ∀ t, s.phase p = .polling t → taskNeedsUpdate env t item = true →
      item.fails t = true → Pays f (item.fill t) s.world →
        (item.fill t).status = taskStatusFailure ∧ ¬ Started s
  | .sunoSave p failed => ∀ t refunded, s.phase p = .saving t refunded →
      if failed then refunded = true → s.row.status = taskStatusFailure
      else if t.status = taskStatusFailure then Owes t → Started s
      else Started s → Unsaved s
  | .video p answer now failed => ∀ t a info t', s.phase p = .polling t → answer = some a →
      a.result = some info → info.apply env now { t with data := a.data } = some t' →
        if t.status = taskStatusFailure then
          if t'.status = taskStatusFailure then
            t.quota ≠ 0 → s.row.status = taskStatusFailure ∧ ¬ Started s
          else failed = false → s.row.status = t.status → Started s → Unsaved s
        else t'.status = taskStatusFailure → t.quota ≠ 0 → failed = false →
          s.row.status = t.status → ¬ Unsaved s
  | .refund p f => ∀ t poller, s.phase p = .refunding t poller → Pays f t s.world ∨ ¬ Owes s.row
  | .realtime p answer failed => ∀ t info, s.phase p = .fetching t → answer = some info →
      failed = false → s.row.status = t.status → t.snapshot ≠ (info.fetched env t).snapshot →
        if (info.fetched env t).status = taskStatusFailure then
          Owes (info.fetched env t) → Started s
        else t.status = taskStatusFailure → Started s → Unsaved s
  | .bulkFail p cause failed => ∀ t, s.phase p = .polling t → cause.applies t = true →
      failed = false → s.row.quota ≠ 0 → isLegacy s.row = false → Started s

/-- What a process holds: a sweep's copy was unfinished, and a refund that waits for
its save is a failure's. -/
def Valid : Phase → Prop
  | .sweeping t => t.status ≠ taskStatusFailure
  | .saving t true => t.status = taskStatusFailure
  | _ => True

structure Inv (s : System) : Prop where
  sound : Sound terms (ledger s)
  valid : ∀ p, Valid (s.phase p)

theorem stage_eq_due {ph : Phase} : stage ph = .due ↔ ∃ t poller, ph = .refunding t poller := by
  cases ph with
  | refunding t poller => exact ⟨fun _ ↦ ⟨t, poller, rfl⟩, fun _ ↦ rfl⟩
  | saving t refunded => cases refunded <;> simp [stage]
  | _ => simp [stage]

theorem stage_eq_unsaved {ph : Phase} : stage ph = .unsaved ↔ ∃ t, ph = .saving t true := by
  cases ph with
  | saving t refunded => cases refunded <;> simp [stage]
  | _ => simp [stage]

theorem started_ledger (s : System) : (ledger s).Started ↔ Started s := by
  simp only [State.Started, Started, ledger, stage_eq_due, ne_eq, List.length_eq_zero_iff]

theorem mayLeave_ledger (s : System) : (ledger s).MayLeave ↔ (Started s → Unsaved s) := by
  rw [State.MayLeave, started_ledger]
  simp only [Unsaved, ledger, stage_eq_unsaved]

theorem Inv.billedOnce {s : System} (h : Inv s) : BilledOnce s := by
  refine ⟨h.sound.paid_le, fun hne ↦ ?_, fun hf hq hl ↦ ?_⟩
  · have hlen : s.refunds.length ≠ 0 := by simpa using hne
    rcases h.sound.failed hlen with hf | ⟨p, hp⟩
    · exact .inl hf
    · obtain ⟨t, ht⟩ := stage_eq_unsaved.mp hp
      exact .inr ⟨p, t, ht⟩
  · rcases h.sound.paid ⟨hf, hq, hl⟩ with hlen | ⟨p, hp⟩
    · have hle : s.refunds.length ≤ 1 := h.sound.paid_le
      have hpos : s.refunds.length ≠ 0 := hlen
      exact .inl (by omega)
    · obtain ⟨t, poller, ht⟩ := stage_eq_due.mp hp
      exact .inr ⟨p, t, poller, ht⟩

theorem inv_start {row : Task} (h : row.status ≠ taskStatusFailure) (world : World) :
    Inv (System.start row world) := by
  refine ⟨sound_start fun howes ↦ h howes.1, fun p ↦ ?_⟩
  trivial

/-- A row that has not failed and a refund that has started: its failure is unsaved. -/
theorem unsaved_of_started {s : System} (h : Inv s) (hrow : s.row.status ≠ taskStatusFailure)
    (hs : Started s) : Unsaved s := by
  rcases (started_ledger s).mpr hs with hpaid | ⟨p, hp⟩
  · rcases h.sound.failed hpaid with hf | ⟨p, hp⟩
    · exact absurd hf hrow
    · exact ⟨p, stage_eq_unsaved.mp hp⟩
  · exact absurd (h.sound.due hp).1 hrow

theorem ledger_enter (s : System) (p : ℕ) (ph : Phase) :
    ledger (s.enter p ph) =
      { ledger s with stage := Function.update (ledger s).stage p (stage ph) } := by
  have h : (fun q ↦ stage (Function.update s.phase p ph q)) =
      Function.update (ledger s).stage p (stage ph) := by
    funext q
    exact Function.apply_update (fun _ ↦ stage) s.phase p ph q
  rw [← h]
  rfl

theorem update_stage_self {s : System} {p : ℕ} {st : Stage} (h : stage (s.phase p) = st) :
    Function.update (ledger s).stage p st = (ledger s).stage := by
  rw [← h]
  exact Function.update_eq_self p _

/-- The refund is paid and counted, or it is neither. -/
theorem refund_cases (s : System) (f : BillingFaults) (t : Task) :
    (Pays f t s.world ∧ (refundTaskQuota f t s.world).1 = true ∧
        s.refund f t = { s with
          world := (refundTaskQuota f t s.world).2, refunds := t.quota :: s.refunds }) ∨
      (¬ Pays f t s.world ∧ (refundTaskQuota f t s.world).1 = false ∧
        s.refund f t = { s with world := (refundTaskQuota f t s.world).2 }) := by
  by_cases h : Pays f t s.world
  · have hpaid := (refundTaskQuota_fst f t s.world).mpr h
    exact .inl ⟨h, hpaid, by simp only [System.refund, hpaid, if_true]⟩
  · have hpaid : (refundTaskQuota f t s.world).1 = false := by
      rw [← Bool.not_eq_true, refundTaskQuota_fst]
      exact h
    exact .inr ⟨h, hpaid, by simp only [System.refund, hpaid, Bool.false_eq_true, if_false]⟩

namespace Inv

variable {s : System} {p : ℕ} {ph : Phase}

theorem valid_enter (h : Inv s) (hv : Valid ph) (q : ℕ) :
    Valid (Function.update s.phase p ph q) := by
  by_cases hq : q = p
  · rw [hq, Function.update_self]
    exact hv
  · rw [Function.update_of_ne hq]
    exact h.valid q

/-- The money of the user is not part of the compensation. -/
theorem world (h : Inv s) (world : World) : Inv { s with world } := ⟨h.sound, h.valid⟩

theorem row (h : Inv s) (row : Task) (howes : Owes row → Started s)
    (hleave : row.status ≠ taskStatusFailure → Started s → Unsaved s) : Inv { s with row } := by
  have hok : Ok terms (ledger s) 0 (.write row) :=
    ⟨fun ho ↦ (started_ledger s).mpr (howes ho), fun hr ↦ (mayLeave_ledger s).mpr (hleave hr)⟩
  exact ⟨h.sound.act hok, h.valid⟩

/-- A step between two places where nothing is due. -/
theorem enter (h : Inv s) (hp : stage (s.phase p) = .clear) (ph : Phase)
    (hph : stage ph = .clear) (hv : Valid ph) : Inv (s.enter p ph) := by
  refine ⟨?_, h.valid_enter hv⟩
  rw [ledger_enter, hph, update_stage_self hp]
  exact h.sound

theorem claim (h : Inv s) (ph : Phase) (hph : stage ph = .due) (hv : Valid ph) {row : Task}
    (hrow : row.status = taskStatusFailure) (hn : ¬ Started s) :
    Inv ({ s with row }.enter p ph) := by
  refine ⟨?_, h.valid_enter hv⟩
  have hok : Ok terms (ledger s) p (.claim row) := ⟨hrow, mt (started_ledger s).mp hn⟩
  have hact := h.sound.act hok
  rw [ledger_enter, hph]
  exact hact

theorem pay (h : Inv s) {t : Task} {poller : Bool} (hp : s.phase p = .refunding t poller)
    (ph : Phase) (hph : stage ph = .clear) (hv : Valid ph) (world : World) (quota : ℤ) :
    Inv ({ s with world, refunds := quota :: s.refunds }.enter p ph) := by
  refine ⟨?_, h.valid_enter hv⟩
  have hok : Ok terms (ledger s) p .pay := stage_eq_due.mpr ⟨t, poller, hp⟩
  have hact := h.sound.act hok
  rw [ledger_enter, hph]
  exact hact

theorem payFirst (h : Inv s) (hn : ¬ Started s) (ph : Phase) (hph : stage ph = .unsaved)
    (hv : Valid ph) (world : World) (quota : ℤ) :
    Inv ({ s with world, refunds := quota :: s.refunds }.enter p ph) := by
  refine ⟨?_, h.valid_enter hv⟩
  have hok : Ok terms (ledger s) p .payFirst := mt (started_ledger s).mp hn
  have hact := h.sound.act hok
  rw [ledger_enter, hph]
  exact hact

theorem save (h : Inv s) {t : Task} (hp : s.phase p = .saving t true) (ph : Phase)
    (hph : stage ph = .clear) (hv : Valid ph) {row : Task}
    (hrow : row.status = taskStatusFailure) : Inv ({ s with row }.enter p ph) := by
  refine ⟨?_, h.valid_enter hv⟩
  have hok : Ok terms (ledger s) p (.save row) := ⟨stage_eq_unsaved.mpr ⟨t, hp⟩, hrow⟩
  have hact := h.sound.act hok
  rw [ledger_enter, hph]
  exact hact

theorem drop (h : Inv s) {t : Task} {poller : Bool} (hp : s.phase p = .refunding t poller)
    (howes : ¬ Owes s.row) (ph : Phase) (hph : stage ph = .clear) (hv : Valid ph) :
    Inv (s.enter p ph) := by
  refine ⟨?_, h.valid_enter hv⟩
  have hok : Ok terms (ledger s) p .drop := .inl ⟨stage_eq_due.mpr ⟨t, poller, hp⟩, howes⟩
  have hact := h.sound.act hok
  rw [ledger_enter, hph]
  exact hact

/-- A row that is not failed lets a failure claim its refund, unless one is unsaved. -/
theorem not_started (h : Inv s) (hrow : s.row.status ≠ taskStatusFailure) (hu : ¬ Unsaved s) :
    ¬ Started s :=
  fun hs ↦ hu (unsaved_of_started h hrow hs)

theorem sweep (h : Inv s) {env : Env} {t : Task} (hp : s.phase p = .sweeping t) (now : ℤ)
    {failed : Bool} (hk : failed = false → s.row.status = t.status → t.quota ≠ 0 →
      isLegacy t = false → ¬ Unsaved s) : Inv (s.sweep env p now failed t) := by
  have hclear : stage (s.phase p) = .clear := by rw [hp]; rfl
  have hstatus : t.status ≠ taskStatusFailure := by
    have hv := h.valid p
    rwa [hp] at hv
  unfold System.sweep Task.updateWithStatus
  dsimp only
  rcases compareAndSet_cases Task.status (sweptTask env now t) t.status failed s.row with
    ⟨he, hf, hrow⟩ | he | he
  · rw [he]
    dsimp only
    by_cases hdue : isLegacy t = false ∧ t.quota ≠ 0
    · rw [if_pos hdue]
      obtain ⟨hl, hq⟩ := hdue
      exact h.claim (.refunding _ false) rfl trivial rfl (h.not_started (hrow ▸ hstatus) (hk hf hrow hq hl))
    · rw [if_neg hdue]
      refine (h.row (sweptTask env now t) (fun ho ↦ ?_) (fun hne ↦ absurd rfl hne)).enter hclear
        .idle rfl trivial
      obtain ⟨-, hq, hl⟩ := ho
      exact absurd ⟨hl, hq⟩ hdue
  · rw [he]
    exact h.enter hclear .idle rfl trivial
  · rw [he]
    exact h.enter hclear .idle rfl trivial

theorem sunoItem (h : Inv s) {env : Env} {t : Task} (hp : s.phase p = .polling t)
    {item : SunoDataResponse} {f : BillingFaults}
    (hk : taskNeedsUpdate env t item = true → item.fails t = true → Pays f (item.fill t) s.world →
      (item.fill t).status = taskStatusFailure ∧ ¬ Started s) :
    Inv (s.sunoItem env p item f t) := by
  have hclear : stage (s.phase p) = .clear := by rw [hp]; rfl
  unfold System.sunoItem
  by_cases hneeds : taskNeedsUpdate env t item = true
  · rw [hneeds, Bool.not_true, if_neg Bool.false_ne_true]
    by_cases hfails : item.fails t = true
    · rw [if_pos hfails]
      rcases refund_cases s f (item.fill t) with ⟨hpays, hpaid, he⟩ | ⟨-, hpaid, he⟩
      · obtain ⟨hstatus, hn⟩ := hk hneeds hfails hpays
        rw [hpaid, he]
        exact h.payFirst hn (.saving (item.apply t) true) rfl hstatus _ _
      · rw [hpaid, he]
        exact (h.world (refundTaskQuota f (item.fill t) s.world).2).enter hclear
          (.saving (item.apply t) false) rfl trivial
    · rw [if_neg hfails]
      exact h.enter hclear (.saving (item.apply t) false) rfl trivial
  · rw [Bool.not_eq_true] at hneeds
    rw [hneeds, Bool.not_false, if_pos rfl]
    exact h

theorem sunoSave (h : Inv s) {t : Task} {refunded failed : Bool}
    (hp : s.phase p = .saving t refunded)
    (hk : if failed then refunded = true → s.row.status = taskStatusFailure
      else if t.status = taskStatusFailure then Owes t → Started s
      else Started s → Unsaved s) :
    Inv ({ s with row := (t.update failed s.row).2 }.enter p (.polling t)) := by
  cases refunded with
  | true =>
    have hstatus : t.status = taskStatusFailure := by
      have hv := h.valid p
      rwa [hp] at hv
    cases failed with
    | true => exact h.save hp (.polling t) rfl trivial (hk rfl)
    | false => exact h.save hp (.polling t) rfl trivial hstatus
  | false =>
    have hclear : stage (s.phase p) = .clear := by rw [hp]; rfl
    cases failed with
    | true => exact h.enter hclear (.polling t) rfl trivial
    | false =>
      rw [if_neg Bool.false_ne_true] at hk
      refine (h.row t (fun ho ↦ ?_) (fun hne ↦ ?_)).enter hclear (.polling t) rfl trivial
      · have hf : t.status = taskStatusFailure := ho.1
        rw [if_pos hf] at hk
        exact hk ho
      · have hf : t.status ≠ taskStatusFailure := hne
        rwa [if_neg hf] at hk

theorem refund (h : Inv s) {t : Task} {poller : Bool} {f : BillingFaults}
    (hp : s.phase p = .refunding t poller) (hk : Pays f t s.world ∨ ¬ Owes s.row) (ph : Phase)
    (hph : stage ph = .clear) (hv : Valid ph) : Inv ((s.refund f t).enter p ph) := by
  rcases refund_cases s f t with ⟨-, -, he⟩ | ⟨hpays, -, he⟩
  · rw [he]
    exact h.pay hp ph hph hv _ _
  · rw [he]
    exact (h.world (refundTaskQuota f t s.world).2).drop hp (hk.resolve_left hpays) ph hph hv

/-- After its update a poller refunds the failure, unless there is nothing to refund. -/
theorem billing_cases (t : Task) (totalTokens : ℤ) :
    (stage (billing t totalTokens) = .due ∧ t.status = taskStatusFailure ∧ t.quota ≠ 0) ∨
      (stage (billing t totalTokens) = .clear ∧
        (t.status = taskStatusFailure → t.quota = 0)) := by
  unfold billing
  by_cases hs : t.status = taskStatusSuccess
  · rw [if_pos hs]
    refine .inr ⟨rfl, fun hf ↦ ?_⟩
    rw [hs] at hf
    exact absurd hf (by decide)
  · rw [if_neg hs]
    by_cases hd : t.status = taskStatusFailure ∧ t.quota ≠ 0
    · rw [if_pos hd]
      exact .inl ⟨rfl, hd⟩
    · rw [if_neg hd]
      exact .inr ⟨rfl, fun hf ↦ by_contra fun hq ↦ hd ⟨hf, hq⟩⟩

theorem valid_billing (t : Task) (totalTokens : ℤ) : Valid (billing t totalTokens) := by
  unfold billing
  split_ifs <;> trivial

/-- An update of a poller and what it does next, when the row has become the copy or
has stayed as it was. -/
theorem bill (h : Inv s) (hclear : stage (s.phase p) = .clear) {row t : Task} (totalTokens : ℤ)
    (hrow : row = t ∨ row = s.row)
    (hdue : t.status = taskStatusFailure → t.quota ≠ 0 →
      row.status = taskStatusFailure ∧ ¬ Started s)
    (hleave : row = t → t.status ≠ taskStatusFailure → Started s → Unsaved s) :
    Inv ({ s with row }.enter p (billing t totalTokens)) := by
  have hv := valid_billing t totalTokens
  rcases billing_cases t totalTokens with ⟨hst, hf, hq⟩ | ⟨hst, hz⟩
  · obtain ⟨hr, hn⟩ := hdue hf hq
    exact h.claim _ hst hv hr hn
  · rcases hrow with rfl | rfl
    · exact (h.row row (fun ho ↦ absurd (hz ho.1) ho.2.1) (hleave rfl)).enter hclear _ hst hv
    · exact h.enter hclear _ hst hv

theorem apply_quota {info : TaskInfo} {env : Env} {now : ℤ} {t t' : Task}
    (h : info.apply env now t = some t') : t'.quota = t.quota := by
  unfold TaskInfo.apply at h
  dsimp only at h
  split_ifs at h <;> cases h <;> rfl

theorem video (h : Inv s) {env : Env} {t : Task} (hp : s.phase p = .polling t)
    {answer : Option Answer} {now : ℤ} {failed : Bool}
    (hk : ∀ a info t', answer = some a → a.result = some info →
      info.apply env now { t with data := a.data } = some t' →
        if t.status = taskStatusFailure then
          if t'.status = taskStatusFailure then
            t.quota ≠ 0 → s.row.status = taskStatusFailure ∧ ¬ Started s
          else failed = false → s.row.status = t.status → Started s → Unsaved s
        else t'.status = taskStatusFailure → t.quota ≠ 0 → failed = false →
          s.row.status = t.status → ¬ Unsaved s) :
    Inv (s.video env p answer now failed t) := by
  have hclear : stage (s.phase p) = .clear := by rw [hp]; rfl
  unfold System.video Task.updateWithStatus
  cases answer with
  | none => exact h
  | some a =>
    dsimp only
    cases hr : a.result with
    | none => exact h.enter hclear (.polling _) rfl trivial
    | some info =>
      dsimp only
      cases hi : info.apply env now { t with data := a.data } with
      | none => exact h.enter hclear (.polling _) rfl trivial
      | some t' =>
        have hkt := hk a info t' rfl hr hi
        have hq : t'.quota = t.quota := (apply_quota hi :)
        have hleave : failed = false → s.row.status = t.status →
            t'.status ≠ taskStatusFailure → Started s → Unsaved s := by
          intro hf hrow hne
          by_cases ht : t.status = taskStatusFailure
          · rw [if_pos ht, if_neg hne] at hkt
            exact hkt hf hrow
          · exact unsaved_of_started h (hrow ▸ ht)
        dsimp only
        by_cases hdone : (t'.status = taskStatusSuccess ∨ t'.status = taskStatusFailure) ∧
            t.status ≠ t'.status
        · rw [if_pos hdone]
          rcases compareAndSet_cases Task.status t' t.status failed s.row with ⟨he, hf, hrow⟩ | he | he
          · rw [he]
            refine h.bill hclear info.totalTokens (.inl rfl) (fun hs hne ↦ ⟨hs, ?_⟩)
              (fun _ ↦ hleave hf hrow)
            have ht : t.status ≠ taskStatusFailure := hs ▸ hdone.2
            rw [if_neg ht] at hkt
            exact h.not_started (hrow ▸ ht) (hkt hs (hq ▸ hne) hf hrow)
          · rw [he]
            exact h.enter hclear (.polling t') rfl trivial
          · rw [he]
            exact h.enter hclear (.polling t') rfl trivial
        · rw [if_neg hdone]
          -- A failure that changes no status is refunded without a guard.
          have hdue : t'.status = taskStatusFailure → t'.quota ≠ 0 →
              s.row.status = taskStatusFailure ∧ ¬ Started s := by
            intro hs hne
            have ht : t.status = taskStatusFailure := by
              by_contra ht
              exact hdone ⟨.inr hs, fun heq ↦ ht (heq.trans hs)⟩
            rw [if_pos ht, if_pos hs] at hkt
            exact hkt (hq ▸ hne)
          by_cases hsnap : t.snapshot ≠ t'.snapshot
          · rw [if_pos hsnap]
            rcases compareAndSet_snd Task.status t' t.status failed s.row with ⟨he, hf, hrow⟩ | he
            · rw [he]
              exact h.bill hclear info.totalTokens (.inl rfl)
                (fun hs hne ↦ ⟨hs, (hdue hs hne).2⟩) (fun _ ↦ hleave hf hrow)
            · rw [he]
              refine h.bill hclear info.totalTokens (.inr rfl) hdue (fun heq hne ↦ ?_)
              exact unsaved_of_started h (heq ▸ hne)
          · rw [if_neg hsnap]
            refine h.bill hclear info.totalTokens (.inr rfl) hdue (fun heq hne ↦ ?_)
            exact unsaved_of_started h (heq ▸ hne)

theorem realtime (h : Inv s) {env : Env} {t : Task} (hp : s.phase p = .fetching t)
    {answer : Option TaskInfo} {failed : Bool}
    (hk : ∀ info, answer = some info → failed = false → s.row.status = t.status →
      t.snapshot ≠ (info.fetched env t).snapshot →
        if (info.fetched env t).status = taskStatusFailure then
          Owes (info.fetched env t) → Started s
        else t.status = taskStatusFailure → Started s → Unsaved s) :
    Inv (s.realtime env p answer failed t) := by
  have hclear : stage (s.phase p) = .clear := by rw [hp]; rfl
  unfold System.realtime Task.updateWithStatus
  cases answer with
  | none => exact h.enter hclear .idle rfl trivial
  | some info =>
    dsimp only
    by_cases hsnap : t.snapshot ≠ (info.fetched env t).snapshot
    · rw [if_pos hsnap]
      rcases compareAndSet_snd Task.status (info.fetched env t) t.status failed s.row with ⟨he, hf, hrow⟩ | he
      · rw [he]
        have hkt := hk info rfl hf hrow hsnap
        refine (h.row (info.fetched env t) (fun ho ↦ ?_) (fun hne ↦ ?_)).enter hclear .idle rfl
          trivial
        · rw [if_pos ho.1] at hkt
          exact hkt ho
        · rw [if_neg hne] at hkt
          by_cases ht : t.status = taskStatusFailure
          · exact hkt ht
          · exact unsaved_of_started h (hrow ▸ ht)
      · rw [he]
        exact h.enter hclear .idle rfl trivial
    · rw [if_neg hsnap]
      exact h.enter hclear .idle rfl trivial

theorem bulkFail (h : Inv s) {cause : BulkCause} {failed : Bool}
    (hk : failed = false → s.row.quota ≠ 0 → isLegacy s.row = false → Started s) :
    Inv { s with row := taskBulkUpdateByID cause.failReason failed s.row } := by
  cases failed with
  | true => exact h
  | false => exact h.row _ (fun ho ↦ hk rfl ho.2.1 ho.2.2) (fun hne ↦ absurd rfl hne)

theorem stage_of_free (hp : (s.phase p).free = true) : stage (s.phase p) = .clear := by
  cases hs : s.phase p with
  | idle | polling | sweeping | fetching => rfl
  | settling | refunding | saving =>
    rw [hs] at hp
    exact absurd hp Bool.false_ne_true

end Inv

/-- Every statement that meets its condition keeps the task billed once. -/
theorem inv_step {env : Env} {s : System} {e : Event} (h : Inv s) (hk : Keeps env s e) :
    Inv (step env s e) := by
  cases e with
  | load p =>
    dsimp only [step]
    split_ifs with hc
    · simp only [Bool.and_eq_true] at hc
      exact h.enter (Inv.stage_of_free hc.1) (.polling s.row) rfl trivial
    · exact h
  | loadTimedOut p now =>
    dsimp only [step]
    split_ifs with hc
    · simp only [Bool.and_eq_true] at hc
      obtain ⟨⟨hfree, -⟩, hto⟩ := hc
      exact h.enter (Inv.stage_of_free hfree) (.sweeping s.row) rfl
        (unfinished_status (timedOut_unfinished hto)).1
    · exact h
  | loadFetch p =>
    dsimp only [step]
    split_ifs with hc
    · exact h.enter (Inv.stage_of_free hc) (.fetching s.row) rfl trivial
    · exact h
  | sweep p now failed =>
    cases hp : s.phase p with
    | sweeping t =>
      simp only [step, hp]
      exact h.sweep hp now (hk t hp)
    | _ => simpa only [step, hp] using h
  | sunoItem p item f =>
    cases hp : s.phase p with
    | polling t =>
      simp only [step, hp]
      exact h.sunoItem hp (hk t hp)
    | _ => simpa only [step, hp] using h
  | sunoSave p failed =>
    cases hp : s.phase p with
    | saving t refunded =>
      simp only [step, hp]
      exact h.sunoSave hp (hk t refunded hp)
    | _ => simpa only [step, hp] using h
  | video p answer now failed =>
    cases hp : s.phase p with
    | polling t =>
      simp only [step, hp]
      exact h.video hp fun a info t' ↦ hk t a info t' hp
    | _ => simpa only [step, hp] using h
  | settle p f bill =>
    cases hp : s.phase p with
    | settling t totalTokens =>
      have hclear : stage (s.phase p) = .clear := by rw [hp]; rfl
      simp only [step, hp]
      exact (h.world (settleTaskBillingOnComplete f bill totalTokens t s.world).2).enter hclear
        (.polling _) rfl trivial
    | _ => simpa only [step, hp] using h
  | refund p f =>
    cases hp : s.phase p with
    | refunding t poller =>
      simp only [step, hp]
      refine h.refund hp (hk t poller hp) _ ?_ ?_
      · cases poller <;> rfl
      · cases poller <;> trivial
    | _ => simpa only [step, hp] using h
  | realtime p answer failed =>
    cases hp : s.phase p with
    | fetching t =>
      simp only [step, hp]
      exact h.realtime hp fun info ↦ hk t info hp
    | _ => simpa only [step, hp] using h
  | bulkFail p cause failed =>
    cases hp : s.phase p with
    | polling t =>
      simp only [step, hp]
      split_ifs with hc
      · exact h.bulkFail (hk t hp hc)
      · exact h
    | _ => simpa only [step, hp] using h

/-- In every state of a run whose statements meet their conditions, the task has been
billed once. -/
theorem billedOnce_run (env : Env) (row : Task) (world : World)
    (hrow : row.status = taskStatusNotStart) (trace : List Event)
    (hk : Along (step env) (Keeps env) (System.start row world) trace) :
    BilledOnce (run (step env) (System.start row world) trace) := by
  have hstart : Inv (System.start row world) := inv_start (by rw [hrow]; decide) world
  exact (hk.invariant Inv (fun _ _ ↦ inv_step) hstart).billedOnce

/-- A task of 500 of a user who has paid for it. -/
def paidTask : Task where
  taskID := "task_a"
  quota := 500
  status := taskStatusNotStart
  failReason := ""
  submitTime := 1772000000
  startTime := 0
  finishTime := 0
  progress := "0%"
  privateData := {}
  data := ""

def plainWorld : World := ⟨1000, 1000, 500, ⟨Table.empty, Table.empty, Table.empty⟩⟩

def plainEnv : Env := ⟨"", 30, id⟩

def noFaults : BillingFaults := ⟨false, fun _ ↦ false, "", false⟩

/-- A poller fails the task and refunds it. -/
def polledFailure : List Event :=
  [.load 0, .video 0 (some { data := "", taskResult := failTaskInfo "nsfw" }) 1772000100 false,
    .refund 0 noFaults]

theorem billedOnce_run_polled :
    BilledOnce (run (step plainEnv) (System.start paidTask plainWorld) polledFailure) ∧
      (run (step plainEnv) (System.start paidTask plainWorld) polledFailure).refunds = [500] := by
  refine ⟨billedOnce_run plainEnv paidTask plainWorld rfl polledFailure
    ⟨trivial, ?_, ?_, trivial⟩, by decide⟩
  · intro t a info t' ht _ _ _
    obtain rfl : paidTask = t := Phase.polling.inj ht
    rw [if_neg (by decide)]
    rintro - - - - ⟨p, t, hp⟩
    by_cases h0 : p = 0
    · subst h0
      cases hp
    · rw [step_phase_of_ne plainEnv _ h0] at hp
      cases hp
  · intro t poller ht
    obtain ⟨rfl, -⟩ := Phase.refunding.inj ht
    exact .inl ⟨by decide, rfl⟩

/-- A user's fetch is told that the task has failed. -/
def fetchedFailure : List Event :=
  [.loadFetch 0, .realtime 0 (some { status := taskStatusFailure }) false]

/-- The task has failed and nobody is going to refund it. -/
theorem fetchedFailure_not_refunded :
    ¬ BilledOnce (run (step plainEnv) (System.start paidTask plainWorld) fetchedFailure) := by
  intro h
  rcases h.refunded_of_failed (by decide) (by decide) (by decide) with hlen | ⟨p, t, poller, hp⟩
  · exact absurd hlen (by decide)
  · by_cases h0 : p = 0
    · subst h0
      cases hp
    · rw [run_phase_of_ne plainEnv (by simp [fetchedFailure, Event.process, h0])] at hp
      cases hp

end AllAiTools.NewApi.Service.TaskBilledOnce
