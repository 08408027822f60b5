import AllAiTools.NewApi.Controller.Midjourney

namespace AllAiTools.NewApi.Controller.MidjourneyConserves

open Foundation Foundation.Run Foundation.CompareAndSet Foundation.Compensation
open Model.MidjourneyTask Service.Funding Relay.MjproxyHandler Controller.Midjourney

/-- The poller no longer loads the task, which has ended in a status. -/
def EndedIn (status : String) (t : Midjourney) : Prop := t.progress = "100%" ∧ t.status = status

/-- What is left of the charge when the task ends: all of it in success, nothing in
failure once the poller has paid the refund it is at; the user never gains and the
poller never follows a nil task. -/
structure Conserves (w₀ : World) (charged : ℤ) (s : System) : Prop where
  never_positive : s.world.userQuota ≤ w₀.userQuota
  success : EndedIn "SUCCESS" s.row → s.world.userQuota - w₀.userQuota = -charged
  failure : EndedIn "FAILURE" s.row →
    s.world.userQuota = w₀.userQuota ∨ ∃ p t known, s.phase p = .refunding t known
  alive : s.crashed = false

/-- A refund has been paid or is the next statement of a poller. -/
def Started (s : System) : Prop :=
  s.refunds ≠ [] ∨ ∃ p t known, s.phase p = .refunding t known

/-- A row without a refund: a charged task ends in failure only when its refund has
started, and a task ends in success only when none has. -/
def WriteKeeps (charged : ℤ) (s : System) (t : Midjourney) : Prop :=
  (EndedIn "FAILURE" t → charged ≠ 0 → Started s) ∧ (EndedIn "SUCCESS" t → ¬ Started s)

/-- The statements under which the task conserves the money of its user. -/
def Keeps (marshal : Option (List String) → String) (charged : ℤ) (s : System) : Event → Prop
  | .load _ _ _ | .notifyLoad _ _ => True
  | .item p item now failed => ∀ task known, s.phase p = .polling task known →
      (holds task item.mjId = true ∨ item.mjId ∈ known) ∧
        ∀ t, task = some t → holds task item.mjId = true →
          checkMjTaskNeedUpdate marshal t (timedOut now t item) = true → failed = false →
            s.row.status = t.status →
              if failsTask (timedOut now t item) = true ∧ t.quota ≠ 0 then
                charged ≠ 0 ∧ ¬ Started s ∧ (timedOut now t item).status ≠ "SUCCESS"
              else WriteKeeps charged s (updatedTask marshal (timedOut now t item) t)
  | .refund p failed => ∀ t known, s.phase p = .refunding t known →
      failed = false ∨ ¬ EndedIn "FAILURE" s.row
  | .bulkFail p cause failed => ∀ task known, s.phase p = .polling task known →
      cause.reaches task known s.row = true → failed = false → charged ≠ 0 → Started s
  | .notifySave p failed => ∀ t req, s.phase p = .notifying t req → failed = false →
      WriteKeeps charged s (req.notified marshal t)

def terms (charged : ℤ) : Terms Midjourney where
  Failed t := ¬ EndedIn "SUCCESS" t
  Owes t := EndedIn "FAILURE" t ∧ charged ≠ 0
  failed_of_owes := by
    rintro t ⟨⟨-, hf⟩, -⟩ ⟨-, hs⟩
    rw [hf] at hs
    exact absurd hs (by decide)

def stage : Phase → Stage
  | .refunding _ _ => .due
  | _ => .clear

def ledger (s : System) : State Midjourney ℕ where
  row := s.row
  paid := s.refunds.length
  stage p := stage (s.phase p)

/-- A copy stores what the user was charged, and only a charge is refunded. -/
def Stores (charged : ℤ) : Phase → Prop
  | .polling (some t) _ | .notifying t _ => charged ≠ 0 → t.quota = charged
  | .refunding t _ => charged ≠ 0 ∧ t.quota = charged
  | _ => True

structure Inv (w : World) (charged : ℤ) (s : System) : Prop where
  sound : Sound (terms charged) (ledger s)
  stored : charged ≠ 0 → s.row.quota = charged
  stores : ∀ p, Stores charged (s.phase p)
  money : s.world.userQuota = w.userQuota + s.refunds.length * charged
  alive : s.crashed = false

theorem stage_eq_due {ph : Phase} : stage ph = .due ↔ ∃ t known, ph = .refunding t known := by
  cases ph <;> simp [stage]

theorem stage_ne_unsaved (ph : Phase) : stage ph ≠ .unsaved := by
  cases ph <;> simp [stage]

theorem started_ledger (s : System) : (ledger s).Started ↔ Started s := by
  simp only [State.Started, Started, ledger, stage_eq_due, ne_eq, List.length_eq_zero_iff]

theorem mayLeave_ledger (s : System) : (ledger s).MayLeave ↔ ¬ Started s := by
  rw [State.MayLeave, started_ledger]
  refine imp_congr_right fun _ ↦ iff_of_false ?_ not_false
  rintro ⟨p, hp⟩
  exact stage_ne_unsaved _ hp

theorem Inv.conserves {w₀ w : World} {charged : ℤ} {s : System} (h : Inv w charged s)
    (hw : w.userQuota = w₀.userQuota - charged) (hc : 0 ≤ charged) : Conserves w₀ charged s := by
  have hmoney := h.money
  have hle : s.refunds.length ≤ 1 := h.sound.paid_le
  rcases Nat.le_one_iff_eq_zero_or_eq_one.mp hle with hz | hone
  · rw [hz, Nat.cast_zero, zero_mul, add_zero] at hmoney
    refine ⟨by omega, fun _ ↦ by omega, fun hf ↦ ?_, h.alive⟩
    by_cases hcz : charged = 0
    · exact .inl (by omega)
    · rcases (started_ledger s).mp (h.sound.paid ⟨hf, hcz⟩) with hr | hr
      · exact absurd (List.length_eq_zero_iff.mp hz) hr
      · exact .inr hr
  · rw [hone, Nat.cast_one, one_mul] at hmoney
    refine ⟨by omega, fun hs ↦ ?_, fun _ ↦ .inl (by omega), h.alive⟩
    have hpaid : (ledger s).paid ≠ 0 := by
      change s.refunds.length ≠ 0
      omega
    rcases h.sound.failed hpaid with hf | ⟨p, hp⟩
    · exact absurd hs hf
    · exact absurd hp (stage_ne_unsaved _)

theorem ledger_enter (s : System) (p : ℕ) (ph : Phase) :
    ledger (s.enter p ph) =
      { ledger s with stage := Function.update (ledger s).stage p (stage ph) } := by
  have h : (fun q ↦ stage (Function.update s.phase p ph q)) =
      Function.update (ledger s).stage p (stage ph) := by
    funext q
    exact Function.apply_update (fun _ ↦ stage) s.phase p ph q
  rw [← h]
  rfl

namespace Inv

variable {w : World} {charged : ℤ} {s : System} {p : ℕ}

theorem stores_enter (h : Inv w charged s) {ph : Phase} (hph : Stores charged ph) (q : ℕ) :
    Stores charged (Function.update s.phase p ph q) := by
  by_cases hq : q = p
  · rw [hq, Function.update_self]
    exact hph
  · rw [Function.update_of_ne hq]
    exact h.stores q

theorem row (h : Inv w charged s) (row : Midjourney) (hq : charged ≠ 0 → row.quota = charged)
    (hk : WriteKeeps charged s row) : Inv w charged { s with row } := by
  obtain ⟨howes, hleave⟩ := hk
  have hok : Ok (terms charged) (ledger s) 0 (.write row) := by
    refine ⟨fun ho ↦ (started_ledger s).mpr (howes ho.1 ho.2), fun hr ↦ (mayLeave_ledger s).mpr ?_⟩
    exact hleave (not_not.mp hr)
  exact ⟨h.sound.act hok, hq, h.stores, h.money, h.alive⟩

theorem enter (h : Inv w charged s) (hp : stage (s.phase p) = .clear) (ph : Phase)
    (hph : stage ph = .clear) (hs : Stores charged ph) : Inv w charged (s.enter p ph) := by
  refine ⟨?_, h.stored, h.stores_enter hs, h.money, h.alive⟩
  have hsame : Function.update (ledger s).stage p .clear = (ledger s).stage := by
    rw [← hp]
    exact Function.update_eq_self p _
  rw [ledger_enter, hph, hsame]
  exact h.sound

theorem claim (h : Inv w charged s) (ph : Phase) (hph : stage ph = .due)
    (hs : Stores charged ph) (row : Midjourney) (hq : charged ≠ 0 → row.quota = charged)
    (hrow : ¬ EndedIn "SUCCESS" row) (hn : ¬ Started s) :
    Inv w charged ({ s with row }.enter p ph) := by
  refine ⟨?_, hq, h.stores_enter hs, h.money, h.alive⟩
  have hok : Ok (terms charged) (ledger s) p (.claim row) := ⟨hrow, mt (started_ledger s).mp hn⟩
  have hact := h.sound.act hok
  rw [ledger_enter, hph]
  exact hact

theorem pay (h : Inv w charged s) {t : Midjourney} {known : List String}
    (hp : s.phase p = .refunding t known) :
    Inv w charged ({ s with
      world := { s.world with userQuota := s.world.userQuota + t.quota }
      refunds := t.quota :: s.refunds }.enter p (.polling (some t) known)) := by
  have hstores := h.stores p
  rw [hp] at hstores
  obtain ⟨hc, hq⟩ := hstores
  refine ⟨?_, h.stored, h.stores_enter fun _ ↦ hq, ?_, h.alive⟩
  · have hok : Ok (terms charged) (ledger s) p .pay := stage_eq_due.mpr ⟨t, known, hp⟩
    have hact := h.sound.act hok
    rw [ledger_enter]
    exact hact
  · have hmoney := h.money
    change s.world.userQuota + t.quota = w.userQuota + ((s.refunds.length + 1 : ℕ) : ℤ) * charged
    rw [hmoney, hq]
    push_cast
    ring

/-- A refund that fails is given up, which only a row that has not failed allows. -/
theorem drop (h : Inv w charged s) {t : Midjourney} {known : List String}
    (hp : s.phase p = .refunding t known) (hrow : ¬ EndedIn "FAILURE" s.row) :
    Inv w charged (s.enter p (.polling (some t) known)) := by
  have hstores := h.stores p
  rw [hp] at hstores
  refine ⟨?_, h.stored, h.stores_enter fun _ ↦ hstores.2, h.money, h.alive⟩
  have hok : Ok (terms charged) (ledger s) p .drop :=
    .inl ⟨stage_eq_due.mpr ⟨t, known, hp⟩, fun ho ↦ hrow ho.1⟩
  have hact := h.sound.act hok
  rw [ledger_enter]
  exact hact

theorem refund (h : Inv w charged s) (hc : 0 ≤ charged) {t : Midjourney} {known : List String}
    (hp : s.phase p = .refunding t known) {failed : Bool}
    (hk : failed = false ∨ ¬ EndedIn "FAILURE" s.row) :
    Inv w charged (match increaseUserQuota failed t.quota s.world with
      | (.ok (), world) =>
        { s with world, refunds := t.quota :: s.refunds }.enter p (.polling (some t) known)
      | (.error _, world) => { s with world }.enter p (.polling (some t) known)) := by
  have hstores := h.stores p
  rw [hp] at hstores
  have hq : 0 ≤ t.quota := by rw [hstores.2]; exact hc
  cases failed with
  | false =>
    rw [increaseUserQuota, updateQuota_ok hq]
    exact h.pay hp
  | true =>
    have hn : ¬ t.quota < 0 := by omega
    rw [increaseUserQuota, updateQuota, if_neg hn, if_pos rfl]
    exact h.drop hp (hk.resolve_left (by decide))

theorem pollTask (h : Inv w charged s) {marshal : Option (List String) → String}
    {known : List String} {item : MidjourneyDto} {failed : Bool} {t : Midjourney}
    (hp : s.phase p = .polling (some t) known)
    (hk : checkMjTaskNeedUpdate marshal t item = true → failed = false → s.row.status = t.status →
      if failsTask item = true ∧ t.quota ≠ 0 then
        charged ≠ 0 ∧ ¬ Started s ∧ item.status ≠ "SUCCESS"
      else WriteKeeps charged s (updatedTask marshal item t)) :
    Inv w charged (s.pollTask marshal p known item failed t) := by
  have hclear : stage (s.phase p) = .clear := by rw [hp]; rfl
  have hq : charged ≠ 0 → t.quota = charged := by
    have hstores := h.stores p
    rwa [hp] at hstores
  unfold System.pollTask Midjourney.updateWithStatus
  by_cases hneeds : checkMjTaskNeedUpdate marshal t item = true
  · rw [hneeds, Bool.not_true, if_neg Bool.false_ne_true]
    dsimp only
    rcases compareAndSet_cases Midjourney.status (updatedTask marshal item t) t.status failed s.row
      with ⟨he, hf, hrow⟩ | he | he
    · rw [he]
      have hkt := hk hneeds hf hrow
      dsimp only
      by_cases hdue : failsTask item = true ∧ t.quota ≠ 0
      · rw [if_pos hdue] at hkt ⊢
        obtain ⟨hc, hn, hs⟩ := hkt
        exact h.claim (.refunding (updatedTask marshal item t) known) rfl ⟨hc, hq hc⟩ _ hq
          (fun he ↦ hs he.2) hn
      · rw [if_neg hdue] at hkt ⊢
        exact (h.row (updatedTask marshal item t) hq hkt).enter hclear (.polling _ known) rfl hq
    · rw [he]
      exact h.enter hclear (.polling _ known) rfl hq
    · rw [he]
      exact h.enter hclear (.polling _ known) rfl hq
  · rw [Bool.not_eq_true] at hneeds
    rw [hneeds, Bool.not_false, if_pos rfl]
    exact h

theorem bulkFail (h : Inv w charged s) {failReason : Option String} {failed : Bool}
    (hk : failed = false → charged ≠ 0 → Started s) :
    Inv w charged { s with row := mjBulkUpdate failReason failed s.row } := by
  cases failed with
  | true => exact h
  | false =>
    refine h.row _ h.stored ⟨fun _ ↦ hk rfl, ?_⟩
    rintro ⟨-, hs⟩
    exact absurd hs (by decide : "FAILURE" ≠ "SUCCESS")

theorem stores_loaded (h : Inv w charged s) (known : List String) (shadowed : Bool) :
    Stores charged (.polling (loaded s.row known shadowed) known) := by
  unfold loaded
  split_ifs
  · exact h.stored
  · trivial

theorem stage_of_free (hp : (s.phase p).free = true) : stage (s.phase p) = .clear := by
  cases hs : s.phase p with
  | refunding t known =>
    rw [hs] at hp
    exact absurd hp Bool.false_ne_true
  | _ => rfl

end Inv

theorem inv_act {marshal : Option (List String) → String} {w : World} {charged : ℤ} {s : System}
    {e : Event} (hc : 0 ≤ charged) (h : Inv w charged s) (hk : Keeps marshal charged s e) :
    Inv w charged (act marshal s e) := by
  cases e with
  | load p known shadowed =>
    dsimp only [act]
    split_ifs with hfree
    · exact h.enter (Inv.stage_of_free hfree) _ rfl (h.stores_loaded known shadowed)
    · exact h
  | item p item now failed =>
    cases hp : s.phase p with
    | polling task known =>
      simp only [act, hp]
      obtain ⟨hknown, hk⟩ := hk task known hp
      unfold System.pollItem
      by_cases hh : holds task item.mjId = true
      · rw [if_pos hh]
        cases task with
        | some t => exact h.pollTask hp (hk t rfl hh)
        | none => exact h
      · rw [if_neg hh, if_pos (hknown.resolve_left hh)]
        exact h
    | _ => simpa only [act, hp] using h
  | refund p failed =>
    cases hp : s.phase p with
    | refunding t known =>
      simp only [act, hp]
      exact h.refund hc hp (hk t known hp)
    | _ => simpa only [act, hp] using h
  | bulkFail p cause failed =>
    cases hp : s.phase p with
    | polling task known =>
      simp only [act, hp]
      split_ifs with hr
      · exact h.bulkFail (hk task known hp hr)
      · exact h
    | _ => simpa only [act, hp] using h
  | notifyLoad p req =>
    dsimp only [act]
    split_ifs with hfree
    · simp only [Bool.and_eq_true] at hfree
      exact h.enter (Inv.stage_of_free hfree.1) (.notifying s.row req) rfl h.stored
    · exact h
  | notifySave p failed =>
    cases hp : s.phase p with
    | notifying t req =>
      have hclear : stage (s.phase p) = .clear := by rw [hp]; rfl
      have hq : charged ≠ 0 → t.quota = charged := by
        have hstores := h.stores p
        rwa [hp] at hstores
      simp only [act, hp]
      cases failed with
      | true => exact h.enter hclear .idle rfl trivial
      | false =>
        exact (h.row (req.notified marshal t) hq (hk t req hp rfl)).enter hclear .idle rfl trivial
    | _ => simpa only [act, hp] using h

theorem inv_step {marshal : Option (List String) → String} {w : World} {charged : ℤ} {s : System}
    {e : Event} (hc : 0 ≤ charged) (h : Inv w charged s) (hk : Keeps marshal charged s e) :
    Inv w charged (step marshal s e) := by
  rw [step, h.alive, if_neg Bool.false_ne_true]
  exact inv_act hc h hk

/-- A submission that does not pay the user, followed by statements that meet their
conditions: in every state the task conserves the user's money. -/
theorem midjourney_conserves (marshal : Option (List String) → String) {db : Lookups}
    {channelId : ℤ} {r : MidjourneyRequest} {c : SubmitContext} {w₀ w : World} {outcome : Outcome}
    {task : Midjourney} (hsubmit : relayMidjourneySubmit db channelId r c w₀ = (outcome, some task, w))
    (hcharge : w.userQuota ≤ w₀.userQuota) (trace : List Event)
    (hk : Along (step marshal) (Keeps marshal (w₀.userQuota - w.userQuota)) (System.start task w)
      trace) :
    Conserves w₀ (w₀.userQuota - w.userQuota) (run (step marshal) (System.start task w) trace) := by
  obtain ⟨hfinished, hpaid⟩ := relayMidjourneySubmit_charge hsubmit
  have hc : 0 ≤ w₀.userQuota - w.userQuota := by omega
  have hquota : w₀.userQuota - w.userQuota ≠ 0 → task.quota = w₀.userQuota - w.userQuota := by
    intro hne
    omega
  have hstart : Inv w (w₀.userQuota - w.userQuota) (System.start task w) := by
    refine ⟨sound_start ?_, hquota, fun p ↦ trivial, ?_, rfl⟩
    · rintro ⟨⟨hp, hs⟩, -⟩
      exact absurd ((hfinished hp).symm.trans hs) (by decide)
    · change w.userQuota = w.userQuota + ((0 : ℕ) : ℤ) * _
      rw [Nat.cast_zero, zero_mul, add_zero]
  have hinv := hk.invariant (Inv w (w₀.userQuota - w.userQuota)) (fun s e ↦ inv_step hc) hstart
  exact hinv.conserves (by omega) hc

def plainMarshal : Option (List String) → String := fun _ ↦ "[]"

def plainWorld : World := ⟨1000, 1000, 0, ⟨Table.empty, Table.empty, Table.empty⟩⟩

/-- An origin task that has succeeded, on an enabled channel. -/
def plainLookups : Lookups where
  actionCheckSuccess := true
  task := fun mjId ↦ some
    { code := 1, action := "IMAGINE", mjId, prompt := "cat", description := "", submitTime := 0,
      status := "SUCCESS", progress := "100%", channelId := 1, quota := 100 }
  channel := fun _ ↦ some true

/-- A price of 100, and an upstream that accepts the task as `m1`. -/
def plainContext : SubmitContext where
  price := .ok 100
  userQuota := .ok 1000
  upstream := .ok (200, { code := 1, result := "m1" })
  channelFound := true
  now := 0
  insertFails := false
  isPlayground := false
  faults := ⟨false, fun _ ↦ false, false⟩

/-- The task as `submittedTask` builds it for an action. -/
def plainTask (action prompt : String) : Midjourney :=
  submittedTask action prompt 1 100 0 { code := 1, result := "m1" }

/-- A poller is told that the task has failed, and refunds it. -/
def polledFailure : List Event :=
  [.load 0 [] false,
    .item 0 { mjId := "m1", status := "FAILURE", progress := "100%", failReason := "nsfw" } 1 false,
    .refund 0 false]

theorem midjourney_conserves_refunded :
    Conserves plainWorld 100
      (run (step plainMarshal) (System.start (plainTask "IMAGINE" "cat")
        { plainWorld with userQuota := 900, remainQuota := 900, usedQuota := 100 })
        polledFailure) := by
  refine midjourney_conserves plainMarshal
    (show relayMidjourneySubmit plainLookups 1 { mode := .imagine, prompt := "cat" } plainContext
      plainWorld = (.answered, some (plainTask "IMAGINE" "cat"), _) from rfl)
    (by decide) polledFailure ⟨trivial, ?_, ?_, trivial⟩
  · intro task known hp
    obtain ⟨rfl, rfl⟩ := Phase.polling.inj hp
    refine ⟨.inl (by decide), fun t ht _ _ _ _ ↦ ?_⟩
    obtain rfl := Option.some.inj ht
    rw [if_pos (by decide)]
    refine ⟨by decide, ?_, by decide⟩
    rintro (hr | ⟨p, t, known, hp⟩)
    · exact hr rfl
    · by_cases h0 : p = 0
      · subst h0
        cases hp
      · change Function.update (fun _ ↦ Phase.idle) 0 _ p = _ at hp
        rw [Function.update_of_ne h0] at hp
        cases hp
  · intro t known _
    exact .inl rfl

/-- An inpaint is free, but its task stores the price, which a failure pays out. -/
theorem inpaint_refunds_what_was_free :
    ∃ task w, relayMidjourneySubmit plainLookups 1
        { mode := .action, taskId := "m0", plusAction := .ok ("INPAINT", 1) } plainContext
          plainWorld = (.answered, some task, w) ∧
      ¬ Conserves plainWorld (plainWorld.userQuota - w.userQuota)
        (run (step plainMarshal) (System.start task w) polledFailure) :=
  ⟨plainTask "INPAINT" "cat", plainWorld, rfl, fun h ↦ absurd h.never_positive (by decide)⟩

end AllAiTools.NewApi.Controller.MidjourneyConserves
