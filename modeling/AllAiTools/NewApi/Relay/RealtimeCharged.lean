import AllAiTools.NewApi.Relay.RealtimeSession
import AllAiTools.NewApi.Service.Consumes

namespace AllAiTools.NewApi.Relay.RealtimeCharged

open Foundation.Rounding Foundation.Run Model.Subscription Service.Funding Service.Session Service.Quota
open Service.RealtimeQuota Service.Consumes RealtimeSession
open Service
open Service.SessionConserves hiding step Inv start ten
open Service.RealtimeQuota.RealtimeUsage (total total_concat)
open Service.Session.BillingSession (syncRelayInfo)

section Attempts

/-- What an attempt took from the funding. -/
def Attempt.taken (a : Attempt) : ℤ := if a.funded then a.quota else 0

/-- What an attempt took from the token, where there is one to charge. -/
def Attempt.drawn (a : Attempt) : ℤ := if a.paid then a.quota else 0

def taken (attempts : List Attempt) : ℤ := (attempts.map Attempt.taken).sum

def tokenTaken (attempts : List Attempt) : ℤ := (attempts.map Attempt.drawn).sum

theorem taken_concat (attempts : List Attempt) (a : Attempt) :
    taken (attempts ++ [a]) = taken attempts + Attempt.taken a := by
  simp [taken]

theorem tokenTaken_concat (attempts : List Attempt) (a : Attempt) :
    tokenTaken (attempts ++ [a]) = tokenTaken attempts + Attempt.drawn a := by
  simp [tokenTaken]

theorem Attempt.taken_nonneg {a : Attempt} (h : 0 ≤ a.quota) : 0 ≤ Attempt.taken a := by
  unfold Attempt.taken
  split_ifs
  · exact h
  · exact le_refl 0

theorem attempt_nonneg (charge : Charge) (usage : RealtimeUsage) (s : State) :
    0 ≤ (attempt charge usage s).quota := preWssQuota_nonneg charge usage

/-- A charge for a usage in its books: the attempt is entered, and what it says has been taken. -/
structure Enters (a : Attempt) (s s' : State) : Prop where
  attempts : s'.attempts = s.attempts ++ [a]
  nonneg : 0 ≤ a.quota
  sum : s'.sumUsage = s.sumUsage.add a.usage
  posted : s'.posted = s.posted
  main : s'.main = s.main
  money : ∃ d w', Pays s.session.funding (Attempt.taken a) s.world w' ∧
    s'.session =
      { s.session with relayInfo := { s.session.relayInfo with subscriptionPostDelta := d } } ∧
    s'.world = w'.drawToken (tokenShare s.session.relayInfo (Attempt.drawn a))

variable {charge : Charge} {usage : RealtimeUsage} {s : State}

/-- The charge is asked for: the model is not priced by the call, and there is enough for it. -/
def asks (charge : Charge) (usage : RealtimeUsage) (s : State) : Bool :=
  !s.info.usePrice && affordable charge (preWssQuota charge s.info usage)

theorem preWss_refused (h : asks charge usage s = false) :
    (preWssConsumeQuota charge s.info s.session.relayInfo usage s.world).2.2 =
      (s.session.relayInfo, s.world) := by
  unfold preWssConsumeQuota
  cases hprice : s.info.usePrice with
  | true => rfl
  | false =>
    rw [asks, hprice, Bool.not_false, Bool.true_and, affordable] at h
    rw [if_neg Bool.false_ne_true]
    cases hu : charge.userQuota with
    | none => rfl
    | some userQuota =>
      cases ht : charge.token with
      | none => rfl
      | some token =>
        rw [hu, ht] at h
        dsimp only at h ⊢
        split_ifs with hless hshort
        · rfl
        · rfl
        · rw [decide_eq_false hless, Bool.not_false, Bool.true_and, Bool.or_eq_false_iff] at h
          refine absurd ⟨?_, ?_⟩ hshort
          · rw [h.1]
            rfl
          · exact of_decide_eq_true ((Bool.not_eq_eq_eq_not.mp h.2).trans Bool.not_false)

theorem preWss_asked (h : asks charge usage s = true) :
    (preWssConsumeQuota charge s.info s.session.relayInfo usage s.world).2.2 =
      (postConsumeQuota charge.faults s.session.relayInfo (preWssQuota charge s.info usage) s.world).2 := by
  rw [asks, Bool.and_eq_true, Bool.not_eq_true'] at h
  obtain ⟨hprice, h⟩ := h
  rw [affordable] at h
  unfold preWssConsumeQuota
  rw [hprice, if_neg Bool.false_ne_true]
  cases hu : charge.userQuota with
  | none =>
    rw [hu] at h
    cases h
  | some userQuota =>
    cases ht : charge.token with
    | none =>
      rw [hu, ht] at h
      cases h
    | some token =>
      rw [hu, ht] at h
      dsimp only at h ⊢
      rw [Bool.and_eq_true, Bool.not_eq_true', decide_eq_false_iff_not, Bool.or_eq_true] at h
      rw [if_neg h.1, if_neg]
      · rcases postConsumeQuota charge.faults s.session.relayInfo (preWssQuota charge s.info usage)
          s.world with ⟨_ | _, relay, w⟩
        · rfl
        · rfl
      · rintro ⟨hunlimited, hshort⟩
        rcases h.2 with hfree | henough
        · rw [hfree] at hunlimited
          cases hunlimited
        · rw [Bool.not_eq_true', decide_eq_false_iff_not] at henough
          exact henough hshort

/-- What a charge of a session leaves, whatever it answers. -/
theorem preConsumeUsage_enters (charge : Charge) (usage : RealtimeUsage)
    (hnames : Names s.session.relayInfo s.session.funding) :
    Enters (attempt charge usage s) s (preConsumeUsage charge usage s).2 := by
  refine ⟨rfl, attempt_nonneg charge usage s, rfl, rfl, rfl, ?_⟩
  have hsession : (preConsumeUsage charge usage s).2.session = { s.session with
      relayInfo := (preWssConsumeQuota charge s.info s.session.relayInfo usage s.world).2.2.1 } := rfl
  have hworld : (preConsumeUsage charge usage s).2.world =
      (preWssConsumeQuota charge s.info s.session.relayInfo usage s.world).2.2.2 := rfl
  rw [hsession, hworld]
  have hattempt : attempt charge usage s =
      { usage
        quota := preWssQuota charge s.info usage
        funded := asks charge usage s && (consumeFunding charge.faults s.session.relayInfo
          (preWssQuota charge s.info usage) s.world).1.isOk
        paid := asks charge usage s && (postConsumeQuota charge.faults s.session.relayInfo
          (preWssQuota charge s.info usage) s.world).1.isOk } := rfl
  rw [hattempt]
  cases hasks : asks charge usage s with
  | false =>
    rw [preWss_refused hasks]
    exact ⟨s.session.relayInfo.subscriptionPostDelta, s.world, pays_zero s.session.funding s.world, rfl,
      (drawToken_zero s.session.relayInfo s.world).symm⟩
  | true =>
    obtain ⟨d, w', hpays, hcall⟩ := postConsumeQuota_consumes charge.faults
      (preWssQuota charge s.info usage) s.world hnames
    rw [preWss_asked hasks, hcall]
    exact ⟨d, w', hpays, rfl, rfl⟩

end Attempts

section Invariant

variable {base : ℤ} {w₀ w w' : World} {session : BillingSession}

/-- The settlement can be drawn from the funding: a subscription is not given more than it holds. -/
def Settles (funding : FundingSource) (p : Posted) : Prop :=
  p.answer = .ok () ∧ ((∃ consumed, funding = .wallet consumed) ∨ 0 ≤ p.quota)

/-- The state of a session's billing at any time: until it is settled its billing session is held from
where the charges have left its funding, and then what it was settled at and the charges are gone. -/
structure Booked (base : ℤ) (w₀ : World) (funding : FundingSource) (s : State) : Prop where
  funded : s.session.funding = funding
  names : Names s.session.relayInfo funding
  base_nonneg : ∀ sub, funding = .subscription sub → 0 ≤ base
  sum : s.sumUsage = total (s.attempts.map Attempt.usage)
  nonneg : ∀ a ∈ s.attempts, 0 ≤ a.quota
  waits : s.posted ≠ none → s.main = .ended
  held : s.posted = none → Open s.session ∧
    Held (base + taken s.attempts)
      (w₀.drawToken (tokenShare s.session.relayInfo (tokenTaken s.attempts))) s.session s.world
  settled : ∀ p, s.posted = some p → p.usage = total ((s.attempts.take p.turns).map Attempt.usage) ∧
    p.turns ≤ s.attempts.length ∧
    (Settles funding p → Balance base w₀ (p.quota + taken s.attempts)
      (p.quota + tokenTaken s.attempts) s.session s.world)

theorem taken_nonneg {attempts : List Attempt} (h : ∀ a ∈ attempts, 0 ≤ a.quota) :
    0 ≤ taken attempts := by
  apply List.sum_nonneg
  intro x hx
  obtain ⟨a, ha, rfl⟩ := List.mem_map.mp hx
  exact Attempt.taken_nonneg (h a ha)

/-- A charge keeps the books. -/
theorem Booked.enters {funding : FundingSource} {a : Attempt} {s s' : State} (h : Booked base w₀ funding s)
    (he : Enters a s s') : Booked base w₀ funding s' := by
  obtain ⟨d, w', hpays, hsession, hworld⟩ := he.money
  have hnonneg := Attempt.taken_nonneg he.nonneg
  have htaken := taken_nonneg h.nonneg
  refine ⟨?_, ?_, h.base_nonneg, ?_, ?_, ?_, ?_, ?_⟩
  · rw [hsession]
    exact h.funded
  · rw [hsession]
    exact h.names
  · rw [he.sum, he.attempts, List.map_append, List.map_singleton, total_concat, h.sum]
  · rw [he.attempts]
    intro b hb
    rcases List.mem_append.mp hb with hb | hb
    · exact h.nonneg b hb
    · rw [List.mem_singleton.mp hb]
      exact he.nonneg
  · rw [he.posted, he.main]
    exact h.waits
  · intro hposted
    rw [he.posted] at hposted
    obtain ⟨hopen, hheld⟩ := h.held hposted
    have hnew := held_pays (t := Attempt.drawn a) (d := d) hheld hnonneg hpays
    rw [drawToken_drawToken, ← tokenShare_add, add_assoc, ← taken_concat, ← tokenTaken_concat] at hnew
    rw [hsession, hworld, he.attempts]
    exact ⟨hopen, hnew⟩
  · intro p hp
    rw [he.posted] at hp
    obtain ⟨husage, hturns, hbalance⟩ := h.settled p hp
    rw [hsession, hworld, he.attempts, List.take_append_of_le_length hturns, List.length_append]
    refine ⟨husage, by omega, ?_⟩
    intro hsettles
    have hbefore := hbalance hsettles
    have hdrawn : ∀ sub, s.session.funding = .subscription sub → 0 ≤ drawn s.world s.session.funding := by
      intro sub hsub
      have hgone := hbefore.funding
      have hbase := h.base_nonneg sub (h.funded.symm.trans hsub)
      rcases hsettles.2 with ⟨consumed, hwallet⟩ | hquota
      · rw [h.funded.symm.trans hsub] at hwallet
        cases hwallet
      · omega
    have hnew := balance_pays (t := Attempt.drawn a) (d := d) hbefore hnonneg hdrawn hpays
    rw [add_assoc, add_assoc, ← taken_concat, ← tokenTaken_concat] at hnew
    exact hnew

end Invariant

section Steps

variable {base : ℤ} {w₀ : World} {funding : FundingSource} {s s' : State}
variable (counter : TokenCounter) (settings : Service.TextQuota.Settings) (ctx : Service.TextQuota.Context)

/-- The billing of a session is as it was. -/
structure SameBooks (s s' : State) : Prop where
  session : s'.session = s.session
  world : s'.world = s.world
  sum : s'.sumUsage = s.sumUsage
  attempts : s'.attempts = s.attempts
  posted : s'.posted = s.posted
  main : s.posted ≠ none → s'.main = s.main

theorem SameBooks.refl (s : State) : SameBooks s s := ⟨rfl, rfl, rfl, rfl, rfl, fun _ ↦ rfl⟩

theorem SameBooks.trans {s'' : State} (h : SameBooks s s') (h' : SameBooks s' s'') : SameBooks s s'' where
  session := h'.session.trans h.session
  world := h'.world.trans h.world
  sum := h'.sum.trans h.sum
  attempts := h'.attempts.trans h.attempts
  posted := h'.posted.trans h.posted
  main hposted := (h'.main (h.posted ▸ hposted)).trans (h.main hposted)

theorem Booked.same (h : Booked base w₀ funding s) (hsame : SameBooks s s') :
    Booked base w₀ funding s' := by
  refine ⟨?_, ?_, h.base_nonneg, ?_, ?_, ?_, ?_, ?_⟩
  · rw [hsame.session]
    exact h.funded
  · rw [hsame.session]
    exact h.names
  · rw [hsame.sum, hsame.attempts]
    exact h.sum
  · rw [hsame.attempts]
    exact h.nonneg
  · intro hposted
    rw [hsame.posted] at hposted
    rw [hsame.main hposted]
    exact h.waits hposted
  · rw [hsame.posted, hsame.attempts, hsame.session, hsame.world]
    exact h.held
  · rw [hsame.posted, hsame.attempts, hsame.session, hsame.world]
    exact h.settled

/-- The charge of a turn or of what is left: the books before it, the attempt, and the books after it. -/
def Charges (s s' : State) : Prop :=
  ∃ charge usage before, SameBooks s before ∧ SameBooks (preConsumeUsage charge usage before).2 s'

theorem Booked.charges (h : Booked base w₀ funding s) (hcharges : Charges s s') :
    Booked base w₀ funding s' := by
  obtain ⟨charge, usage, before, hbefore, hafter⟩ := hcharges
  have hinv := h.same hbefore
  have hnames : Names before.session.relayInfo before.session.funding := by
    rw [hinv.funded]
    exact hinv.names
  exact (hinv.enters (preConsumeUsage_enters charge usage hnames)).same hafter

theorem responseDone_books (event : RealtimeEvent) (charge : Charge) (s : State) :
    SameBooks s (responseDone counter event charge s) ∨ Charges s (responseDone counter event charge s) := by
  unfold responseDone
  split
  · exact .inl ⟨rfl, rfl, rfl, rfl, rfl, fun _ ↦ rfl⟩
  · rename_i realtimeUsage _
    have hbefore : SameBooks s { s with usage := s.usage.add realtimeUsage } :=
      ⟨rfl, rfl, rfl, rfl, rfl, fun _ ↦ rfl⟩
    refine .inr ⟨charge, s.usage.add realtimeUsage, _, hbefore, ?_⟩
    dsimp only
    split
    · rename_i e s' hcall
      rw [hcall]
      exact ⟨rfl, rfl, rfl, rfl, rfl, fun _ ↦ rfl⟩
    · rename_i s' hcall
      rw [hcall]
      exact ⟨rfl, rfl, rfl, rfl, rfl, fun _ ↦ rfl⟩
  · split
    · exact .inl ⟨rfl, rfl, rfl, rfl, rfl, fun _ ↦ rfl⟩
    · rename_i textToken audioToken _
      have hbefore : SameBooks s { s with
          conversation := { s.conversation with isFirstRequest := false }
          localUsage := s.localUsage.countInput textToken audioToken } :=
        ⟨rfl, rfl, rfl, rfl, rfl, fun _ ↦ rfl⟩
      refine .inr ⟨charge, s.localUsage.countInput textToken audioToken, _, hbefore, ?_⟩
      dsimp only
      split
      · rename_i e s' hcall
        rw [hcall]
        exact ⟨rfl, rfl, rfl, rfl, rfl, fun _ ↦ rfl⟩
      · rename_i s' hcall
        rw [hcall]
        exact ⟨rfl, rfl, rfl, rfl, rfl, fun _ ↦ rfl⟩

theorem readClient_books (message : Option RealtimeEvent) (written : Bool) (s : State) :
    SameBooks s (readClient counter message written s) := by
  unfold readClient
  split
  · exact ⟨rfl, rfl, rfl, rfl, rfl, fun _ ↦ rfl⟩
  · dsimp only
    split
    · exact ⟨rfl, rfl, rfl, rfl, rfl, fun _ ↦ rfl⟩
    · exact ⟨rfl, rfl, rfl, rfl, rfl, fun _ ↦ rfl⟩

theorem readTarget_books (message : Option RealtimeEvent) (charge : Charge) (written : Bool) (s : State) :
    SameBooks s (readTarget counter message charge written s) ∨
      Charges s (readTarget counter message charge written s) := by
  unfold readTarget
  split
  · exact .inl ⟨rfl, rfl, rfl, rfl, rfl, fun _ ↦ rfl⟩
  · split_ifs
    · exact responseDone_books counter _ charge s
    · exact .inl ⟨rfl, rfl, rfl, rfl, rfl, fun _ ↦ rfl⟩
    · split
      · exact .inl ⟨rfl, rfl, rfl, rfl, rfl, fun _ ↦ rfl⟩
      · exact .inl ⟨rfl, rfl, rfl, rfl, rfl, fun _ ↦ rfl⟩

/-- The charge of what is left, after which the session goes on with settling. -/
theorem consumeRest_books (charge : Charge) (usage : RealtimeUsage) (main : MainAt) (s : State)
    (hposted : s.posted = none) :
    SameBooks s { consumeRest charge usage s with main } ∨
      Charges s { consumeRest charge usage s with main } := by
  unfold consumeRest
  split_ifs
  · refine .inr ⟨charge, usage, s, .refl s, rfl, rfl, rfl, rfl, rfl, ?_⟩
    exact fun hne ↦ absurd hposted hne
  · exact .inl ⟨rfl, rfl, rfl, rfl, rfl, fun hne ↦ absurd hposted hne⟩

/-- The settlement of a session takes its quota besides the charges. -/
theorem Booked.settles (h : Booked base w₀ funding s) (hposted : s.posted = none) {faults : CallFaults}
    {quota : ℤ} {calls : List Service.TextQuota.Call} {answer : Except Cause Unit} {session : BillingSession}
    {world : World} (hcall : s.session.settle faults quota s.world = (answer, session, world)) :
    Booked base w₀ funding { s with
      session
      world
      main := .ended
      posted := some { usage := s.sumUsage, quota, turns := s.attempts.length, answer, calls } } := by
  obtain ⟨hopen, hheld⟩ := h.held hposted
  obtain ⟨hfunding, hshare, hnames⟩ := settle_keeps faults quota s.session s.world
  have hcases := fun ha ↦ @settle_cases _ _ _ _ faults quota hopen hheld ha
  simp only [hcall] at hfunding hshare hnames hcases
  refine ⟨hfunding.trans h.funded, hnames funding h.names, h.base_nonneg, h.sum, h.nonneg, fun _ ↦ rfl,
    ?_, ?_⟩
  · intro hnone
    cases hnone
  · intro p hp
    cases hp
    refine ⟨?_, le_refl _, ?_⟩
    · dsimp only
      rw [List.take_length]
      exact h.sum
    · rintro ⟨hanswer, hquota⟩
      rw [← h.funded] at hquota
      rcases hcases hquota with ⟨e, he⟩ | hdone
      · dsimp only at hanswer
        rw [hanswer] at he
        cases he
      · obtain ⟨hremain, hused⟩ := hdone.token hanswer
        have hgone := hdone.funding
        have hadd := tokenShare_add s.session.relayInfo quota (tokenTaken s.attempts)
        rw [hshare] at hremain hused
        simp only [World.drawToken] at hremain hused
        refine ⟨?_, ?_, ?_⟩
        · dsimp only
          omega
        · exact Eq.trans (by dsimp only; omega) (hshare _).symm
        · exact Eq.trans (by dsimp only; omega) (hshare _).symm

theorem Booked.post (h : Booked base w₀ funding s) (hmain : s.main = .posting) (ratios : RatioSettings)
    (faults : CallFaults) (now : ℤ) :
    Booked base w₀ funding (post settings ctx ratios faults now s) := by
  have hposted : s.posted = none := by
    by_contra hne
    rw [h.waits hne] at hmain
    cases hmain
  exact h.settles hposted rfl

theorem step_books (event : Event) (h : Booked base w₀ funding s) :
    SameBooks s (step counter settings ctx s event) ∨ Charges s (step counter settings ctx s event) ∨
      ∃ ratios faults now, s.main = .posting ∧
        step counter settings ctx s event = post settings ctx ratios faults now s := by
  have hunposted : ∀ main, s.main = main → main ≠ .ended → s.posted = none := by
    intro main hmain hne
    by_contra hposted
    exact hne (hmain.symm.trans (h.waits hposted))
  cases event with
  | fromClient message written =>
    simp only [step]
    split_ifs
    · exact .inl (readClient_books counter message written s)
    · exact .inl (.refl s)
  | clientFails => exact .inl ⟨rfl, rfl, rfl, rfl, rfl, fun _ ↦ rfl⟩
  | fromTarget message charge written =>
    simp only [step]
    split_ifs
    · rcases readTarget_books counter message charge written s with hsame | hcharges
      · exact .inl hsame
      · exact .inr (.inl hcharges)
    · exact .inl (.refl s)
  | clear written =>
    simp only [step]
    split
    · exact .inl ⟨rfl, rfl, rfl, rfl, rfl, fun _ ↦ rfl⟩
    · exact .inl (.refl s)
  | targetFails =>
    simp only [step]
    split_ifs
    · exact .inl ⟨rfl, rfl, rfl, rfl, rfl, fun _ ↦ rfl⟩
    · exact .inl (.refl s)
  | wake =>
    simp only [step]
    split_ifs with hmain
    · exact .inl ⟨rfl, rfl, rfl, rfl, rfl, fun hne ↦ absurd (hunposted _ hmain (by decide)) hne⟩
    · exact .inl (.refl s)
  | consumeUsage charge =>
    simp only [step]
    split_ifs with hmain
    · have hrest := consumeRest_books charge s.usage .consumingLocal s (hunposted _ hmain (by decide))
      exact hrest.imp_right .inl
    · exact .inl (.refl s)
  | consumeLocal charge =>
    simp only [step]
    split_ifs with hmain
    · have hrest := consumeRest_books charge s.localUsage .posting s (hunposted _ hmain (by decide))
      exact hrest.imp_right .inl
    · exact .inl (.refl s)
  | post ratios faults now =>
    simp only [step]
    split_ifs with hmain
    · exact .inr (.inr ⟨ratios, faults, now, hmain, rfl⟩)
    · exact .inl (.refl s)

theorem Booked.step (event : Event) (h : Booked base w₀ funding s) :
    Booked base w₀ funding (step counter settings ctx s event) := by
  rcases step_books counter settings ctx event h with hsame | hcharges | ⟨ratios, faults, now, hmain, heq⟩
  · exact h.same hsame
  · exact h.charges hcharges
  · rw [heq]
    exact h.post settings ctx hmain ratios faults now

end Steps

section Start

variable (counter : TokenCounter) (settings : Service.TextQuota.Settings) (ctx : Service.TextQuota.Context)

/-- A session whose pre-consume has been made. -/
def start (info : RealtimeInfo) (opened : BillingSession × World) : State :=
  { info, session := opened.1, world := opened.2 }

theorem booked_start {base : ℤ} {w₀ : World} (info : RealtimeInfo) {opened : BillingSession × World}
    (hopen : Open opened.1) (hheld : Held base w₀ opened.1 opened.2)
    (hnames : Names opened.1.relayInfo opened.1.funding) :
    Booked base w₀ opened.1.funding (start info opened) := by
  refine ⟨rfl, hnames, ?_, rfl, ?_, fun hne ↦ absurd rfl hne, ?_, ?_⟩
  · intro sub hsub
    have hfunded := hheld.funded
    simp only [Funded, hsub] at hfunded
    exact hfunded.base_nonneg
  · exact fun a ha ↦ absurd ha List.not_mem_nil
  · intro _
    refine ⟨hopen, ?_⟩
    have hzero : base + taken (start info opened).attempts = base := add_zero base
    have hnone : w₀.drawToken (tokenShare (start info opened).session.relayInfo
        (tokenTaken (start info opened).attempts)) = w₀ := drawToken_zero _ w₀
    rw [hzero, hnone]
    exact hheld
  · intro p hp
    cases hp

theorem sum_eq_zero_iff {attempts : List Attempt} (h : ∀ a ∈ attempts, 0 ≤ a.quota) :
    taken attempts = 0 ↔ ∀ a ∈ attempts, a.funded = true → a.quota = 0 := by
  induction attempts with
  | nil => simp [taken]
  | cons a attempts ih =>
    rw [List.forall_mem_cons] at h ⊢
    have hfirst := Attempt.taken_nonneg h.1
    have hrest := taken_nonneg h.2
    have hcons : taken (a :: attempts) = Attempt.taken a + taken attempts := by simp [taken]
    rw [hcons, ← ih h.2]
    have ha : Attempt.taken a = 0 ↔ a.funded = true → a.quota = 0 := by
      unfold Attempt.taken
      split_ifs with hf
      · exact ⟨fun h _ ↦ h, fun h ↦ h hf⟩
      · exact iff_of_true rfl fun h ↦ absurd h hf
    rw [← ha]
    constructor
    · intro hsum
      exact ⟨by omega, by omega⟩
    · rintro ⟨hzero, hzero'⟩
      omega

/-- What is gone since a request began from the funding and the token of its session, once this has been
settled: the quota of all its usage, and besides it what the charges of its turns took. -/
structure Charged (base : ℤ) (w₀ : World) (s : State) (p : Posted) : Prop where
  usage : p.usage = total ((s.attempts.take p.turns).map Attempt.usage)
  balance : Balance base w₀ (p.quota + taken s.attempts) (p.quota + tokenTaken s.attempts) s.session s.world
  once_iff : drawn s.world s.session.funding - base = p.quota ↔
    ∀ a ∈ s.attempts, a.funded = true → a.quota = 0

theorem Booked.charged {base : ℤ} {w₀ : World} {funding : FundingSource} {s : State} {p : Posted}
    (h : Booked base w₀ funding s) (hp : s.posted = some p) (hsettles : Settles funding p) :
    Charged base w₀ s p := by
  obtain ⟨husage, _, hbalance⟩ := h.settled p hp
  have hdone := hbalance hsettles
  refine ⟨husage, hdone, ?_⟩
  rw [hdone.funding, ← sum_eq_zero_iff h.nonneg]
  omega

end Start

section Rates

/-- What the charges of a session go by. -/
structure Rates where
  settings : RatioSettings
  modelName : String
  modelRatio : ℚ
  groupRatio : ℚ

def Rates.quota (r : Rates) (usage : RealtimeUsage) : ℤ :=
  calculateAudioQuota r.settings (usageQuotaInfo usage r.modelName false r.modelRatio r.groupRatio)

/-- The price of a usage before it is rounded. -/
def Rates.price (r : Rates) (usage : RealtimeUsage) : ℚ :=
  (usage.inputTokenDetails.textTokens +
    usage.outputTokenDetails.textTokens * r.settings.completionRatio r.modelName +
    usage.inputTokenDetails.audioTokens * r.settings.audioRatio r.modelName +
    usage.outputTokenDetails.audioTokens * r.settings.audioRatio r.modelName *
      r.settings.audioCompletionRatio r.modelName) * (r.groupRatio * r.modelRatio)

theorem Rates.price_add (r : Rates) (u v : RealtimeUsage) : r.price (u.add v) = r.price u + r.price v := by
  unfold Rates.price RealtimeUsage.add
  push_cast
  ring

theorem Rates.price_empty (r : Rates) : r.price {} = 0 := by
  simp [Rates.price]

theorem Rates.abs_quota_sub_le (r : Rates) {usage : RealtimeUsage} (h : 0 ≤ r.price usage) :
    |(r.quota usage : ℚ) - r.price usage| ≤ 1 := by
  have hquota : r.quota usage = roundHalfAway
      (if r.groupRatio * r.modelRatio ≠ 0 ∧ r.price usage ≤ 0 then 1 else r.price usage) := rfl
  rw [hquota]
  split_ifs with hsmall
  · have hone : roundHalfAway 1 = 1 := by norm_num [roundHalfAway]
    have hzero : r.price usage = 0 := le_antisymm hsmall.2 h
    rw [hone, hzero]
    norm_num
  · have hnear := abs_roundHalfAway_sub_le (r.price usage)
    linarith

/-- Every attempt was paid for, at the rates that the session was settled at, and before that. -/
structure SameRates (r : Rates) (s : State) (p : Posted) : Prop where
  settled : p.quota = r.quota p.usage
  before : s.attempts.length = p.turns
  funded : ∀ a ∈ s.attempts, a.funded = true
  quota : ∀ a ∈ s.attempts, a.quota = r.quota a.usage
  price : ∀ a ∈ s.attempts, 0 ≤ r.price a.usage

theorem total_near (r : Rates) {attempts : List Attempt} (hfunded : ∀ a ∈ attempts, a.funded = true)
    (hquota : ∀ a ∈ attempts, a.quota = r.quota a.usage)
    (hprice : ∀ a ∈ attempts, 0 ≤ r.price a.usage) :
    0 ≤ r.price (total (attempts.map Attempt.usage)) ∧
      |(taken attempts : ℚ) - r.price (total (attempts.map Attempt.usage))| ≤ attempts.length := by
  induction attempts using List.reverseRecOn with
  | nil =>
    have hnone : r.price (total (([] : List Attempt).map Attempt.usage)) = 0 := r.price_empty
    rw [hnone]
    simp [taken]
  | append_singleton attempts a ih =>
    have hlast : a ∈ attempts ++ [a] := List.mem_append_right attempts List.mem_cons_self
    obtain ⟨hnonneg, hnear⟩ := ih (fun b hb ↦ hfunded b (List.mem_append_left _ hb))
      (fun b hb ↦ hquota b (List.mem_append_left _ hb)) (fun b hb ↦ hprice b (List.mem_append_left _ hb))
    have ha := hprice a hlast
    have hone := r.abs_quota_sub_le ha
    have htaken : Attempt.taken a = r.quota a.usage := by
      rw [Attempt.taken, if_pos (hfunded a hlast), hquota a hlast]
    rw [List.map_append, List.map_singleton, total_concat, r.price_add, taken_concat, htaken,
      List.length_append, List.length_singleton]
    refine ⟨add_nonneg hnonneg ha, ?_⟩
    push_cast
    calc |(taken attempts : ℚ) + r.quota a.usage -
          (r.price (total (attempts.map Attempt.usage)) + r.price a.usage)|
        = |((taken attempts : ℚ) - r.price (total (attempts.map Attempt.usage))) +
            ((r.quota a.usage : ℚ) - r.price a.usage)| := by rw [add_sub_add_comm]
      _ ≤ |(taken attempts : ℚ) - r.price (total (attempts.map Attempt.usage))| +
            |(r.quota a.usage : ℚ) - r.price a.usage| := abs_add_le _ _
      _ ≤ attempts.length + 1 := add_le_add hnear hone

theorem Charged.twice {base : ℤ} {w₀ : World} {s : State} {p : Posted} {r : Rates}
    (h : Charged base w₀ s p) (hrates : SameRates r s p) :
    |drawn s.world s.session.funding - base - 2 * p.quota| ≤ s.attempts.length + 1 := by
  obtain ⟨hnonneg, hnear⟩ := total_near r hrates.funded hrates.quota hrates.price
  have husage : p.usage = total (s.attempts.map Attempt.usage) := by
    rw [h.usage, ← hrates.before, List.take_length]
  rw [← husage] at hnonneg hnear
  have hone := r.abs_quota_sub_le hnonneg
  rw [← hrates.settled] at hone
  have hgone : drawn s.world s.session.funding - base - 2 * p.quota = taken s.attempts - p.quota := by
    rw [h.balance.funding]
    ring
  rw [hgone]
  have hboth : |((taken s.attempts - p.quota : ℤ) : ℚ)| ≤ ((s.attempts.length + 1 : ℤ) : ℚ) := by
    push_cast
    calc |(taken s.attempts : ℚ) - p.quota|
        = |((taken s.attempts : ℚ) - r.price p.usage) + (r.price p.usage - p.quota)| := by
          rw [sub_add_sub_cancel]
      _ ≤ |(taken s.attempts : ℚ) - r.price p.usage| + |r.price p.usage - p.quota| := abs_add_le _ _
      _ ≤ s.attempts.length + 1 := add_le_add hnear (by rw [abs_sub_comm]; exact hone)
  exact_mod_cast hboth

end Rates

section Main

variable (counter : TokenCounter) (settings : Service.TextQuota.Settings) (ctx : Service.TextQuota.Context)

theorem exists_booked (env : Env) (f : CallFaults) (relay : Service.Session.RelayInfo) (src : BillingSource)
    (quota : ℤ) (w₀ : World) (info : RealtimeInfo) (hq : 0 ≤ quota) (hsound : Sound w₀.db)
    (hfresh : w₀.db.records.find relay.requestId = none)
    (hopened : ((newSession relay quota src).preConsume env f quota w₀).1 = .ok ()) :
    ∃ base, Baseline env.cal f.now base w₀
        ((newSession relay quota src).preConsume env f quota w₀).2.1.funding ∧
      ∀ events, Booked base w₀ ((newSession relay quota src).preConsume env f quota w₀).2.1.funding
        (run (step counter settings ctx)
          (start info ((newSession relay quota src).preConsume env f quota w₀).2) events) := by
  rcases newSession_preConsume env f src hq hsound hfresh with ⟨e, he, _⟩ | ⟨_, base, ho⟩
  · rw [hopened] at he
    cases he
  · have hstart := booked_start info ho.opened ho.held (preConsume_names hopened)
    exact ⟨base, ho.baseline, invariant (fun s event h ↦ h.step counter settings ctx event) hstart⟩

/-- Each rate is one, and there is enough. -/
def evenCharge : Charge where
  settings := ⟨500000, fun _ ↦ 1, fun _ ↦ 1, fun _ ↦ 1, fun _ ↦ 1, fun _ ↦ 1, fun _ _ ↦ none⟩
  autoGroup := none
  userQuota := some 90
  token := some (false, 90)
  faults := ⟨false, fun _ ↦ false, false⟩

def evenInfo : RealtimeInfo where
  userId := 1
  channelId := 1
  tokenId := 1
  originModelName := "gpt-realtime"
  upstreamModelName := "gpt-realtime"
  userGroup := "default"
  usingGroup := "default"
  startTime := 0
  priceData := { modelRatio := 1, groupRatioInfo := { groupRatio := 1 } }

def evenSettings : Service.TextQuota.Settings where
  quotaPerUnit := 500000
  toolPriceForModel _ _ := 0
  toolPrice _ := 0
  gptImage1PriceOnceCall _ _ := 0
  geminiInputAudioPricePerMillionTokens _ := 0
  defaultModelRatio _ := none
  logConsumeEnabled := true
  floats := ⟨fun x ↦ x⟩
  engine := ⟨fun _ _ ↦ false, fun _ _ _ _ ↦ .error ""⟩

def evenCounter : TokenCounter := ⟨fun _ _ ↦ 0, fun _ _ ↦ some 0, fun _ _ ↦ some 0⟩

/-- A turn of five tokens, after which the upstream closes. -/
def oneTurn : List Event :=
  [.fromTarget (some {
    type := .responseDone
    response := some ⟨some {
      totalTokens := 5, inputTokens := 2, outputTokens := 3
      inputTokenDetails := { textTokens := 2 }
      outputTokenDetails := { textTokens := 3 } }⟩ }) evenCharge true,
    .clear true, .targetFails, .wake, .consumeUsage evenCharge, .consumeLocal evenCharge,
    .post evenCharge.settings noFaults 0]

def afterTurn : State :=
  run (step evenCounter evenSettings ⟨"", 0, false, "", ""⟩) (start evenInfo SessionConserves.ten) oneTurn

theorem afterTurn_posted : ∃ p, afterTurn.posted = some p ∧ p.quota = 5 ∧ p.turns = 1 ∧
    p.usage.inputTokenDetails = { textTokens := 2 } ∧ p.usage.outputTokenDetails = { textTokens := 3 } ∧
    p.answer = .ok () := by
  have hposted : afterTurn.posted.map (fun p ↦ (p.quota, p.turns, p.usage.inputTokenDetails,
      p.usage.outputTokenDetails, p.answer.isOk)) =
      some (5, 1, { textTokens := 2 }, { textTokens := 3 }, true) := by
    decide +kernel
  obtain ⟨p, hp, heq⟩ := Option.map_eq_some_iff.mp hposted
  simp only [Prod.mk.injEq] at heq
  obtain ⟨hquota, hturns, hinput, houtput, hok⟩ := heq
  refine ⟨p, hp, hquota, hturns, hinput, houtput, ?_⟩
  cases hanswer : p.answer with
  | error e =>
    rw [hanswer] at hok
    cases hok
  | ok u => rfl

/-- A turn of five tokens costs ten. -/
example : afterTurn.world.userQuota = 90 := by decide +kernel

def evenRates : Rates := ⟨evenCharge.settings, "gpt-realtime", 1, 1⟩

end Main

end AllAiTools.NewApi.Relay.RealtimeCharged
