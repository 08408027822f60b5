import AllAiTools.Foundation.Run
import AllAiTools.Foundation.SlidingWindow
import AllAiTools.NewApi.Common.RateLimit

namespace AllAiTools.NewApi.Common.WindowBounded

open Foundation Foundation.Run Foundation.SlidingWindow RateLimit

variable {κ : Type}

section Requests

/-- The times in the queue of a key, none for a key without one. -/
def times (queue : Option Queue) : List ℤ := queue.elim [] Queue.times

theorem times_eq (queue : Queue) :
    queue.times = queue.times.head queue.nonempty :: queue.times.tail :=
  (List.cons_head_tail queue.nonempty).symm

theorem clear_cases (expiration now : ℤ) (store : κ → Option Queue) (key : κ) :
    InMemoryRateLimiter.clearExpiredItems expiration now store key = store key ∨
      0 < expiration ∧ InMemoryRateLimiter.clearExpiredItems expiration now store key = none ∧
        ∃ queue : Queue, store key = some queue ∧
          expiration < now - queue.times.getLast queue.nonempty := by
  unfold InMemoryRateLimiter.clearExpiredItems
  split_ifs with hnever
  · exact .inl rfl
  · dsimp only
    cases hqueue : store key with
    | none => exact .inl rfl
    | some queue =>
      by_cases hold : expiration < now - queue.times.getLast queue.nonempty
      · refine .inr ⟨not_le.mp hnever, ?_, queue, rfl, hold⟩
        rw [Option.filter_some_neg (by simpa using hold)]
      · refine .inl ?_
        rw [Option.filter_some_pos (by simpa using hold)]

/-- A queue that is cleared has nothing left in a window that is no longer than queues last. -/
theorem clear_spec {store : κ → Option Queue} {key : κ} {limit : ℕ} {expiration duration now : ℤ}
    {past : List ℤ} (hlast : 0 < expiration → duration ≤ expiration + 1)
    (h : Kept limit duration now past (times (store key))) :
    Kept limit duration now past
      (times (InMemoryRateLimiter.clearExpiredItems expiration now store key)) := by
  rcases clear_cases expiration now store key with hsame | ⟨hpos, hnone, queue, hqueue, hold⟩
  · rw [hsame]
    exact h
  · rw [hqueue] at h
    replace h : Kept limit duration now past queue.times := h
    rw [hnone]
    apply h.clear
    intro t ht
    obtain ⟨gone, hpast, -⟩ := h.split
    have hsorted := h.sorted
    rw [hpast] at hsorted
    have hle := (List.pairwise_append.mp hsorted).2.1.rel_getLast ht
    have hdur := hlast hpos
    omega

variable [DecidableEq κ]

/-- A request is let through unless the window is full; a limit of zero is one of one. -/
theorem request_spec {store : κ → Option Queue} {key : κ} {limit : ℕ} {duration now : ℤ}
    {past : List ℤ} (h : Kept (max 1 limit) duration now past (times (store key))) :
    (InMemoryRateLimiter.request store key limit duration now = (false, store) ∧
        max 1 limit ≤ (inWindow duration now past).length) ∨
      (¬ max 1 limit ≤ (inWindow duration now past).length ∧
        ∃ queue : Queue, InMemoryRateLimiter.request store key limit duration now =
            (true, Function.update store key (some queue)) ∧
          Kept (max 1 limit) duration now (past ++ [now]) queue.times) := by
  unfold InMemoryRateLimiter.request
  cases hqueue : store key with
  | none =>
    rw [hqueue] at h
    replace h : Kept (max 1 limit) duration now past [] := h
    refine .inr ⟨?_, _, rfl, h.push (by simp)⟩
    rw [h.inWindow_eq]
    simp [inWindow]
  | some queue =>
    rw [hqueue] at h
    have hkept : Kept (max 1 limit) duration now past queue.times := h
    have hcons : Kept (max 1 limit) duration now past
        (queue.times.head queue.nonempty :: queue.times.tail) := times_eq queue ▸ hkept
    have hfull := hcons.full_iff
    rw [← times_eq queue] at hfull
    have hpos : 0 < queue.times.length := List.length_pos_of_ne_nil queue.nonempty
    dsimp only
    by_cases hroom : queue.times.length < limit
    · rw [if_pos hroom]
      have hlt : queue.times.length < max 1 limit := lt_of_lt_of_le hroom (le_max_right 1 limit)
      exact .inr ⟨fun hle ↦ absurd (hfull.mp hle).1 (not_le.mpr hlt), _, rfl, hkept.push hlt⟩
    · rw [if_neg hroom]
      by_cases hold : duration ≤ now - queue.times.head queue.nonempty
      · rw [if_pos hold]
        exact .inr ⟨fun hle ↦ absurd (hfull.mp hle).2 (not_lt.mpr hold), _, rfl, hcons.shift hold⟩
      · rw [if_neg hold]
        exact .inl ⟨rfl, hfull.mpr ⟨by omega, not_le.mp hold⟩⟩

theorem request_other (store : κ → Option Queue) {key other : κ} (hne : other ≠ key)
    {limit : ℕ} {duration now : ℤ} :
    (InMemoryRateLimiter.request store key limit duration now).2 other = store other := by
  unfold InMemoryRateLimiter.request
  split
  · split_ifs
    · exact Function.update_of_ne hne _ store
    · exact Function.update_of_ne hne _ store
    · rfl
  · exact Function.update_of_ne hne _ store

end Requests

/-- The calls of `Request` and the passes of the sweep, with the clock they read. -/
inductive Event (κ : Type)
  | request (key : κ) (now : ℤ)
  | sweep (now : ℤ)

def Event.time : Event κ → ℤ
  | .request _ now => now
  | .sweep now => now

/-- What the calls for a key ask for. -/
structure Limit where
  maxRequestNum : ℕ
  duration : ℤ

section Property

variable [DecidableEq κ] (expirationSeconds : ℤ) (limit : κ → Limit)

/-- The limiter's store, and the calls for each key that it has let through. -/
structure State (κ : Type) where
  store : κ → Option Queue := fun _ ↦ none
  accepted : κ → List ℤ := fun _ ↦ []

def answer (st : State κ) (key : κ) (now : ℤ) : Bool × (κ → Option Queue) :=
  InMemoryRateLimiter.request st.store key (limit key).maxRequestNum (limit key).duration now

def step (st : State κ) : Event κ → State κ
  | .request key now =>
    { store := (answer limit st key now).2
      accepted := if (answer limit st key now).1 then
        Function.update st.accepted key (st.accepted key ++ [now]) else st.accepted }
  | .sweep now =>
    { st with store := InMemoryRateLimiter.clearExpiredItems expirationSeconds now st.store }

/-- A call for a key is refused only if as many as its limit were accepted in the last seconds. -/
def Fair (key : κ) (st : State κ) : Event κ → Prop
  | .request k now => k = key → (answer limit st k now).1 = false →
      (limit key).maxRequestNum ≤ (inWindow (limit key).duration now (st.accepted key)).length
  | .sweep _ => True

/-- After the events, no window has more accepted calls for the key than its limit, and each call was
refused only for a full window. -/
def Bounds (key : κ) (events : List (Event κ)) : Prop :=
  Sparse (limit key).maxRequestNum (limit key).duration
      ((run (step expirationSeconds limit) {} events).accepted key) ∧
    Along (step expirationSeconds limit) (Fair limit key) {} events

/-- Events in the order of the clock. -/
def Ordered (events : List (Event κ)) : Prop := events.Pairwise fun a b ↦ a.time ≤ b.time

end Property

section Sound

variable {expirationSeconds : ℤ} {limit : κ → Limit} {key : κ}

/-- The limit of a key can be kept: it is not zero, and queues last as long as its window. -/
structure Keepable (expirationSeconds : ℤ) (limit : Limit) : Prop where
  positive : limit.maxRequestNum = 0 → limit.duration ≤ 0
  lasting : 0 < expirationSeconds → limit.duration ≤ expirationSeconds + 1

/-- The queue of the key holds what can still be in a window, and no window is overfull. -/
structure Invariant (limit : κ → Limit) (key : κ) (now : ℤ) (st : State κ) : Prop where
  kept : Kept (max 1 (limit key).maxRequestNum) (limit key).duration now (st.accepted key)
    (times (st.store key))
  sparse : Sparse (limit key).maxRequestNum (limit key).duration (st.accepted key)

theorem invariant_start (now : ℤ) : Invariant limit key now {} :=
  ⟨Kept.empty _ _ now, sparse_nil _ _⟩

theorem Invariant.later {now now' : ℤ} {st : State κ} (h : Invariant limit key now st)
    (hnow : now ≤ now') : Invariant limit key now' st :=
  ⟨h.kept.later hnow, h.sparse⟩

theorem sparse_append (hkeep : Keepable expirationSeconds (limit key)) {now : ℤ} {past kept : List ℤ}
    (hsparse : Sparse (limit key).maxRequestNum (limit key).duration past)
    (hkept : Kept (max 1 (limit key).maxRequestNum) (limit key).duration now (past ++ [now]) kept) :
    Sparse (limit key).maxRequestNum (limit key).duration (past ++ [now]) := by
  by_cases hzero : (limit key).maxRequestNum = 0
  · exact sparse_of_nonpos _ (hkeep.positive hzero) _
  · have hmax : max 1 (limit key).maxRequestNum = (limit key).maxRequestNum := by omega
    rw [hmax] at hkept
    exact hsparse.append hkept

variable [DecidableEq κ]

theorem step_invariant (hkeep : Keepable expirationSeconds (limit key)) {st : State κ} (e : Event κ)
    (h : Invariant limit key e.time st) :
    Invariant limit key e.time (step expirationSeconds limit st e) := by
  cases e with
  | sweep now => exact ⟨clear_spec hkeep.lasting h.kept, h.sparse⟩
  | request k now =>
    by_cases hk : k = key
    · subst hk
      rcases request_spec h.kept with ⟨hanswer, -⟩ | ⟨-, queue, hanswer, hkept⟩
      · have hsame : step expirationSeconds limit st (.request k now) = st := by
          simp [step, answer, Event.time] at hanswer ⊢
          simp [hanswer]
        rw [hsame]
        exact h
      · have hnext : step expirationSeconds limit st (.request k now) =
            { store := Function.update st.store k (some queue)
              accepted := Function.update st.accepted k (st.accepted k ++ [now]) } := by
          simp [step, answer, Event.time] at hanswer ⊢
          simp [hanswer]
        rw [hnext]
        refine ⟨?_, ?_⟩
        · dsimp only
          rw [Function.update_self, Function.update_self]
          exact hkept
        · dsimp only
          rw [Function.update_self]
          exact sparse_append hkeep h.sparse hkept
    · have hstore : (step expirationSeconds limit st (.request k now)).store key = st.store key :=
        request_other st.store (Ne.symm hk)
      have haccepted : (step expirationSeconds limit st (.request k now)).accepted key =
          st.accepted key := by
        unfold step
        dsimp only
        split_ifs
        · exact Function.update_of_ne (Ne.symm hk) _ _
        · rfl
      refine ⟨?_, ?_⟩
      · rw [hstore, haccepted]
        exact h.kept
      · rw [haccepted]
        exact h.sparse

theorem fair_of_invariant {st : State κ} (e : Event κ) (h : Invariant limit key e.time st) :
    Fair limit key st e := by
  cases e with
  | sweep now => trivial
  | request k now =>
    intro hk hrefused
    subst hk
    rcases request_spec h.kept with ⟨-, hfull⟩ | ⟨-, queue, hanswer, -⟩
    · exact (le_max_right 1 _).trans hfull
    · unfold answer at hrefused
      rw [show now = (Event.request k now).time from rfl, hanswer] at hrefused
      cases hrefused

theorem run_invariant (hkeep : Keepable expirationSeconds (limit key)) {events : List (Event κ)}
    {st : State κ} (hordered : Ordered events) {start : ℤ} (hstart : ∀ e ∈ events, start ≤ e.time)
    (h : Invariant limit key start st) :
    (∃ now, Invariant limit key now (run (step expirationSeconds limit) st events)) ∧
      Along (step expirationSeconds limit) (Fair limit key) st events := by
  induction events generalizing st start with
  | nil => exact ⟨⟨start, h⟩, trivial⟩
  | cons e events ih =>
    obtain ⟨hle, hrest⟩ := List.pairwise_cons.mp hordered
    have hnow := h.later (hstart e List.mem_cons_self)
    obtain ⟨hend, halong⟩ := ih hrest hle (step_invariant hkeep e hnow)
    exact ⟨hend, fair_of_invariant e hnow, halong⟩

theorem bounds_of_keepable (hkeep : Keepable expirationSeconds (limit key)) {events : List (Event κ)}
    (hordered : Ordered events) : Bounds expirationSeconds limit key events := by
  obtain ⟨start, hstart⟩ : ∃ start, ∀ e ∈ events, start ≤ e.time := by
    cases events with
    | nil => exact ⟨0, fun _ he ↦ absurd he List.not_mem_nil⟩
    | cons e events =>
      refine ⟨e.time, List.forall_mem_cons.mpr ⟨le_rfl, ?_⟩⟩
      exact (List.pairwise_cons.mp hordered).1
  obtain ⟨⟨now, hend⟩, halong⟩ := run_invariant hkeep hordered hstart (invariant_start start)
  exact ⟨hend.sparse, halong⟩

end Sound

section Breaks

theorem ordered_burst (key : κ) (n : ℕ) {late : ℤ} (hlate : 0 ≤ late) :
    Ordered (List.replicate n (Event.request key 0) ++ [.sweep late, .request key late]) := by
  refine List.pairwise_append.mpr ⟨?_, ?_, ?_⟩
  · exact List.pairwise_replicate.mpr (.inr le_rfl)
  · simp [Event.time]
  · intro a ha b hb
    rw [(List.mem_replicate.mp ha).2]
    rcases List.mem_cons.mp hb with rfl | hb
    · exact hlate
    · rw [List.mem_singleton.mp hb]
      exact hlate

variable [DecidableEq κ] {expirationSeconds : ℤ} {limit : κ → Limit} {key : κ}

theorem request_room {store : κ → Option Queue} {maxRequestNum : ℕ} {duration now : ℤ}
    (hroom : (times (store key)).length < maxRequestNum ∨ store key = none) :
    InMemoryRateLimiter.request store key maxRequestNum duration now =
      (true, Function.update store key (some (.push (times (store key)) now))) := by
  unfold InMemoryRateLimiter.request
  cases hqueue : store key with
  | none => rfl
  | some queue =>
    rw [hqueue] at hroom
    have hlt : queue.times.length < maxRequestNum := hroom.resolve_right (Option.some_ne_none queue)
    dsimp only
    rw [if_pos hlt]
    rfl

theorem step_room {st : State κ} {now : ℤ}
    (hroom : (times (st.store key)).length < (limit key).maxRequestNum ∨ st.store key = none) :
    step expirationSeconds limit st (.request key now) =
      { store := Function.update st.store key (some (.push (times (st.store key)) now))
        accepted := Function.update st.accepted key (st.accepted key ++ [now]) } := by
  have hanswer : answer limit st key now = _ := request_room hroom
  simp only [step, hanswer]
  rfl

/-- As many calls at once as the limit takes are all let through. -/
theorem run_burst (expirationSeconds : ℤ) (limit : κ → Limit) (key : κ) {n : ℕ}
    (hn : n ≤ (limit key).maxRequestNum) (now : ℤ) :
    let st := run (step expirationSeconds limit) {} (List.replicate n (.request key now))
    st.accepted key = List.replicate n now ∧ times (st.store key) = List.replicate n now := by
  induction n with
  | zero => exact ⟨rfl, rfl⟩
  | succ n ih =>
    obtain ⟨haccepted, htimes⟩ := ih (by omega)
    dsimp only
    rw [List.replicate_succ', run_append, run_cons, run_nil, step_room (.inl ?_)]
    · dsimp only
      rw [Function.update_self, Function.update_self, haccepted, List.replicate_succ']
      refine ⟨rfl, ?_⟩
      rw [htimes]
      rfl
    · rw [htimes, List.length_replicate]
      omega

theorem positive_of_bounds (h : ∀ events, Ordered events → Bounds expirationSeconds limit key events)
    (hzero : (limit key).maxRequestNum = 0) : (limit key).duration ≤ 0 := by
  by_contra hpos
  have hone := (h [.request key 0] (List.pairwise_singleton _ _)).1 0
  rw [run_cons, run_nil, step_room (.inr rfl), hzero] at hone
  dsimp only at hone
  rw [Function.update_self] at hone
  have hin : within (limit key).duration 0 ([] ++ [(0 : ℤ)]) = [0] := by
    simp [within, not_le.mp hpos]
  rw [hin] at hone
  exact absurd hone (by simp)

/-- A sweep that clears a full queue within its window lets one more call into the window. -/
theorem lasting_of_bounds (h : ∀ events, Ordered events → Bounds expirationSeconds limit key events)
    (hpos : 0 < expirationSeconds) : (limit key).duration ≤ expirationSeconds + 1 := by
  by_contra hlong
  rw [not_le] at hlong
  have hmax : (limit key).maxRequestNum ≠ 0 := fun hzero ↦ by
    have hduration := positive_of_bounds h hzero
    omega
  set burst := List.replicate (limit key).maxRequestNum (Event.request key (0 : ℤ)) with hburst
  set st := run (step expirationSeconds limit) {} burst with hst
  obtain ⟨haccepted, htimes⟩ :=
    run_burst expirationSeconds limit key le_rfl 0
  have hgone : InMemoryRateLimiter.clearExpiredItems expirationSeconds (expirationSeconds + 1)
      st.store key = none := by
    cases hqueue : st.store key with
    | none =>
      rw [← hburst, ← hst, hqueue] at htimes
      exact absurd (List.replicate_eq_nil_iff _ |>.mp htimes.symm) hmax
    | some queue =>
      rw [← hburst, ← hst, hqueue] at htimes
      have hlast : queue.times.getLast queue.nonempty = 0 := by
        apply List.eq_of_mem_replicate (n := (limit key).maxRequestNum)
        rw [← htimes]
        exact List.getLast_mem _
      unfold InMemoryRateLimiter.clearExpiredItems
      rw [if_neg (not_le.mpr hpos), hqueue, Option.filter_some_neg]
      rw [hlast]
      simp
  have hover := (h _ (ordered_burst key (limit key).maxRequestNum (by omega :
    0 ≤ expirationSeconds + 1))).1 0
  rw [run_append, ← hburst, ← hst, run_cons, run_cons, run_nil, step_room (.inr hgone)] at hover
  dsimp only at hover
  rw [Function.update_self] at hover
  have hswept : (step expirationSeconds limit st (.sweep (expirationSeconds + 1))).accepted key =
      List.replicate (limit key).maxRequestNum 0 := haccepted
  have hall : ∀ t ∈ List.replicate (limit key).maxRequestNum 0 ++ [expirationSeconds + 1],
      decide (0 ≤ t ∧ t < 0 + (limit key).duration) = true := by
    intro t ht
    apply decide_eq_true
    rcases List.mem_append.mp ht with ht | ht
    · rw [List.eq_of_mem_replicate ht]
      omega
    · rw [List.mem_singleton.mp ht]
      omega
  rw [hswept, within, List.filter_eq_self.mpr hall, List.length_append, List.length_replicate,
    List.length_singleton] at hover
  omega

/-- The limiter bounds every window of a key, whatever is called and swept, exactly when its limit is
of a kind that it can keep. -/
theorem bounds_iff (expirationSeconds : ℤ) (limit : κ → Limit) (key : κ) :
    (∀ events, Ordered events → Bounds expirationSeconds limit key events) ↔
      Keepable expirationSeconds (limit key) :=
  ⟨fun h ↦ ⟨positive_of_bounds h, lasting_of_bounds h⟩, fun hkeep _ ↦ bounds_of_keepable hkeep⟩

/-- One call in half an hour, swept after the twenty minutes of the other limits: a second one is let
through. -/
theorem bounds_swept :
    Ordered [.request () 0, .sweep 1201, .request () 1201] ∧
      ¬ Bounds 1200 (fun _ : Unit ↦ ⟨1, 1800⟩) () [.request () 0, .sweep 1201, .request () 1201] := by
  refine ⟨by simp [Ordered, Event.time], ?_⟩
  intro h
  have hwindow := h.1 0
  exact absurd hwindow (by decide)

end Breaks

end AllAiTools.NewApi.Common.WindowBounded
