import AllAiTools.Foundation.Run
import AllAiTools.Foundation.SlidingWindow
import AllAiTools.NewApi.Common.WindowBounded
import AllAiTools.NewApi.Middleware.ModelRateLimit

namespace AllAiTools.NewApi.Middleware.RateLimitsAgree

open Foundation Foundation.Run Foundation.SlidingWindow Common Common.RateLimit ModelRateLimit

/-- The requests of a user, and the passes of the routine that clears the limiter in memory. -/
inductive Event
  | request (req : Request)
  | sweep (time : ℤ)

def Event.time : Event → ℤ
  | .request req => req.time
  | .sweep time => time

structure Traffic where
  events : List Event
  ordered : events.Pairwise fun a b ↦ a.time ≤ b.time

section Property

/-- A backend: how it handles a request and clears its memory, and the seconds between two times by
its clock. -/
structure Backend (σ : Type) where
  handle : Request → σ → Verdict × σ
  sweep : ℤ → σ → σ
  elapsed : ℤ → ℤ → ℤ

def redis (setting : Setting) : Backend RedisState where
  handle := redisRateLimitHandler setting
  sweep _ rdb := rdb
  elapsed now time := (now - time).tdiv 1000

def memory (setting : Setting) : Backend (Key → Option Queue) where
  handle := memoryRateLimitHandler setting
  sweep time := InMemoryRateLimiter.clearExpiredItems setting.expirationSeconds (time / 1000)
  elapsed now time := now / 1000 - time / 1000

variable {σ : Type} (backend : Backend σ) (setting : Setting)

/-- The state of the backend and what it has answered so far. -/
abbrev Served (σ : Type) := σ × List (Request × Verdict)

def step (st : Served σ) : Event → Served σ
  | .request req => ((backend.handle req st.1).2, st.2 ++ [(req, (backend.handle req st.1).1)])
  | .sweep time => (backend.sweep time st.1, st.2)

/-- The requests that succeeded and lie within the window at `now`. -/
def succeeded (answers : List (Request × Verdict)) (now : ℤ) : List (Request × Verdict) :=
  answers.filter fun answer ↦ answer.2 = .served && answer.1.succeeds &&
    decide (backend.elapsed now answer.1.time < setting.duration)

/-- A refusal by the success limit has as many successes in the window as it takes. -/
def Fair (st : Served σ) : Event → Prop
  | .request req => (backend.handle req st.1).1 = .refusedSuccess →
      0 < setting.successMaxCount ∧
        setting.successMaxCount ≤ (succeeded backend setting st.2 req.time).length
  | .sweep _ => True

def LimitsSuccesses (traffic : Traffic) (start : σ) : Prop :=
  Along (step backend) (Fair backend setting) (start, []) traffic.events

end Property

section Condition

variable (setting : Setting)

/-- The requests that the total limit has let pass, those that both limits have let through, and of
these the ones that have been cleared from memory. -/
structure Seen where
  passed : List Request := []
  cleared : List Request := []
  through : List Request := []

def near (now : ℤ) (reqs : List Request) : List Request :=
  reqs.filter fun req ↦ now / 1000 - req.time / 1000 < setting.duration

def Seen.passes (seen : Seen) (now : ℤ) : Prop :=
  setting.totalMaxCount = 0 ∨ (near setting now seen.passed).length < setting.totalMaxCount

instance (seen : Seen) (now : ℤ) : Decidable (seen.passes setting now) :=
  inferInstanceAs (Decidable (_ ∨ _))

/-- A limit of zero is one of one. -/
def Seen.full (seen : Seen) (now : ℤ) : Prop :=
  max 1 setting.successMaxCount ≤ (near setting now seen.through).length

instance (seen : Seen) (now : ℤ) : Decidable (seen.full setting now) :=
  inferInstanceAs (Decidable (_ ≤ _))

def idle (now : ℤ) (reqs : List Request) : Bool :=
  decide (0 < setting.expirationSeconds) &&
    reqs.getLast?.any fun req ↦ setting.expirationSeconds < now / 1000 - req.time / 1000

def see (seen : Seen) : Event → Seen
  | .request req =>
    if seen.passes setting req.time then
      { seen with
        passed := if setting.totalMaxCount = 0 then seen.passed else seen.passed ++ [req]
        through := if seen.full setting req.time then seen.through else seen.through ++ [req] }
    else seen
  | .sweep time =>
    { passed := if idle setting time seen.passed then [] else seen.passed
      cleared := if idle setting time seen.through then seen.cleared ++ seen.through else seen.cleared
      through := if idle setting time seen.through then [] else seen.through }

/-- A request that comes upon a full window finds no failed ones in it, or as many successes that
have been cleared from memory. -/
def Spared (seen : Seen) : Event → Prop
  | .request req => seen.passes setting req.time → seen.full setting req.time →
      0 < setting.successMaxCount ∧
        ((near setting req.time seen.through).filter (!·.succeeds)).length ≤
          ((near setting req.time seen.cleared).filter (·.succeeds)).length
  | .sweep _ => True

end Condition

section Redis

variable {setting : Setting}

/-- The times of the requests that succeeded, newest first. -/
def successTimes (log : List (Request × Verdict)) : List ℤ :=
  ((log.filter fun answer ↦ answer.2 = .served && answer.1.succeeds).map (·.1.time)).reverse

theorem list_sublist (rdb : RedisState) (now : ℤ) : (rdb.list now).Sublist rdb.successes := by
  unfold RedisState.list
  split_ifs
  · exact List.nil_sublist _
  · exact .refl _

theorem expire_successes (rdb : RedisState) (req : Request) :
    (rdb.expire setting req).successes = rdb.successes := by
  unfold RedisState.expire
  split_ifs <;> rfl

theorem push_sublist (rdb : RedisState) (req : Request) :
    (rdb.push req).successes.Sublist (req.time :: rdb.successes) := by
  unfold RedisState.push
  split_ifs
  · exact List.sublist_cons_self _ _
  all_goals exact (list_sublist rdb req.redisTime).cons_cons _

theorem trim_sublist (rdb : RedisState) (req : Request) (maxCount : ℕ) :
    (rdb.trim req maxCount).successes.Sublist rdb.successes := by
  unfold RedisState.trim
  split_ifs
  · exact .refl _
  · exact List.take_sublist _ _

theorem record_sublist (req : Request) (rdb : RedisState) :
    (recordRedisRequest setting req rdb).successes.Sublist (req.time :: rdb.successes) := by
  unfold recordRedisRequest
  split_ifs
  · exact List.sublist_cons_self _ _
  · rw [expire_successes]
    exact (trim_sublist _ req _).trans (push_sublist rdb req)

variable (setting) in
/-- What the check comes to: a refusal finds the list full and its oldest time in the window. -/
theorem check_cases (req : Request) (rdb : RedisState) :
    (checkRedisRateLimit setting req rdb).2.successes = rdb.successes ∧
      ((checkRedisRateLimit setting req rdb).1 = some false → setting.successMaxCount ≠ 0 ∧
        setting.successMaxCount ≤ (rdb.list req.redisTime).length ∧
        ∃ old, (rdb.list req.redisTime).getLast? = some old ∧
          (req.time - old).tdiv 1000 < setting.duration) := by
  unfold checkRedisRateLimit
  dsimp only
  split_ifs with hmax hllen hroom hlindex
  · exact ⟨rfl, fun h ↦ by cases h⟩
  · exact ⟨rfl, fun h ↦ by cases h⟩
  · exact ⟨rfl, fun h ↦ by cases h⟩
  · exact ⟨rfl, fun h ↦ by cases h⟩
  · cases hlast : (rdb.list req.redisTime).getLast? with
    | none => exact ⟨rfl, fun h ↦ by cases h⟩
    | some old =>
      dsimp only
      split_ifs with hwindow
      · exact ⟨expire_successes rdb req, fun _ ↦ ⟨hmax, not_lt.mp hroom, old, rfl, hwindow⟩⟩
      · exact ⟨rfl, fun h ↦ by cases h⟩

/-- What a step of the handler leaves recorded. -/
def Records (req : Request) (rdb : RedisState) (out : Verdict × RedisState) : Prop :=
  out.2.successes.Sublist
    (if out.1 = .served ∧ req.succeeds then req.time :: rdb.successes else rdb.successes)

theorem process_records {rdb rdb' : RedisState} (req : Request)
    (hsame : rdb'.successes = rdb.successes) : Records req rdb (redisProcess setting req rdb') := by
  unfold Records redisProcess
  by_cases hstatus : req.status < 400
  · have hok : req.succeeds := decide_eq_true hstatus
    rw [if_pos hstatus, if_pos ⟨rfl, hok⟩, ← hsame]
    exact record_sublist req rdb'
  · have hbad : ¬ (Verdict.served = .served ∧ req.succeeds) := fun h ↦
      hstatus (of_decide_eq_true h.2)
    rw [if_neg hstatus, if_neg hbad, hsame]

theorem refuses_records {rdb rdb' : RedisState} (req : Request) {verdict : Verdict}
    (hnot : verdict ≠ .served) (hsame : rdb'.successes = rdb.successes) :
    Records req rdb (verdict, rdb') := by
  unfold Records
  rw [if_neg fun h ↦ hnot h.1]
  exact hsame ▸ List.Sublist.refl _

variable (setting) in
/-- The handler records only requests that succeed, and refuses by the success limit when the check
does. -/
theorem handler_cases (req : Request) (rdb : RedisState) :
    Records req rdb (redisRateLimitHandler setting req rdb) ∧
      ((redisRateLimitHandler setting req rdb).1 = .refusedSuccess →
        (checkRedisRateLimit setting req rdb).1 = some false) := by
  obtain ⟨hkept, -⟩ := check_cases setting req rdb
  unfold redisRateLimitHandler
  generalize checkRedisRateLimit setting req rdb = check at hkept ⊢
  obtain ⟨answer, rdb'⟩ := check
  replace hkept : rdb'.successes = rdb.successes := hkept
  rcases answer with _ | _ | _
  · exact ⟨refuses_records req (by decide) hkept, fun h ↦ by cases h⟩
  · exact ⟨refuses_records req (by decide) hkept, fun _ ↦ rfl⟩
  dsimp only
  by_cases htotal : 0 < setting.totalMaxCount
  · rw [if_pos htotal]
    by_cases hfault : req.fault .evalSha
    · rw [if_pos hfault]
      exact ⟨refuses_records req (by decide) hkept, fun h ↦ by cases h⟩
    · rw [if_neg hfault]
      split_ifs
      · exact ⟨process_records req hkept, fun h ↦ by cases h⟩
      · exact ⟨refuses_records req (by decide) hkept, fun h ↦ by cases h⟩
  · rw [if_neg htotal]
    exact ⟨process_records req hkept, fun h ↦ by cases h⟩

/-- The answers are in the order of their times, and Redis holds times of successes among them. -/
structure Recorded (now : ℤ) (st : Served RedisState) : Prop where
  sublist : st.1.successes.Sublist (successTimes st.2)
  sorted : (successTimes st.2).Pairwise (· ≥ ·)
  bounded : ∀ time ∈ successTimes st.2, time ≤ now

theorem successTimes_append (log : List (Request × Verdict)) (req : Request) (verdict : Verdict) :
    successTimes (log ++ [(req, verdict)]) =
      if verdict = .served ∧ req.succeeds then req.time :: successTimes log else successTimes log := by
  unfold successTimes
  rw [List.filter_append, List.map_append, List.reverse_append]
  by_cases h : verdict = .served ∧ req.succeeds
  · simp [h]
  · rw [if_neg h]
    simp only [List.filter_cons, Bool.and_eq_true, decide_eq_true_eq, if_neg h]
    rfl

variable (setting) in
theorem recorded_step {st : Served RedisState} (e : Event) (h : Recorded e.time st) :
    Recorded e.time (step (redis setting) st e) := by
  cases e with
  | sweep time => exact h
  | request req =>
    have hrecords := (handler_cases setting req st.1).1
    have happend := successTimes_append st.2 req (redisRateLimitHandler setting req st.1).1
    unfold Records at hrecords
    refine ⟨?_, ?_, ?_⟩
    · rw [step]
      dsimp only [redis]
      rw [happend]
      split_ifs at hrecords ⊢
      · exact hrecords.trans (h.sublist.cons_cons _)
      · exact hrecords.trans h.sublist
    · rw [step]
      dsimp only [redis]
      rw [happend]
      split_ifs
      · exact List.pairwise_cons.mpr ⟨h.bounded, h.sorted⟩
      · exact h.sorted
    · rw [step]
      dsimp only [redis]
      rw [happend]
      split_ifs
      · exact List.forall_mem_cons.mpr ⟨le_rfl, h.bounded⟩
      · exact h.bounded

theorem succeeded_length (log : List (Request × Verdict)) (now : ℤ) :
    (succeeded (redis setting) setting log now).length =
      ((successTimes log).filter fun time ↦ (now - time).tdiv 1000 < setting.duration).length := by
  unfold succeeded successTimes
  rw [List.filter_reverse, List.length_reverse, List.filter_map, List.length_map, List.filter_filter]
  refine congrArg List.length (List.filter_congr fun answer _ ↦ ?_)
  exact Bool.and_comm _ _

variable (setting) in
theorem redis_fair {st : Served RedisState} (e : Event) (h : Recorded e.time st) :
    Fair (redis setting) setting st e := by
  cases e with
  | sweep time => trivial
  | request req =>
    intro hrefused
    have hcheck := (handler_cases setting req st.1).2 hrefused
    obtain ⟨hmax, hlength, old, hlast, hwindow⟩ := (check_cases setting req st.1).2 hcheck
    refine ⟨Nat.pos_of_ne_zero hmax, hlength.trans ?_⟩
    have hsub := (list_sublist st.1 req.redisTime).trans h.sublist
    have hsorted := h.sorted.sublist hsub
    obtain ⟨newer, hlist⟩ := List.getLast?_eq_some_iff.mp hlast
    have hall : ∀ time ∈ st.1.list req.redisTime,
        decide ((req.time - time).tdiv 1000 < setting.duration) = true := by
      intro time htime
      have hge : old ≤ time := by
        rw [hlist] at hsorted htime
        rcases List.mem_append.mp htime with hnewer | hlast
        · exact (List.pairwise_append.mp hsorted).2.2 time hnewer old List.mem_cons_self
        · exact (List.mem_singleton.mp hlast).ge
      have hmono : (req.time - time).tdiv 1000 ≤ (req.time - old).tdiv 1000 :=
        Int.tdiv_le_tdiv (by decide) (by omega)
      exact decide_eq_true (hmono.trans_lt hwindow)
    rw [succeeded_length, ← List.filter_eq_self.mpr hall]
    exact (hsub.filter _).length_le

/-- The handler with Redis refuses only on successes. -/
theorem redis_limits (setting : Setting) (traffic : Traffic) :
    LimitsSuccesses (redis setting) setting traffic {} := by
  have hstart : ∀ e ∈ traffic.events, Recorded e.time (({}, []) : Served RedisState) := fun e _ ↦
    ⟨List.Sublist.refl _, .nil, fun _ htime ↦ absurd htime List.not_mem_nil⟩
  have hrun : Along (step (redis setting)) (Fair (redis setting) setting) ({}, []) traffic.events ↔
      Along (fun (_ : Unit) _ ↦ ()) (fun _ _ ↦ True) () traffic.events :=
    along_ordered Event.time (fun now st _ ↦ Recorded now st)
      (fun hle h ↦ ⟨h.sublist, h.sorted, fun time htime ↦ (h.bounded time htime).trans hle⟩)
      (fun e h ↦ iff_true_intro (redis_fair setting e h)) (fun e h ↦ recorded_step setting e h)
      hstart traffic.ordered
  exact hrun.mpr (along_of_forall (fun _ _ ↦ trivial) ())

end Redis

section Memory

/-- The queue of a key keeps the times in `past`. -/
def KeptBy (limit : ℕ) (duration now : ℤ) (past : List ℤ) : Option Queue → Prop
  | none => past = []
  | some queue => Kept limit duration now past queue.times

theorem KeptBy.later {limit : ℕ} {duration now now' : ℤ} {past : List ℤ} {queue : Option Queue}
    (h : KeptBy limit duration now past queue) (hnow : now ≤ now') :
    KeptBy limit duration now' past queue := by
  cases queue with
  | none => exact h
  | some queue => exact Kept.later h hnow

theorem KeptBy.count_le {limit : ℕ} {duration now : ℤ} {past : List ℤ} {queue : Option Queue}
    (h : KeptBy limit duration now past queue) : (inWindow duration now past).length ≤ limit := by
  cases queue with
  | none =>
    have hpast : past = [] := h
    rw [hpast]
    exact Nat.zero_le limit
  | some queue => exact Kept.count_le h

theorem KeptBy.kept {limit : ℕ} {duration now : ℤ} {past : List ℤ} {queue : Option Queue}
    (h : KeptBy limit duration now past queue) :
    Kept limit duration now past (WindowBounded.times queue) := by
  cases queue with
  | none =>
    have hpast : past = [] := h
    rw [hpast]
    exact Kept.empty limit duration now
  | some queue => exact h

/-- A request is let through unless the window is full; a limit of zero is one of one. -/
theorem request_spec {store : Key → Option Queue} {key : Key} {limit : ℕ} {duration now : ℤ}
    {past : List ℤ} (h : KeptBy (max 1 limit) duration now past (store key)) :
    (InMemoryRateLimiter.request store key limit duration now = (false, store) ∧
        max 1 limit ≤ (inWindow duration now past).length) ∨
      (¬ max 1 limit ≤ (inWindow duration now past).length ∧
        ∃ queue, InMemoryRateLimiter.request store key limit duration now =
            (true, Function.update store key (some queue)) ∧
          KeptBy (max 1 limit) duration now (past ++ [now]) (some queue)) := by
  exact WindowBounded.request_spec h.kept

variable {setting : Setting}

def times (reqs : List Request) : List ℤ := reqs.map fun req ↦ req.time / 1000

theorem near_length (now : ℤ) (reqs : List Request) :
    (inWindow setting.duration (now / 1000) (times reqs)).length = (near setting now reqs).length := by
  rw [inWindow, times, List.filter_map, List.length_map]
  rfl

theorem clear_spec {store : Key → Option Queue} {key : Key} {limit : ℕ} {duration time : ℤ}
    {reqs : List Request} (h : KeptBy limit duration (time / 1000) (times reqs) (store key)) :
    KeptBy limit duration (time / 1000) (times (if idle setting time reqs then [] else reqs))
      (InMemoryRateLimiter.clearExpiredItems setting.expirationSeconds (time / 1000) store key) := by
  unfold InMemoryRateLimiter.clearExpiredItems idle
  by_cases hlife : setting.expirationSeconds ≤ 0
  · have hnot : ¬ 0 < setting.expirationSeconds := not_lt.mpr hlife
    rw [if_pos hlife, decide_eq_false hnot]
    exact h
  rw [if_neg hlife, decide_eq_true (not_le.mp hlife), Bool.true_and]
  cases hqueue : store key with
  | none =>
    rw [hqueue] at h
    have hnil : reqs = [] := List.map_eq_nil_iff.mp h
    rw [hnil]
    rfl
  | some queue =>
    rw [hqueue] at h
    obtain ⟨gone, hpast, -⟩ := Kept.split h
    -- the newest of all times is the newest kept
    have hlast : (times reqs).getLast? = some (queue.times.getLast queue.nonempty) := by
      rw [hpast, List.getLast?_append, List.getLast?_eq_some_getLast queue.nonempty]
      rfl
    rw [times, List.getLast?_map] at hlast
    obtain ⟨newest, hnewest, htime⟩ := Option.map_eq_some_iff.mp hlast
    rw [hnewest, Option.any_some, Option.filter_some, ← htime]
    by_cases hidle : setting.expirationSeconds < time / 1000 - newest.time / 1000
    · simp only [decide_eq_true hidle]
      rfl
    · simp only [decide_eq_false hidle]
      exact h

/-- The store keeps what has passed, and the answers are those of the requests let through. -/
structure Follows (setting : Setting) (now : ℤ) (st : Served (Key → Option Queue)) (seen : Seen) :
    Prop where
  total : KeptBy (max 1 setting.totalMaxCount) setting.duration (now / 1000) (times seen.passed)
    (st.1 .total)
  check : KeptBy (max 1 setting.successMaxCount) setting.duration (now / 1000)
    (times seen.through) (st.1 .successCheck)
  log : (st.2.filter fun answer ↦ answer.2 = .served).map (·.1) = seen.cleared ++ seen.through

theorem times_append (reqs : List Request) (req : Request) :
    times (reqs ++ [req]) = times reqs ++ [req.time / 1000] := List.map_append

/-- The check of the success limit, once the total limit has let the request pass. -/
theorem process_cases {store : Key → Option Queue} {req : Request} {seen : Seen}
    (h : KeptBy (max 1 setting.successMaxCount) setting.duration (req.time / 1000)
      (times seen.through) (store .successCheck)) :
    (memoryProcess setting req store).2 .total = store .total ∧
      ((memoryProcess setting req store).1 = .refusedSuccess ∧ seen.full setting req.time ∧
          (memoryProcess setting req store).2 .successCheck = store .successCheck ∨
        (memoryProcess setting req store).1 = .served ∧ ¬ seen.full setting req.time ∧
          KeptBy (max 1 setting.successMaxCount) setting.duration (req.time / 1000)
            (times (seen.through ++ [req])) ((memoryProcess setting req store).2 .successCheck)) := by
  have hspec := request_spec h
  rw [near_length] at hspec
  rw [memoryProcess, times_append]
  rcases hspec with ⟨hreq, hfull⟩ | ⟨hfull, queue, hreq, hkept⟩
  · simp only [hreq]
    exact ⟨rfl, .inl ⟨rfl, hfull, rfl⟩⟩
  · have hcheck : KeptBy (max 1 setting.successMaxCount) setting.duration (req.time / 1000)
        (times seen.through ++ [req.time / 1000])
        (Function.update store Key.successCheck (some queue) .successCheck) := by
      rw [Function.update_self]
      exact hkept
    have htotal : Function.update store Key.successCheck (some queue) .total = store .total :=
      Function.update_of_ne (by decide) _ store
    simp only [hreq, Bool.not_true, Bool.false_eq_true, if_false]
    split_ifs
    · refine ⟨(WindowBounded.request_other _ (by decide)).trans htotal, .inr ⟨rfl, hfull, ?_⟩⟩
      rw [WindowBounded.request_other _ (by decide)]
      exact hcheck
    · exact ⟨htotal, .inr ⟨rfl, hfull, hcheck⟩⟩

/-- The total limit refuses the request or lets it pass on to the check. -/
theorem memory_cases {st : Served (Key → Option Queue)} {req : Request} {seen : Seen}
    (h : Follows setting req.time st seen) :
    (¬ seen.passes setting req.time ∧
        memoryRateLimitHandler setting req st.1 = (.refusedTotal, st.1)) ∨
      (seen.passes setting req.time ∧ ∃ store,
        memoryRateLimitHandler setting req st.1 = memoryProcess setting req store ∧
          store .successCheck = st.1 .successCheck ∧
          KeptBy (max 1 setting.totalMaxCount) setting.duration (req.time / 1000)
            (times (if setting.totalMaxCount = 0 then seen.passed else seen.passed ++ [req]))
            (store .total)) := by
  unfold memoryRateLimitHandler Seen.passes
  by_cases hzero : setting.totalMaxCount = 0
  · simp only [if_pos hzero]
    exact .inr ⟨.inl hzero, st.1, rfl, rfl, h.total⟩
  simp only [if_neg hzero]
  have hlimit : max 1 setting.totalMaxCount = setting.totalMaxCount := by omega
  rcases request_spec h.total with ⟨hreq, hfull⟩ | ⟨hfull, queue, hreq, hkept⟩
  · rw [hlimit, near_length] at hfull
    simp only [hreq]
    exact .inl ⟨fun hpass ↦ hpass.elim hzero fun hlt ↦ absurd hlt (not_lt.mpr hfull), rfl⟩
  · rw [hlimit, near_length] at hfull
    simp only [hreq]
    refine .inr ⟨.inr (not_le.mp hfull), _, rfl, Function.update_of_ne (by decide) _ st.1, ?_⟩
    rw [Function.update_self, times_append]
    exact hkept

theorem Follows.later {now now' : ℤ} {st : Served (Key → Option Queue)} {seen : Seen}
    (h : Follows setting now st seen) (hle : now ≤ now') : Follows setting now' st seen where
  total := h.total.later (Int.ediv_le_ediv (by decide) hle)
  check := h.check.later (Int.ediv_le_ediv (by decide) hle)
  log := h.log

variable (setting) in
theorem follows_step {st : Served (Key → Option Queue)} {seen : Seen} (e : Event)
    (h : Follows setting e.time st seen) :
    Follows setting e.time (step (memory setting) st e) (see setting seen e) := by
  cases e with
  | sweep time =>
    refine ⟨clear_spec h.total, clear_spec h.check, ?_⟩
    rw [see]
    dsimp only [step]
    rw [h.log]
    split_ifs
    · exact (List.append_nil _).symm
    · rfl
  | request req =>
    rw [see]
    dsimp only [step, memory]
    rcases memory_cases h with ⟨hpass, hout⟩ | ⟨hpass, store, hout, hcheck, htotal⟩
    · rw [hout, if_neg hpass]
      refine ⟨h.total, h.check, ?_⟩
      rw [List.filter_append, List.map_append, h.log]
      exact List.append_nil _
    · rw [hout, if_pos hpass]
      have hstore : KeptBy (max 1 setting.successMaxCount) setting.duration (req.time / 1000)
          (times seen.through) (store .successCheck) := hcheck ▸ h.check
      obtain ⟨hkept, ⟨hverdict, hfull, hsame⟩ | ⟨hverdict, hfull, hthrough⟩⟩ := process_cases hstore
      · rw [if_pos hfull, hverdict]
        refine ⟨?_, ?_, ?_⟩
        · dsimp only
          rw [hkept]
          exact htotal
        · dsimp only
          rw [hsame]
          exact hstore
        · rw [List.filter_append, List.map_append, h.log]
          exact List.append_nil _
      · rw [if_neg hfull, hverdict]
        refine ⟨?_, hthrough, ?_⟩
        · dsimp only
          rw [hkept]
          exact htotal
        · rw [List.filter_append, List.map_append, h.log, ← List.append_assoc]
          rfl

variable (setting) in
theorem succeeded_memory {log : List (Request × Verdict)} {cleared through : List Request}
    (h : (log.filter fun answer ↦ answer.2 = .served).map (·.1) = cleared ++ through) (now : ℤ) :
    (succeeded (memory setting) setting log now).length =
      ((near setting now cleared).filter (·.succeeds)).length +
        ((near setting now through).filter (·.succeeds)).length := by
  have happend : ((near setting now (cleared ++ through)).filter (·.succeeds)).length =
      ((near setting now cleared).filter (·.succeeds)).length +
        ((near setting now through).filter (·.succeeds)).length := by
    rw [near, List.filter_append, List.filter_append, List.length_append]
    rfl
  rw [← happend, ← h, near, List.filter_filter, List.filter_map, List.length_map,
    List.filter_filter, succeeded]
  refine congrArg List.length (List.filter_congr fun answer _ ↦ ?_)
  simp only [Function.comp_apply, memory]
  cases answer.2 with
  | served =>
    simp only [decide_true, Bool.true_and, Bool.and_true]
    rfl
  | _ => simp

variable (setting) in
theorem memory_fair_iff {st : Served (Key → Option Queue)} {seen : Seen} (e : Event)
    (h : Follows setting e.time st seen) :
    Fair (memory setting) setting st e ↔ Spared setting seen e := by
  cases e with
  | sweep time => exact Iff.rfl
  | request req =>
    dsimp only [Fair, Spared, memory]
    rcases memory_cases h with ⟨hpass, hout⟩ | ⟨hpass, store, hout, hcheck, htotal⟩
    · rw [hout]
      exact iff_of_true (fun hrefused ↦ by cases hrefused) fun hpass' ↦ absurd hpass' hpass
    rw [hout]
    have hstore : KeptBy (max 1 setting.successMaxCount) setting.duration (req.time / 1000)
        (times seen.through) (store .successCheck) := hcheck ▸ h.check
    obtain ⟨_, ⟨hverdict, hfull, _⟩ | ⟨hverdict, hfull, _⟩⟩ := process_cases hstore
    · rw [hverdict]
      have hsucceeded := succeeded_memory setting h.log req.time
      have hmost : (near setting req.time seen.through).length ≤ max 1 setting.successMaxCount := by
        rw [← near_length]
        exact h.check.count_le
      have hsplit := List.length_eq_length_filter_add
        (l := near setting req.time seen.through) (·.succeeds)
      unfold Seen.full at hfull
      have hcount : 0 < setting.successMaxCount ∧
          setting.successMaxCount ≤ (succeeded (memory setting) setting st.2 req.time).length ↔
          0 < setting.successMaxCount ∧
            ((near setting req.time seen.through).filter (!·.succeeds)).length ≤
              ((near setting req.time seen.cleared).filter (·.succeeds)).length := by
        rw [hsucceeded]
        omega
      exact ⟨fun hfair _ _ ↦ hcount.mp (hfair rfl), fun hspared _ ↦ hcount.mpr (hspared hpass hfull)⟩
    · rw [hverdict]
      exact iff_of_true (fun hrefused ↦ by cases hrefused) fun _ hfull' ↦ absurd hfull' hfull

/-- The handler in memory refuses only on successes exactly where no failed request stands in the way
of another. -/
theorem memory_limits_iff (setting : Setting) (traffic : Traffic) :
    LimitsSuccesses (memory setting) setting traffic (fun _ ↦ none) ↔
      Along (see setting) (Spared setting) {} traffic.events := by
  have hstart : ∀ e ∈ traffic.events,
      Follows setting e.time ((fun _ ↦ none, []) : Served (Key → Option Queue)) {} :=
    fun _ _ ↦ ⟨rfl, rfl, rfl⟩
  exact along_ordered Event.time (Follows setting) (fun hle h ↦ h.later hle)
    (fun e h ↦ memory_fair_iff setting e h) (fun e h ↦ follows_step setting e h)
    hstart traffic.ordered

end Memory

/-- The success limit means the same in both backends as long as the limit is positive where requests
come close, and no failed request takes another's place. -/
theorem limits_iff (setting : Setting) (traffic : Traffic) :
    (LimitsSuccesses (redis setting) setting traffic {} ∧
      LimitsSuccesses (memory setting) setting traffic fun _ ↦ none) ↔
    Along (see setting) (Spared setting) {} traffic.events := by
  rw [memory_limits_iff]
  exact and_iff_right (redis_limits setting traffic)

def oneAMinute : Setting where
  totalMaxCount := 0
  successMaxCount := 1
  durationMinutes := 1
  expirationSeconds := 1200

def failedFirst : Traffic where
  events := [.request { time := 0, status := 500 }, .request { time := 1000, status := 200 }]
  ordered := by simp [Event.time]

theorem failedFirst_refused : ¬ (LimitsSuccesses (redis oneAMinute) oneAMinute failedFirst {} ∧
    LimitsSuccesses (memory oneAMinute) oneAMinute failedFirst fun _ ↦ none) := by
  intro ⟨_, hmemory⟩
  have hfair := hmemory.2.1 rfl
  exact absurd hfair.2 (by decide)

end AllAiTools.NewApi.Middleware.RateLimitsAgree
