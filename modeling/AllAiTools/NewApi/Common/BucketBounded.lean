import AllAiTools.Foundation.Run
import AllAiTools.NewApi.Common.RateLimit

namespace AllAiTools.NewApi.Common.BucketBounded

open Foundation Foundation.Run RateLimit

/-- A run of the script: the Redis server's clock, in microseconds, and the tokens asked for. -/
structure Call where
  time : ℤ
  requested : ℤ

/-- The seconds of the clock, which are all that the script reads of it. -/
def seconds (time : ℤ) : ℤ := time / 1000000

theorem seconds_mono {a b : ℤ} (h : a ≤ b) : seconds a ≤ seconds b := by
  unfold seconds
  omega

section Property

variable (rate capacity : ℤ)

/-- What Redis holds under the key, and the calls that were granted. -/
structure State where
  bucket : Option Bucket := none
  granted : List Call := []

def answer (st : State) (call : Call) : Bool × Bucket :=
  allow call.requested rate capacity (seconds call.time) st.bucket

def step (st : State) (call : Call) : State :=
  { bucket := some (answer rate capacity st call).2
    granted := if (answer rate capacity st call).1 then st.granted ++ [call] else st.granted }

def sum (calls : List Call) : ℤ := (calls.map Call.requested).sum

/-- The tokens granted from `a` to `b`. -/
def total (st : State) (a b : ℤ) : ℤ :=
  sum (st.granted.filter fun call ↦ a ≤ call.time ∧ call.time ≤ b)

/-- The tokens granted from `a` on. -/
def since (st : State) (a : ℤ) : ℤ := sum (st.granted.filter fun call ↦ a ≤ call.time)

/-- The tokens that are stored are neither negative nor more than the capacity. -/
def Stored (st : State) : Prop := ∀ b ∈ st.bucket, 0 ≤ b.tokens ∧ b.tokens ≤ capacity

/-- No interval is granted more than the capacity and the rate for its length by a clock. -/
def Granted (clock : ℤ → ℤ) (st : State) : Prop :=
  ∀ a b, a ≤ b → total st a b ≤ capacity + rate * (clock b - clock a)

def Ordered (calls : List Call) : Prop := calls.Pairwise fun a b ↦ a.time ≤ b.time

end Property

section Sums

theorem sum_append (calls more : List Call) : sum (calls ++ more) = sum calls + sum more := by
  simp [sum]

theorem sum_nonneg {calls : List Call} (h : ∀ call ∈ calls, 0 < call.requested) : 0 ≤ sum calls := by
  apply List.sum_nonneg
  intro r hr
  obtain ⟨call, hcall, rfl⟩ := List.mem_map.mp hr
  exact (h call hcall).le

theorem total_append (st : State) (bucket : Option Bucket) (call : Call) (a b : ℤ) :
    total ⟨bucket, st.granted ++ [call]⟩ a b = total st a b +
      if a ≤ call.time ∧ call.time ≤ b then call.requested else 0 := by
  unfold total
  rw [List.filter_append, sum_append]
  split_ifs with hin <;> simp [hin, sum]

theorem since_append (st : State) (bucket : Option Bucket) (call : Call) (a : ℤ) :
    since ⟨bucket, st.granted ++ [call]⟩ a = since st a +
      if a ≤ call.time then call.requested else 0 := by
  unfold since
  rw [List.filter_append, sum_append]
  split_ifs with hin <;> simp [hin, sum]

theorem since_eq_zero {st : State} {a : ℤ} (h : ∀ call ∈ st.granted, call.time < a) :
    since st a = 0 := by
  have hnone : st.granted.filter (fun call ↦ decide (a ≤ call.time)) = [] := by
    apply List.filter_eq_nil_iff.mpr
    intro call hcall hle
    exact absurd (of_decide_eq_true hle) (not_le.mpr (h call hcall))
  unfold since
  rw [hnone]
  rfl

theorem total_le_since (st : State) (hpos : ∀ call ∈ st.granted, 0 < call.requested) (a b : ℤ) :
    total st a b ≤ since st a := by
  have hsub : (st.granted.filter fun call ↦ a ≤ call.time ∧ call.time ≤ b).Sublist
      (st.granted.filter fun call ↦ a ≤ call.time) := by
    apply List.monotone_filter_right
    intro call hcall
    exact decide_eq_true (of_decide_eq_true hcall).1
  apply List.Sublist.sum_le_sum (hsub.map Call.requested)
  intro r hr
  obtain ⟨call, hcall, rfl⟩ := List.mem_map.mp hr
  exact (hpos call (List.mem_of_mem_filter hcall)).le

end Sums

section Sound

variable {rate capacity : ℤ}

/-- The tokens in the bucket when it is asked for some. -/
def refilled (rate capacity now : ℤ) : Option Bucket → ℤ
  | none => capacity
  | some b => min capacity (b.tokens + (now - b.lastTime) * rate)

theorem allow_eq (requested rate capacity now : ℤ) (bucket : Option Bucket) :
    allow requested rate capacity now bucket =
      if requested ≤ refilled rate capacity now bucket then
        (true, ⟨refilled rate capacity now bucket - requested, now⟩)
      else (false, ⟨refilled rate capacity now bucket, now⟩) := by
  cases bucket <;> rfl

/-- What was granted since a time and what is left never come to more than a full bucket and what
has run into it since. -/
structure Invariant (rate capacity now : ℤ) (st : State) : Prop where
  stored : Stored capacity st
  granted : Granted rate capacity seconds st
  positive : ∀ call ∈ st.granted, 0 < call.requested
  past : ∀ call ∈ st.granted, call.time ≤ now
  fresh : st.bucket = none → st.granted = []
  read : ∀ b ∈ st.bucket, b.lastTime ≤ seconds now ∧ ∀ call ∈ st.granted, seconds call.time ≤ b.lastTime
  potential : ∀ b ∈ st.bucket, ∀ a, seconds a ≤ b.lastTime →
    since st a + b.tokens ≤ capacity + rate * (b.lastTime - seconds a)

theorem invariant_start (hcapacity : 0 ≤ capacity) (hrate : 0 < rate) (now : ℤ) :
    Invariant rate capacity now {} where
  stored b hb := by cases hb
  granted a b hab := by
    have hlength := mul_nonneg hrate.le (sub_nonneg.mpr (seconds_mono hab))
    have hnone : total {} a b = 0 := rfl
    omega
  positive _ hcall := absurd hcall List.not_mem_nil
  past _ hcall := absurd hcall List.not_mem_nil
  fresh _ := rfl
  read b hb := by cases hb
  potential b hb := by cases hb

theorem Invariant.later {now now' : ℤ} {st : State} (h : Invariant rate capacity now st)
    (hnow : now ≤ now') : Invariant rate capacity now' st :=
  { h with
    past := fun call hcall ↦ (h.past call hcall).trans hnow
    read := fun b hb ↦ ⟨(h.read b hb).1.trans (seconds_mono hnow), (h.read b hb).2⟩ }

/-- The refill keeps the potential up to the time of the call. -/
theorem refilled_potential (hrate : 0 < rate) {now : ℤ} {st : State}
    (h : Invariant rate capacity now st) {a : ℤ} (ha : seconds a ≤ seconds now) :
    since st a + refilled rate capacity (seconds now) st.bucket ≤
      capacity + rate * (seconds now - seconds a) := by
  have hlength := mul_nonneg hrate.le (sub_nonneg.mpr ha)
  cases hbucket : st.bucket with
  | none =>
    have hnone : since st a = 0 := since_eq_zero (by simp [h.fresh hbucket])
    rw [hnone, refilled]
    omega
  | some b =>
    rw [refilled]
    by_cases hread : seconds a ≤ b.lastTime
    · have hpotential := h.potential b hbucket a hread
      have hmin := min_le_right capacity (b.tokens + (seconds now - b.lastTime) * rate)
      calc since st a + min capacity (b.tokens + (seconds now - b.lastTime) * rate)
          ≤ since st a + b.tokens + (seconds now - b.lastTime) * rate := by omega
        _ ≤ capacity + rate * (b.lastTime - seconds a) + (seconds now - b.lastTime) * rate := by omega
        _ = capacity + rate * (seconds now - seconds a) := by ring
    · have hbefore : ∀ call ∈ st.granted, call.time < a := by
        intro call hcall
        by_contra hle
        have hmono := seconds_mono (not_lt.mp hle)
        have hlast := (h.read b hbucket).2 call hcall
        omega
      rw [since_eq_zero hbefore]
      have hmin := min_le_left capacity (b.tokens + (seconds now - b.lastTime) * rate)
      omega

theorem refilled_bounds (hcapacity : 0 ≤ capacity) (hrate : 0 < rate) {now : ℤ} {st : State}
    (h : Invariant rate capacity now st) :
    0 ≤ refilled rate capacity (seconds now) st.bucket ∧
      refilled rate capacity (seconds now) st.bucket ≤ capacity := by
  cases hbucket : st.bucket with
  | none => exact ⟨hcapacity, le_rfl⟩
  | some b =>
    have hlength := mul_nonneg (sub_nonneg.mpr (h.read b hbucket).1) hrate.le
    have hstored := h.stored b hbucket
    refine ⟨le_min hcapacity ?_, min_le_left _ _⟩
    omega

theorem step_eq (st : State) (call : Call) :
    step rate capacity st call =
      if call.requested ≤ refilled rate capacity (seconds call.time) st.bucket then
        { bucket := some ⟨refilled rate capacity (seconds call.time) st.bucket - call.requested,
            seconds call.time⟩
          granted := st.granted ++ [call] }
      else
        { bucket := some ⟨refilled rate capacity (seconds call.time) st.bucket, seconds call.time⟩
          granted := st.granted } := by
  unfold step answer
  rw [allow_eq]
  by_cases hle : call.requested ≤ refilled rate capacity (seconds call.time) st.bucket
  · rw [if_pos hle, if_pos hle]
    rfl
  · rw [if_neg hle, if_neg hle]
    rfl

theorem step_invariant (hcapacity : 0 ≤ capacity) (hrate : 0 < rate) {st : State} (call : Call)
    (hcall : 0 < call.requested) (h : Invariant rate capacity call.time st) :
    Invariant rate capacity call.time (step rate capacity st call) := by
  obtain ⟨hlow, hhigh⟩ := refilled_bounds hcapacity hrate h
  have hlast : ∀ call' ∈ st.granted, seconds call'.time ≤ seconds call.time := fun call' hcall' ↦
    seconds_mono (h.past call' hcall')
  rw [step_eq]
  split_ifs with hle
  · have hpositive : ∀ call' ∈ st.granted ++ [call], 0 < call'.requested :=
      List.forall_mem_append.mpr ⟨h.positive, List.forall_mem_singleton.mpr hcall⟩
    have hpotential : ∀ a, seconds a ≤ seconds call.time →
        since ⟨some ⟨refilled rate capacity (seconds call.time) st.bucket - call.requested,
          seconds call.time⟩, st.granted ++ [call]⟩ a +
            (refilled rate capacity (seconds call.time) st.bucket - call.requested) ≤
          capacity + rate * (seconds call.time - seconds a) := by
      intro a ha
      have hbefore := refilled_potential hrate h ha
      rw [since_append]
      split_ifs <;> omega
    refine ⟨?_, ?_, hpositive, ?_, (fun hnone ↦ by cases hnone), ?_, ?_⟩
    · intro b hb
      cases hb
      constructor <;> dsimp only <;> omega
    · intro a b hab
      by_cases hin : a ≤ call.time ∧ call.time ≤ b
      · have hsince := total_le_since ⟨some ⟨refilled rate capacity (seconds call.time) st.bucket -
          call.requested, seconds call.time⟩, st.granted ++ [call]⟩ hpositive a b
        have hbound := hpotential a (seconds_mono hin.1)
        have hlonger : rate * (seconds call.time - seconds a) ≤ rate * (seconds b - seconds a) :=
          mul_le_mul_of_nonneg_left (by have hmono := seconds_mono hin.2; omega) hrate.le
        omega
      · rw [total_append, if_neg hin, add_zero]
        exact h.granted a b hab
    · exact List.forall_mem_append.mpr ⟨h.past, List.forall_mem_singleton.mpr le_rfl⟩
    · intro b hb
      cases hb
      exact ⟨le_rfl, List.forall_mem_append.mpr ⟨hlast, List.forall_mem_singleton.mpr le_rfl⟩⟩
    · intro b hb a ha
      cases hb
      exact hpotential a ha
  · refine ⟨?_, h.granted, h.positive, h.past, (fun hnone ↦ by cases hnone), ?_, ?_⟩
    · intro b hb
      cases hb
      exact ⟨hlow, hhigh⟩
    · intro b hb
      cases hb
      exact ⟨le_rfl, hlast⟩
    · intro b hb a ha
      cases hb
      exact refilled_potential hrate h ha

theorem run_invariant (hcapacity : 0 ≤ capacity) (hrate : 0 < rate) {calls : List Call}
    (hordered : Ordered calls) (hpos : ∀ call ∈ calls, 0 < call.requested) {start : ℤ} {st : State}
    (hstart : ∀ call ∈ calls, start ≤ call.time) (h : Invariant rate capacity start st) :
    ∃ now, Invariant rate capacity now (run (step rate capacity) st calls) := by
  induction calls generalizing st start with
  | nil => exact ⟨start, h⟩
  | cons call calls ih =>
    obtain ⟨hle, hrest⟩ := List.pairwise_cons.mp hordered
    have hnow := h.later (hstart call List.mem_cons_self)
    apply ih hrest (fun call' hcall' ↦ hpos call' (List.mem_cons_of_mem call hcall')) hle
    exact step_invariant hcapacity hrate call (hpos call List.mem_cons_self) hnow

/-- The bucket never grants more than it can hold and what runs into it, by the seconds it reads. -/
theorem bucket_bounded {rate capacity : ℤ} (hcapacity : 0 ≤ capacity) (hrate : 0 < rate)
    {calls : List Call} (hordered : Ordered calls) (hpos : ∀ call ∈ calls, 0 < call.requested) :
    Stored capacity (run (step rate capacity) {} calls) ∧
      Granted rate capacity seconds (run (step rate capacity) {} calls) := by
  obtain ⟨start, hstart⟩ : ∃ start, ∀ call ∈ calls, start ≤ call.time := by
    cases calls with
    | nil => exact ⟨0, fun _ hcall ↦ absurd hcall List.not_mem_nil⟩
    | cons call calls =>
      refine ⟨call.time, List.forall_mem_cons.mpr ⟨le_rfl, ?_⟩⟩
      exact (List.pairwise_cons.mp hordered).1
  obtain ⟨now, hend⟩ := run_invariant hcapacity hrate hordered hpos hstart
    (invariant_start hcapacity hrate start)
  exact ⟨hend.stored, hend.granted⟩

/-- Two calls at the end of one second and a third one at the start of the next. -/
theorem bucket_three : Granted 1 2 seconds
    (run (step 1 2) {} [⟨999998, 1⟩, ⟨999999, 1⟩, ⟨1000000, 1⟩]) :=
  (bucket_bounded (by decide) (by decide) (by simp [Ordered]) (by simp)).2

/-- By the microseconds that the server's clock also has, these grant more than an interval's
length allows, and a capacity below zero is stored as it is. -/
theorem bucket_unbounded :
    (¬ ∀ a b, a ≤ b → total (run (step 1 2) {} [⟨999998, 1⟩, ⟨999999, 1⟩, ⟨1000000, 1⟩]) a b * 1000000 ≤
        2 * 1000000 + 1 * (b - a)) ∧
      ¬ Stored (-1) (run (step 1 (-1)) {} [⟨0, 1⟩]) := by
  constructor
  · intro h
    exact absurd (h 999998 1000000 (by decide)) (by decide)
  · intro h
    exact absurd (h ⟨-1, 0⟩ rfl).1 (by decide)

end Sound

end AllAiTools.NewApi.Common.BucketBounded
