import Mathlib

namespace AllAiTools.NewApi.Common.RateLimit

/-- The times of the requests under a key, oldest first. -/
structure Queue where
  times : List ℤ
  nonempty : times ≠ []

def Queue.push (times : List ℤ) (now : ℤ) : Queue := ⟨times ++ [now], by simp⟩

namespace InMemoryRateLimiter

variable {κ : Type} [DecidableEq κ]

/-- `Request`, with the time in seconds. -/
def request (store : κ → Option Queue) (key : κ) (maxRequestNum : ℕ) (duration now : ℤ) :
    Bool × (κ → Option Queue) :=
  match store key with
  | some queue =>
    if queue.times.length < maxRequestNum then
      (true, Function.update store key (some (.push queue.times now)))
    else if duration ≤ now - queue.times.head queue.nonempty then
      (true, Function.update store key (some (.push queue.times.tail now)))
    else (false, store)
  -- a first request is let through whatever the limit is
  | none => (true, Function.update store key (some (.push [] now)))

/-- One pass of `clearExpiredItems`, which only runs when items do expire. -/
def clearExpiredItems (expirationSeconds now : ℤ) (store : κ → Option Queue) : κ → Option Queue :=
  if expirationSeconds ≤ 0 then store
  else fun key ↦ (store key).filter fun queue ↦
    !decide (expirationSeconds < now - queue.times.getLast queue.nonempty)

end InMemoryRateLimiter

/-- A token bucket as the script keeps it. -/
structure Bucket where
  tokens : ℤ
  lastTime : ℤ

/-- `rate_limit.lua`, with the time of the Redis server in seconds. -/
def allow (requested rate capacity now : ℤ) (bucket : Option Bucket) : Bool × Bucket :=
  let tokens := match bucket with
    | none => capacity
    | some b => min capacity (b.tokens + (now - b.lastTime) * rate)
  if requested ≤ tokens then (true, ⟨tokens - requested, now⟩) else (false, ⟨tokens, now⟩)

end AllAiTools.NewApi.Common.RateLimit
