import AllAiTools.NewApi.Common.RateLimit

namespace AllAiTools.NewApi.Middleware.ModelRateLimit

open Common.RateLimit

/-- The limits for a user's group, zero for none, and how long the limiter in memory keeps what is
not used, which is up to the middleware that starts it. -/
structure Setting where
  totalMaxCount : ℕ
  successMaxCount : ℕ
  durationMinutes : ℕ
  expirationSeconds : ℤ

def Setting.duration (setting : Setting) : ℤ := setting.durationMinutes * 60

/-- The calls to Redis, as places where they can fail. -/
inductive RedisCall
  | llen | lindex | evalSha | lpush | ltrim | expire
  deriving DecidableEq

/-- A request of the user: when it comes, in milliseconds, and the status it gets when it is let
through. The Redis server has a clock of its own. -/
structure Request where
  time : ℤ
  status : ℤ
  redisTime : ℤ := time
  fault : RedisCall → Bool := fun _ ↦ false

def Request.succeeds (req : Request) : Bool := req.status < 400

inductive Verdict
  | served
  | refusedTotal
  | refusedSuccess
  | checkFailed
  deriving DecidableEq

section Redis

/-- What Redis holds for the user: the times of recorded requests, newest first, with the end of
their key's life, and the token bucket. -/
structure RedisState where
  successes : List ℤ := []
  deadline : Option ℤ := none
  bucket : Option Bucket := none

def RedisState.list (rdb : RedisState) (redisTime : ℤ) : List ℤ :=
  if rdb.deadline.any (· ≤ redisTime) then [] else rdb.successes

/-- `EXPIRE` with the setting's duration; it does nothing to a key that is gone. -/
def RedisState.expire (rdb : RedisState) (setting : Setting) (req : Request) : RedisState :=
  if req.fault .expire ∨ rdb.list req.redisTime = [] then rdb
  else { rdb with deadline := some (req.redisTime + setting.durationMinutes * 60000) }

/-- The answer, or nothing where the check itself fails. -/
def checkRedisRateLimit (setting : Setting) (req : Request) (rdb : RedisState) :
    Option Bool × RedisState :=
  let list := rdb.list req.redisTime
  if setting.successMaxCount = 0 then (some true, rdb)
  else if req.fault .llen then (none, rdb)
  else if list.length < setting.successMaxCount then (some true, rdb)
  else
    -- an error of the query leaves an empty text, which is no time
    match if req.fault .lindex then none else list.getLast? with
    | none => (none, rdb)
    | some oldTime =>
      if (req.time - oldTime).tdiv 1000 < setting.duration then (some false, rdb.expire setting req)
      else (some true, rdb)

def RedisState.push (rdb : RedisState) (req : Request) : RedisState :=
  if req.fault .lpush then rdb
  else { rdb with
    successes := req.time :: rdb.list req.redisTime
    deadline := if rdb.list req.redisTime = [] then none else rdb.deadline }

def RedisState.trim (rdb : RedisState) (req : Request) (maxCount : ℕ) : RedisState :=
  if req.fault .ltrim then rdb else { rdb with successes := rdb.successes.take maxCount }

def recordRedisRequest (setting : Setting) (req : Request) (rdb : RedisState) : RedisState :=
  if setting.successMaxCount = 0 then rdb
  else ((rdb.push req).trim req setting.successMaxCount).expire setting req

/-- `c.Next`, and the record of a success. -/
def redisProcess (setting : Setting) (req : Request) (rdb : RedisState) : Verdict × RedisState :=
  (.served, if req.status < 400 then recordRedisRequest setting req rdb else rdb)

def redisRateLimitHandler (setting : Setting) (req : Request) (rdb : RedisState) :
    Verdict × RedisState :=
  match checkRedisRateLimit setting req rdb with
  | (none, rdb) => (.checkFailed, rdb)
  | (some false, rdb) => (.refusedSuccess, rdb)
  | (some true, rdb) =>
    if 0 < setting.totalMaxCount then
      if req.fault .evalSha then (.checkFailed, rdb)
      else
        let (allowed, bucket) := allow setting.duration setting.totalMaxCount
          (setting.totalMaxCount * setting.duration) (req.redisTime / 1000) rdb.bucket
        -- nothing follows an abort, and its status is not recorded
        if allowed then redisProcess setting req { rdb with bucket := some bucket }
        else (.refusedTotal, { rdb with bucket := some bucket })
    else redisProcess setting req rdb

end Redis

section Memory

inductive Key
  | total | successCheck | success
  deriving DecidableEq

/-- The check of the success limit, `c.Next` and the record of a success. -/
def memoryProcess (setting : Setting) (req : Request) (store : Key → Option Queue) :
    Verdict × (Key → Option Queue) :=
  let now := req.time / 1000
  let (allowed, store) :=
    InMemoryRateLimiter.request store .successCheck setting.successMaxCount setting.duration now
  if !allowed then (.refusedSuccess, store)
  else if req.status < 400 then
    (.served,
      (InMemoryRateLimiter.request store .success setting.successMaxCount setting.duration now).2)
  else (.served, store)

def memoryRateLimitHandler (setting : Setting) (req : Request) (store : Key → Option Queue) :
    Verdict × (Key → Option Queue) :=
  if setting.totalMaxCount = 0 then memoryProcess setting req store
  else
    let (allowed, store) := InMemoryRateLimiter.request store .total setting.totalMaxCount
      setting.duration (req.time / 1000)
    if !allowed then (.refusedTotal, store) else memoryProcess setting req store

end Memory

end AllAiTools.NewApi.Middleware.ModelRateLimit
