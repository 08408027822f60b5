import AllAiTools.NewApi.Model.UserQuota

namespace AllAiTools.NewApi.Model.UserCache

open Foundation UserQuota

/-- The hash of a user: its quota field, and the whole seconds it still has to live, zero for a
hash without an expiry. -/
structure Cached where
  quota : ℤ
  ttl : ℕ

inductive FieldWrite where
  | incrBy (delta : ℤ)
  | set (value : ℤ)

/-- What a call has left to do: its own update of the database, the writes it started for the
cache, and those of them that have read the hash's time to live. -/
inductive Job where
  | update (id delta : ℤ)
  | field (id : ℤ) (write : FieldWrite)
  | fieldNow (id : ℤ) (write : FieldWrite) (ttl : ℕ)
  | object (id quota : ℤ)

structure State where
  db : Store
  cache : ℤ → Option Cached
  jobs : List Job

def State.spawn (s : State) (jobs : List Job) : State := { s with jobs := s.jobs ++ jobs }

def State.release (s : State) (i : ℕ) : State := { s with jobs := s.jobs.eraseIdx i }

section Redis

/-- `HINCRBY` takes a missing field for zero. -/
def FieldWrite.apply : FieldWrite → Option Cached → ℤ
  | .incrBy delta, cached => (cached.map (·.quota)).getD 0 + delta
  | .set value, _ => value

/-- `RedisHIncrBy` and `RedisHSetField` up to their transaction. -/
def checkTTL (id : ℤ) (write : FieldWrite) (s : State) : State :=
  match s.cache id with
  | none => s
  | some cached => if 0 < cached.ttl then s.spawn [.fieldNow id write cached.ttl] else s

/-- The transaction of `RedisHIncrBy` and `RedisHSetField`. -/
def writeField (id : ℤ) (write : FieldWrite) (ttl : ℕ) (s : State) : State :=
  { s with cache := Function.update s.cache id (some ⟨write.apply (s.cache id), ttl⟩) }

def redisHSetObj (id quota : ℤ) (expiration : ℕ) (s : State) : State :=
  let ttl := if 0 < expiration then expiration else ((s.cache id).map (·.ttl)).getD 0
  { s with cache := Function.update s.cache id (some ⟨quota, ttl⟩) }

end Redis

section Quota

def cacheIncrUserQuota (userId delta : ℤ) : Job := .field userId (.incrBy delta)

def cacheDecrUserQuota (userId delta : ℤ) : Job := cacheIncrUserQuota userId (-delta)

def updateUserQuotaCache (userId quota : ℤ) : Job := .field userId (.set quota)

def updateUserCache (user : User) : Job := .object user.id user.quota

/-- The call up to its update of the database. -/
def increaseUserQuota (id quota : ℤ) (s : State) : Except String State :=
  if quota < 0 then .error "quota 不能为负数！"
  else .ok (s.spawn [cacheIncrUserQuota id quota, .update id quota])

def decreaseUserQuota (id quota : ℤ) (s : State) : Except String State :=
  if quota < 0 then .error "quota 不能为负数！"
  else .ok (s.spawn [cacheDecrUserQuota id quota, .update id (-quota)])

def updateQuota (id delta : ℤ) (db : Store) : Store :=
  { db with users := addQuota db.users id delta (fun user ↦ user) }

def getUserById (fails : Option String) (id : ℤ) (db : Store) : Except String User :=
  if id = 0 then .error "id 为空！"
  else match fails, db.users.find id with
    | some e, _ => .error e
    | none, none => .error "record not found"
    | none, some user => .ok user

/-- `redisOk` tells whether the cache could be read. -/
def getUserCache (redisOk : Bool) (fails : Option String) (userId : ℤ) (s : State) :
    Except String ℤ × State :=
  match (if redisOk then s.cache userId else none) with
  | some cached => (.ok cached.quota, s)
  | none => match getUserById fails userId s.db with
    | .error e => (.error e, s)
    | .ok user => (.ok user.quota, s.spawn [updateUserCache user])

def readQuota (fails : Option String) (id : ℤ) (s : State) : Except String ℤ × State :=
  match fails with
  | some e => (.error e, s)
  | none => (.ok (quotaOf s.db id), s.spawn [updateUserQuotaCache id (quotaOf s.db id)])

/-- The two errors are those of the two queries. -/
def getUserQuota (redisOk : Bool) (fails fails' : Option String) (id : ℤ) (fromDB : Bool)
    (s : State) : Except String ℤ × State :=
  if fromDB then readQuota fails' id s
  else match getUserCache redisOk fails id s with
    | (.ok quota, s) => (.ok quota, s)
    | (.error _, s) => readQuota fails' id s

end Quota

section Steps

/-- The calls that change the database in one transaction. -/
inductive Credit where
  | redeem (now : ℤ) (fails : Option String) (key : String) (userId : ℤ)
  | recharge (now : ℤ) (fails : Option String) (referenceId customerId : String)
  | rechargeCreem (now : ℤ) (fails : Option String) (referenceId customerEmail : String)
  | rechargeWaffo (now : ℤ) (fails : Option String) (tradeNo : String)
  | rechargeWaffoPancake (now : ℤ) (fails : Option String) (tradeNo : String)
  | manualCompleteTopUp (now : ℤ) (fails : Option String) (tradeNo : String)
  | transferAffQuotaToQuota (fails : Option String) (userId quota : ℤ)

inductive Event where
  | increaseUserQuota (id quota : ℤ)
  | decreaseUserQuota (id quota : ℤ)
  | getUserQuota (redisOk : Bool) (fails fails' : Option String) (id : ℤ) (fromDB : Bool)
  | credit (call : Credit)
  | proceed (i : ℕ) (ok : Bool)
  | age (id : ℤ) (ttl : ℕ)
  | expire (id : ℤ)

structure Settings where
  quota : QuotaSettings
  logQuota : ℤ → String
  redisKeyCacheSeconds : ℕ

variable (settings : Settings)

def Credit.apply (db : Store) : Credit → Store
  | redeem now fails key userId => (UserQuota.redeem now fails key userId db).2
  | recharge now fails referenceId customerId =>
    (UserQuota.recharge settings.quota now fails referenceId customerId db).2
  | rechargeCreem now fails referenceId customerEmail =>
    (UserQuota.rechargeCreem now fails referenceId customerEmail db).2
  | rechargeWaffo now fails tradeNo =>
    (UserQuota.rechargeWaffo settings.quota now fails tradeNo db).2
  | rechargeWaffoPancake now fails tradeNo =>
    (UserQuota.rechargeWaffoPancake settings.quota now fails tradeNo db).2
  | manualCompleteTopUp now fails tradeNo =>
    (UserQuota.manualCompleteTopUp settings.quota now fails tradeNo db).2
  | transferAffQuotaToQuota fails userId quota =>
    (UserQuota.transferAffQuotaToQuota settings.quota settings.logQuota fails userId quota db).2

def perform (job : Job) (s : State) : State :=
  match job with
  | .update id delta => { s with db := updateQuota id delta s.db }
  | .field id write => checkTTL id write s
  | .fieldNow id write ttl => writeField id write ttl s
  | .object id quota => redisHSetObj id quota settings.redisKeyCacheSeconds s

/-- The `i`-th job in hand goes on, or is given up with an error. -/
def proceed (i : ℕ) (ok : Bool) (s : State) : State :=
  match s.jobs[i]? with
  | none => s
  | some job => if ok then perform settings job (s.release i) else s.release i

def step (s : State) : Event → State
  | .increaseUserQuota id quota => match increaseUserQuota id quota s with
    | .error _ => s
    | .ok s => s
  | .decreaseUserQuota id quota => match decreaseUserQuota id quota s with
    | .error _ => s
    | .ok s => s
  | .getUserQuota redisOk fails fails' id fromDB =>
    (getUserQuota redisOk fails fails' id fromDB s).2
  | .credit call => { s with db := call.apply settings s.db }
  | .proceed i ok => proceed settings i ok s
  -- a second or more has passed, or the hash has reached the end of its life
  | .age id ttl => { s with
      cache := Function.update s.cache id ((s.cache id).map fun c ↦ ⟨c.quota, min ttl c.ttl⟩) }
  | .expire id => { s with cache := Function.update s.cache id none }

end Steps

end AllAiTools.NewApi.Model.UserCache
