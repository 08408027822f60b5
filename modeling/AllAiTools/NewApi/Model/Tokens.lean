import AllAiTools.Foundation.Table
import AllAiTools.NewApi.Common.Str

namespace AllAiTools.NewApi.Model.Tokens

open Foundation Common.Str

structure Token where
  id : ℤ
  userId : ℤ
  key : String
  status : ℤ
  expiredTime : ℤ
  remainQuota : ℤ
  unlimitedQuota : Bool
  allowIps : Option String
  group : String
  rotationKey : String
  rotationExpiresAt : ℤ

def tokenStatusEnabled : ℤ := 1
def tokenStatusExpired : ℤ := 3
def tokenStatusExhausted : ℤ := 4

def Token.clean (token : Token) : Token := { token with key := "" }

def Token.getIpLimits (token : Token) : List String :=
  match token.allowIps with
  | none => []
  | some allowIps =>
    let cleanIps := removeAll allowIps ' '
    if cleanIps = "" then []
    else ((split cleanIps '\n').map fun ip ↦ removeAll (trimSpace ip) ',').filter (· ≠ "")

/-- What a call has left to do to the cache. A rotation deletes the entry of the old key before
it enters the new one. -/
inductive Job where
  | set (token : Token)
  | delete (key : String)
  | rotated (token : Token)

/-- The hashes of the cache lie under the digests of their keys; `hands` are the tokens that
calls have loaded and not yet written back. -/
structure State where
  db : Table Token.id
  cache : String → Option Token
  jobs : List Job
  hands : List Token
  now : ℤ

structure Settings where
  redisEnabled : Bool
  generateHMAC : String → String

/-- What fails of one request: the cache, the two queries and the status update. -/
structure Faults where
  redisOk : Bool
  byKey : Option String
  byRotationKey : Option String
  selectUpdate : Option String

inductive DbError where
  | recordNotFound
  | failed (e : String)

inductive TokenError where
  | notProvided
  | invalid
  | database (e : String)

variable (settings : Settings)

section Cache

def cacheSetToken (token : Token) (s : State) : State :=
  { s with cache := Function.update s.cache (settings.generateHMAC token.key) (some token.clean) }

def cacheDeleteToken (key : String) (s : State) : State :=
  { s with cache := Function.update s.cache (settings.generateHMAC key) none }

def cacheGetTokenByKey (redisOk : Bool) (key : String) (s : State) : Option Token :=
  if settings.redisEnabled ∧ redisOk then
    (s.cache (settings.generateHMAC key)).map fun token ↦ { token with key := key }
  else none

/-- `gopool.Go`, where there is a cache to update. -/
def State.spawn (s : State) (job : Job) : State :=
  if settings.redisEnabled then { s with jobs := s.jobs ++ [job] } else s

def perform (job : Job) (ok : Bool) (s : State) : State :=
  match job, ok with
  | .set token, true => cacheSetToken settings token s
  | .delete key, true => cacheDeleteToken settings key s
  | .rotated token, true => (cacheDeleteToken settings token.rotationKey s).spawn settings (.set token)
  | .rotated token, false => s.spawn settings (.set token)
  | _, false => s

/-- The `i`-th job in hand is done, or fails. -/
def proceed (i : ℕ) (ok : Bool) (s : State) : State :=
  match s.jobs[i]? with
  | none => s
  | some job => perform settings job ok { s with jobs := s.jobs.eraseIdx i }

end Cache

section Database

/-- `UPDATE` of the columns `f` writes of the row with a given id. -/
def updates (id : ℤ) (f : Token → Token) (db : Table Token.id) : Table Token.id :=
  match db.find id with
  | none => db
  | some row => db.save { f row with id := row.id }

/-- The query by a column, from the database or, for the column that names the cached hash, from
the cache first. -/
def getTokenBy (query : Token → Bool) (redisOk : Bool) (fails : Option String) (key : String)
    (s : State) : Except DbError Token × State :=
  match cacheGetTokenByKey settings redisOk key s with
  | some token => (.ok token, s)
  | none => match fails, s.db.rows.find? query with
    | some e, _ => (.error (.failed e), s)
    | none, none => (.error .recordNotFound, s)
    | none, some token => (.ok token, s.spawn settings (.set token))

def getTokenByKey (faults : Faults) (key : String) (s : State) : Except DbError Token × State :=
  getTokenBy settings (fun token ↦ token.key = key) faults.redisOk faults.byKey key s

def getTokenByRotationKey (faults : Faults) (key : String) (s : State) :
    Except DbError Token × State :=
  getTokenBy settings (fun token ↦ token.rotationKey = key ∧ s.now < token.rotationExpiresAt)
    faults.redisOk faults.byRotationKey key s

def selectUpdate (fails : Option String) (token : Token) (s : State) : State :=
  match fails with
  | some _ => s
  | none => State.spawn settings
    { s with db := updates token.id (fun row ↦ { row with status := token.status }) s.db }
    (.set token)

/-- The query by key and, where it finds nothing, the one by old key. -/
def lookUp (faults : Faults) (key : String) (s : State) : Except DbError Token × State :=
  match getTokenByKey settings faults key s with
  | (.error .recordNotFound, s) => getTokenByRotationKey settings faults key s
  | found => found

/-- What `ValidateUserToken` asks of the token it has found. -/
def checkToken (faults : Faults) (token : Token) (s : State) : Except TokenError Token × State :=
  let refuse (status : ℤ) : State :=
    if settings.redisEnabled then s
    else selectUpdate settings faults.selectUpdate { token with status := status } s
  if token.status ≠ tokenStatusEnabled then (.error .invalid, s)
  else if token.expiredTime ≠ -1 ∧ token.expiredTime < s.now then
    (.error .invalid, refuse tokenStatusExpired)
  else if ¬token.unlimitedQuota ∧ token.remainQuota ≤ 0 then
    (.error .invalid, refuse tokenStatusExhausted)
  else (.ok token, s)

def validateUserToken (faults : Faults) (key : String) (s : State) :
    Except TokenError Token × State :=
  if key = "" then (.error .notProvided, s)
  else match lookUp settings faults key s with
    | (.error .recordNotFound, s) => (.error .invalid, s)
    | (.error (.failed e), s) => (.error (.database e), s)
    | (.ok token, s) => checkToken settings faults token s

end Database

section Calls

/-- The row `AddToken` creates with a key of `GenerateKey`. -/
def newToken (id userId : ℤ) (key : String) (expiredTime remainQuota : ℤ) (unlimitedQuota : Bool)
    (allowIps : Option String) (group : String) : Token where
  id := id
  userId := userId
  key := key
  status := tokenStatusEnabled
  expiredTime := expiredTime
  remainQuota := remainQuota
  unlimitedQuota := unlimitedQuota
  allowIps := allowIps
  group := group
  rotationKey := ""
  rotationExpiresAt := 0

/-- The unique index on the key. -/
def keyTaken (db : Table Token.id) (token : Token) : Prop :=
  ∃ row ∈ db.rows, row.id ≠ token.id ∧ row.key = token.key

instance (db : Table Token.id) (token : Token) : Decidable (keyTaken db token) :=
  inferInstanceAs (Decidable (∃ row ∈ db.rows, row.id ≠ token.id ∧ row.key = token.key))

def insert (fails : Option String) (token : Token) (s : State) : Option State :=
  if fails.isSome ∨ keyTaken s.db token then none
  else (s.db.insert token).map fun db ↦ { s with db := db }

def getTokenByIds (fails : Option String) (id userId : ℤ) (s : State) : Option Token :=
  if id = 0 ∨ userId = 0 ∨ fails.isSome then none
  else (s.db.find id).filter (·.userId = userId)

/-- The fields of a loaded token that its user may set before `Update`. -/
structure Edit where
  status : ℤ
  expiredTime : ℤ
  remainQuota : ℤ
  unlimitedQuota : Bool
  allowIps : Option String
  group : String

def Edit.apply (edit : Edit) (token : Token) : Token :=
  { token with
    status := edit.status
    expiredTime := edit.expiredTime
    remainQuota := edit.remainQuota
    unlimitedQuota := edit.unlimitedQuota
    allowIps := edit.allowIps
    group := edit.group }

/-- `Update` writes the columns of the token in hand, not its key. -/
def Token.update (fails : Option String) (token : Token) (s : State) : State :=
  match fails with
  | some _ => s
  | none => State.spawn settings
    { s with db := updates token.id (fun row ↦ { token with key := row.key }) s.db } (.set token)

def Token.delete (fails : Option String) (token : Token) (s : State) : State :=
  match fails with
  | some _ => s
  | none => State.spawn settings { s with db := s.db.remove token.id } (.delete token.key)

/-- The token as `RotateKey` leaves it, with the UUID it drew. -/
def Token.rotate (uuid : String) (now : ℤ) (token : Token) : Token :=
  { token with
    rotationKey := token.key
    rotationExpiresAt := now + 86400 * 7
    key := "sk-" ++ uuid }

/-- `RotateKey` up to its goroutine; `none` where the update fails. -/
def Token.rotateKey (fails : Option String) (uuid : String) (token : Token) (s : State) :
    Option (String × State) :=
  let token := token.rotate uuid s.now
  if fails.isSome ∨ keyTaken s.db token then none
  else some (token.key, State.spawn settings
    { s with db := updates token.id (fun row ↦
        { row with
          key := token.key
          rotationKey := token.rotationKey
          rotationExpiresAt := token.rotationExpiresAt }) s.db }
    (.rotated token))

end Calls

end AllAiTools.NewApi.Model.Tokens
