import AllAiTools.Foundation.Sorting
import AllAiTools.Foundation.Table

namespace AllAiTools.NewApi.Model.BatchUpdate

open Foundation

inductive BatchUpdateType
  | userQuota | tokenQuota | usedQuota | channelUsedQuota | requestCount
  deriving DecidableEq

/-- The types in the order of their numbers. -/
def BatchUpdateType.all : List BatchUpdateType :=
  [.userQuota, .tokenQuota, .usedQuota, .channelUsedQuota, .requestCount]

/-- A map from ids to pending values. -/
abbrev Pending := Table (Prod.fst : ℤ × ℤ → ℤ)

/-- The value of an id, zero for one that the map does not have. -/
def valueOf (store : Pending) (id : ℤ) : ℤ := ((store.find id).map Prod.snd).getD 0

def keys (store : Pending) : List ℤ := store.rows.map Prod.fst

structure UserRow where
  id : ℤ
  quota : ℤ
  usedQuota : ℤ
  requestCount : ℤ

structure TokenRow where
  id : ℤ
  remainQuota : ℤ
  usedQuota : ℤ

structure ChannelRow where
  id : ℤ
  usedQuota : ℤ

structure Database where
  users : Table UserRow.id
  tokens : Table TokenRow.id
  channels : Table ChannelRow.id

/-- A write of the flusher. -/
inductive Write
  | token (id value : ℤ)
  | channel (id value : ℤ)
  | user (id quota usedQuota requestCount : ℤ)

section Writes

variable (db : Database)

def increaseTokenQuota (id quota : ℤ) : Database :=
  match db.tokens.find id with
  | none => db
  | some token =>
    { db with tokens := db.tokens.save { token with
        remainQuota := token.remainQuota + quota
        usedQuota := token.usedQuota - quota } }

def updateChannelUsedQuota (id quota : ℤ) : Database :=
  match db.channels.find id with
  | none => db
  | some channel =>
    { db with channels := db.channels.save { channel with usedQuota := channel.usedQuota + quota } }

def updateUserQuotaUsedQuotaAndRequestCount (id quota usedQuota requestCount : ℤ) : Database :=
  if quota = 0 ∧ usedQuota = 0 ∧ requestCount = 0 then db
  else match db.users.find id with
    | none => db
    | some user =>
      { db with users := db.users.save { user with
          quota := user.quota + quota
          usedQuota := user.usedQuota + usedQuota
          requestCount := user.requestCount + requestCount } }

/-- A write that succeeds. -/
def Write.run : Write → Database
  | .token id value => increaseTokenQuota db id value
  | .channel id value => updateChannelUsedQuota db id value
  | .user id quota usedQuota requestCount =>
    updateUserQuotaUsedQuotaAndRequestCount db id quota usedQuota requestCount

end Writes

/-- Where a run of `batchUpdate` is. -/
inductive Flusher
  | idle
  | checking (types : List BatchUpdateType)
  | swapping (stores : BatchUpdateType → Pending) (types : List BatchUpdateType)
  | writing (writes : List Write)

structure State where
  batchUpdateStores : BatchUpdateType → Pending
  flusher : Flusher
  db : Database

/-- Under the lock of the type's store. -/
def addNewRecord (stores : BatchUpdateType → Pending) (type : BatchUpdateType) (id value : ℤ) :
    BatchUpdateType → Pending :=
  match (stores type).find id with
  | none => Function.update stores type (((stores type).insert (id, value)).getD (stores type))
  | some (_, old) => Function.update stores type ((stores type).save (id, old + value))

/-- The writes for the stores that were swapped out: tokens, channels, then users. -/
def plan (order : MapOrder ℤ) (stores : BatchUpdateType → Pending) : List Write :=
  ((order.visit (keys (stores .tokenQuota))).map fun id ↦
    .token id (valueOf (stores .tokenQuota) id)) ++
  ((order.visit (keys (stores .channelUsedQuota))).map fun id ↦
    .channel id (valueOf (stores .channelUsedQuota) id)) ++
  ((order.visit (keys (stores .userQuota) ++ keys (stores .usedQuota) ++
      keys (stores .requestCount)).dedup).map fun id ↦
    .user id (valueOf (stores .userQuota) id) (valueOf (stores .usedQuota) id)
      (valueOf (stores .requestCount) id))

/-- The next step of the flusher; a write that fails is logged only. -/
def flush (order : MapOrder ℤ) (s : State) (succeeds : Bool) : State :=
  match s.flusher with
  | .idle => { s with flusher := .checking BatchUpdateType.all }
  | .checking [] => { s with flusher := .idle }
  | .checking (type :: types) =>
    if (s.batchUpdateStores type).rows ≠ [] then
      { s with flusher := .swapping (fun _ ↦ .empty) BatchUpdateType.all }
    else { s with flusher := .checking types }
  | .swapping stores [] => { s with flusher := .writing (plan order stores) }
  | .swapping stores (type :: types) =>
    { s with
      batchUpdateStores := Function.update s.batchUpdateStores type .empty
      flusher := .swapping (Function.update stores type (s.batchUpdateStores type)) types }
  | .writing [] => { s with flusher := .idle }
  | .writing (write :: writes) =>
    { s with
      db := if succeeds then write.run s.db else s.db
      flusher := .writing writes }

/-- What happens next: a record is added, or the flusher goes on. -/
inductive Event
  | add (type : BatchUpdateType) (id value : ℤ)
  | tick (succeeds : Bool)

def step (order : MapOrder ℤ) (s : State) : Event → State
  | .add type id value =>
    { s with batchUpdateStores := addNewRecord s.batchUpdateStores type id value }
  | .tick succeeds => flush order s succeeds

end AllAiTools.NewApi.Model.BatchUpdate
