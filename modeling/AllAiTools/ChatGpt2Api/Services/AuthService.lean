import AllAiTools.ChatGpt2Api.Text

namespace AllAiTools.ChatGpt2Api.Services.AuthService

open Text

section Items

inductive AuthRole
  | admin
  | user
  deriving DecidableEq

/-- A key as the service holds it. -/
structure Item where
  id : Word
  name : Word
  role : AuthRole
  keyHash : Word
  enabled : Bool
  createdAt : Word
  lastUsedAt : Option Word
  deriving DecidableEq

/-- A row of the store, by `str(value or "")` of its fields. -/
structure Row where
  id : Str
  name : Str
  role : Str
  keyHash : Str
  enabled : Option Bool
  createdAt : Str
  lastUsedAt : Str
  deriving DecidableEq

def AuthRole.text : AuthRole → Str
  | .admin => "admin".toList
  | .user => "user".toList

def roleOf (role : Str) : Option AuthRole :=
  if lower (strip role) = AuthRole.admin.text then some .admin
  else if lower (strip role) = AuthRole.user.text then some .user
  else none

def defaultName : AuthRole → Word
  | .admin => ⟨"管理员密钥".toList, by decide +kernel⟩
  | .user => ⟨"普通用户".toList, by decide +kernel⟩

def normalizeItem (freshId now : Word) (raw : Row) : Option Item :=
  match roleOf raw.role, word? raw.keyHash with
  | some role, some keyHash => some
    { id := (word? raw.id).getD freshId
      name := (word? raw.name).getD (defaultName role)
      role
      keyHash
      enabled := raw.enabled.getD true
      createdAt := (word? raw.createdAt).getD now
      lastUsedAt := word? raw.lastUsedAt }
  | _, _ => none

/-- How an item is saved. -/
def Item.row (item : Item) : Row where
  id := item.id
  name := item.name
  role := item.role.text
  keyHash := item.keyHash
  enabled := some item.enabled
  createdAt := item.createdAt
  lastUsedAt := match item.lastUsedAt with
    | some time => time
    | none => []

@[simp] theorem roleOf_text (role : AuthRole) : roleOf role.text = some role := by
  cases role <;> decide +kernel

@[simp] theorem normalizeItem_row (freshId now : Word) (item : Item) :
    normalizeItem freshId now item.row = some item := by
  obtain ⟨id, name, role, keyHash, enabled, createdAt, lastUsedAt⟩ := item
  cases lastUsedAt <;> simp [normalizeItem, Item.row]

end Items

section Storage

/-- How a save ends: an error may leave anything in the store. -/
inductive SaveOutcome
  | done
  | raised (left : List Row)

/-- What one operation meets: whether the store can be read, how its save ends, the identifiers
and keys it draws and its time. -/
structure Env where
  readable : Bool := true
  save : SaveOutcome := .done
  freshIds : ℕ → Word
  newId : Word
  tokens : List Str
  now : ℤ
  nowIso : Word

inductive Error
  | value (message : String)
  | type
  | storage
  deriving DecidableEq

structure Service where
  store : List Row
  items : List Item
  lastUsedFlushAt : Word → Option ℤ

/-- The backend of JSON files returns an empty list where the others raise. -/
def loadAuthKeys (swallows : Bool) (env : Env) (store : List Row) : Except Error (List Row) :=
  if env.readable then .ok store else if swallows then .ok [] else .error .storage

def normalizeRows (env : Env) : ℕ → List Row → List Item
  | _, [] => []
  | n, raw :: rows =>
    (normalizeItem (env.freshIds n) env.nowIso raw).toList ++ normalizeRows env (n + 1) rows

def load (swallows : Bool) (env : Env) (store : List Row) : List Item :=
  match loadAuthKeys swallows env store with
  | .ok rows => normalizeRows env 0 rows
  | .error _ => []

end Storage

section Checks

/-- `hmac.compare_digest` of two texts. -/
def compareDigest (a b : Str) : Except Error Bool :=
  if (a ++ b).all fun c ↦ c.toNat < 128 then .ok (a == b) else .error .type

variable (hash : Str → Word) (adminKey : Str)

/-- The other keys: all but the one to exclude. -/
def others (items : List Item) (excludeId : Option Word) : List Item :=
  items.filter fun item ↦ some item.id ≠ excludeId

def hasKeyHash (keyHash : Word) : List Item → Except Error Bool
  | [] => .ok false
  | item :: items => do
    if ← compareDigest item.keyHash keyHash then return true else hasKeyHash keyHash items

def buildKeyHash (items : List Item) (rawKey : Str) (excludeId : Option Word) :
    Except Error Word := do
  let candidate := strip rawKey
  if candidate = [] then throw (.value "请输入新的专用密钥")
  if strip adminKey ≠ [] then
    if ← compareDigest candidate (strip adminKey) then
      throw (.value "这个密钥和管理员密钥冲突了，请换一个新的密钥")
  if ← hasKeyHash (hash candidate) (others items excludeId) then
    throw (.value "这个专用密钥已经存在，请换一个新的密钥")
  return hash candidate

def hasName (items : List Item) (name : Word) (role : AuthRole) (excludeId : Option Word) : Bool :=
  (others items excludeId).any fun item ↦ item.role = role && item.name = name

/-- The first free one of the default names, as long as it is looked for. -/
def buildDefaultName (items : List Item) (role : AuthRole) (excludeId : Option Word) : Option Word :=
  if !hasName items (defaultName role) role excludeId then some (defaultName role)
  else (List.range (items.length + 1)).findSome? fun k ↦
    (word? ((defaultName role).val ++ " ".toList ++ (Nat.repr (k + 2)).toList)).filter
      fun candidate ↦ !hasName items candidate role excludeId

def buildName (items : List Item) (name : Str) (role : AuthRole) (excludeId : Option Word) :
    Except Error (Option Word) :=
  match word? name with
  | none => .ok (buildDefaultName items role excludeId)
  | some candidate =>
    if hasName items candidate role excludeId then
      .error (.value "这个名称已经在使用中了，换一个更容易区分的名称吧")
    else .ok (some candidate)

/-- The hash of the first key drawn that can be taken. -/
def drawKeyHash (items : List Item) : List Str → Option (Except Error Word)
  | [] => none
  | token :: tokens =>
    match buildKeyHash hash adminKey items ("sk-".toList ++ token) none with
    | .error (.value _) => drawKeyHash items tokens
    | result => some result

end Checks

section Operations

structure Updates where
  name : Option Str := none
  enabled : Option Bool := none
  key : Option Str := none

/-- How an operation ends; `running` is one whose search has not ended with what it drew. -/
inductive Outcome
  | raised (error : Error)
  | nothing
  | success
  | running
  deriving DecidableEq

/-- Saves the items at the end of an operation. -/
def saved (s : Service) (env : Env) : Service × Outcome :=
  match env.save with
  | .done => ({ s with store := s.items.map Item.row }, .success)
  | .raised left => ({ s with store := left }, .raised .storage)

variable (swallows : Bool) (hash : Str → Word) (adminKey : Str)

def reloaded (env : Env) (s : Service) : Service :=
  { s with items := load swallows env s.store }

def createKey (role : AuthRole) (name : Str) (env : Env) (s : Service) :
    Service × Outcome :=
  let s := reloaded swallows env s
  match buildName s.items name role none with
  | .error e => (s, .raised e)
  | .ok none => (s, .running)
  | .ok (some normalizedName) =>
    match drawKeyHash hash adminKey s.items env.tokens with
    | none => (s, .running)
    | some (.error e) => (s, .raised e)
    | some (.ok keyHash) =>
      let item : Item :=
        { id := env.newId, name := normalizedName, role, keyHash, enabled := true
          createdAt := env.nowIso, lastUsedAt := none }
      saved { s with items := s.items ++ [item] } env

def updatedName (items : List Item) (item : Item) (updates : Updates) :
    Except Error (Option Word) :=
  match updates.name with
  | none => .ok (some item.name)
  | some name => buildName items name item.role (some item.id)

def updatedKeyHash (items : List Item) (item : Item) (updates : Updates) : Except Error Word :=
  match updates.key with
  | none => .ok item.keyHash
  | some key => buildKeyHash hash adminKey items key (some item.id)

/-- The item with the updates made; none as long as a name is looked for. -/
def updateItem (items : List Item) (item : Item) (updates : Updates) :
    Except Error (Option Item) :=
  match updatedName items item updates with
  | .error e => .error e
  | .ok none => .ok none
  | .ok (some name) => (updatedKeyHash hash adminKey items item updates).map fun keyHash ↦
    some { item with name, enabled := updates.enabled.getD item.enabled, keyHash }

def updateKey (keyId : Str) (updates : Updates) (role : Option AuthRole) (env : Env)
    (s : Service) : Service × Outcome :=
  match word? keyId with
  | none => (s, .nothing)
  | some normalizedId =>
    let s := reloaded swallows env s
    match s.items.findIdx? (·.id = normalizedId), s.items.find? (·.id = normalizedId) with
    | some index, some item =>
      if role.any (· ≠ item.role) then (s, .nothing)
      else match updateItem hash adminKey s.items item updates with
        | .error e => (s, .raised e)
        | .ok none => (s, .running)
        | .ok (some next) => saved { s with items := s.items.set index next } env
    | _, _ => (s, .nothing)

def deleteKey (keyId : Str) (role : Option AuthRole) (env : Env) (s : Service) :
    Service × Outcome :=
  match word? keyId with
  | none => (s, .nothing)
  | some normalizedId =>
    let s := reloaded swallows env s
    let left := s.items.filter fun item ↦ !(item.id = normalizedId && role.all (· = item.role))
    if left.length = s.items.length then ({ s with items := left }, .nothing)
    else saved { s with items := left } env

/-- The place of the first enabled key with this hash. -/
def findHash (keyHash : Word) : ℕ → List Item → Except Error (Option (ℕ × Item))
  | _, [] => .ok none
  | n, item :: items => do
    if !item.enabled then findHash keyHash (n + 1) items
    else if ← compareDigest item.keyHash keyHash then return some (n, item)
    else findHash keyHash (n + 1) items

/-- A minute in microseconds. -/
def flushAfter : ℤ := 60000000

def authenticate (rawKey : Str) (env : Env) (s : Service) : Service × Outcome :=
  if strip rawKey = [] then (s, .nothing)
  else match findHash (hash (strip rawKey)) 0 s.items with
    | .error e => (s, .raised e)
    | .ok none => (s, .nothing)
    | .ok (some (index, item)) =>
      let s := { s with items := s.items.set index { item with lastUsedAt := some env.nowIso } }
      if (s.lastUsedFlushAt item.id).all fun last ↦ flushAfter ≤ env.now - last then
        match env.save with
        | .done =>
          ({ s with
              store := s.items.map Item.row
              lastUsedFlushAt := Function.update s.lastUsedFlushAt item.id (some env.now) },
            .success)
        | .raised left => ({ s with store := left }, .success)
      else (s, .success)

inductive Operation
  | create (role : AuthRole) (name : Str)
  | update (keyId : Str) (updates : Updates) (role : Option AuthRole)
  | delete (keyId : Str) (role : Option AuthRole)
  | authenticate (rawKey : Str)

def operate (s : Service) (op : Operation × Env) : Service × Outcome :=
  match op.1 with
  | .create role name => createKey swallows hash adminKey role name op.2 s
  | .update keyId updates role => updateKey swallows hash adminKey keyId updates role op.2 s
  | .delete keyId role => deleteKey swallows keyId role op.2 s
  | .authenticate rawKey => authenticate hash rawKey op.2 s

/-- The service over a store with these keys, as its first load leaves it. -/
def start (env : Env) (items : List Item) : Service where
  store := items.map Item.row
  items := load swallows env (items.map Item.row)
  lastUsedFlushAt _ := none

end Operations

end AllAiTools.ChatGpt2Api.Services.AuthService
