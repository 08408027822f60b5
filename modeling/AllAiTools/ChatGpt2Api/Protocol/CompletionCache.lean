import Mathlib

namespace AllAiTools.ChatGpt2Api.Protocol.CompletionCache

structure Settings where
  enabled : Bool
  streamCache : Bool
  dedupeInflight : Bool
  ttlSeconds : ℕ
  maxEntries : ℕ

/-- The method a caller is in, and the kind of value its compute makes. -/
inductive Kind
  | response
  | stream
  deriving DecidableEq

/-- A call of the cache, with the settings it reads. -/
structure Request (K : Type) where
  kind : Kind
  key : K
  settings : Settings

/-- A value by its parts: a dictionary is one, a list of chunks has one for each. -/
structure Stored (α : Type) where
  kind : Kind
  parts : List α
  deriving DecidableEq

def Stored.map {α β : Type} (f : α → β) (value : Stored α) : Stored β :=
  ⟨value.kind, value.parts.map f⟩

structure CacheEntry where
  expiresAt : ℚ
  value : Stored ℕ

/-- What a caller ends with: an error of its compute, or the `close` of its consumer. -/
inductive Fault (E : Type)
  | raised (error : E)
  | generatorExit
  deriving DecidableEq

/-- `settled` is `none` until the call is done. -/
structure InflightCall (K E : Type) where
  key : K
  settled : Option (Except (Fault E) (Stored ℕ))

/-- What a `with` block holds. -/
inductive Guard
  | lock
  | condition (call : ℕ)
  deriving DecidableEq

/-- Where a caller stands. At `yielding` and `replaying` it is suspended at a `yield`. -/
inductive Pc (V E : Type)
  | idle
  | bypassing
  | computing (call : ℕ) (chunks : List ℕ) (produced : List V)
  | yielding (call : ℕ) (chunks : List ℕ) (produced : List V)
  | failing (call : ℕ) (fault : Fault E)
  | reporting (call : ℕ) (fault : Fault E)
  | storing (call : ℕ) (value : Stored ℕ)
  | publishing (call : ℕ) (value : Stored ℕ)
  | waiting (call : ℕ)
  | replaying (guard : Guard) (rest : List V)
  | returned (value : Stored V)
  | raised (fault : Fault E)
  | closed

structure Caller (V E : Type) where
  pc : Pc V E
  waitedOn : Option ℕ
  got : List V

/-- The cache, the objects that values are made of, those of them that were handed out and those a
compute returned to its caller, and what the computes came to. -/
structure State (K V E : Type) where
  heap : ℕ → V
  nextObject : ℕ
  handed : List ℕ
  maker : ℕ → Option ℕ
  entries : List (K × CacheEntry)
  inflight : K → Option ℕ
  calls : ℕ → Option (InflightCall K E)
  nextCall : ℕ
  holder : Guard → Option ℕ
  callers : ℕ → Caller V E
  computed : List (K × Stored V)
  failures : List (K × E)

variable {K V E : Type} [DecidableEq K]

namespace State

variable (s : State K V E)

/-- New objects with these contents. -/
def allocate (maker : Option ℕ) (contents : List V) : State K V E :=
  { s with
    heap := fun object ↦
      if s.nextObject ≤ object then
        contents.getD (object - s.nextObject) (s.heap object)
      else s.heap object
    maker := fun object ↦ if s.nextObject ≤ object then maker else s.maker object
    nextObject := s.nextObject + contents.length }

/-- The objects that `allocate` makes. -/
def fresh (contents : List V) : List ℕ := List.range' s.nextObject contents.length

def content (value : Stored ℕ) : Stored V := value.map s.heap

/-- `copy.deepcopy`. -/
def copied (value : Stored ℕ) : Stored ℕ := ⟨value.kind, s.fresh (s.content value).parts⟩

def withCopy (value : Stored ℕ) : State K V E := s.allocate none (s.content value).parts

def handOut (objects : List ℕ) : State K V E := { s with handed := objects ++ s.handed }

def setCaller (c : ℕ) (caller : Caller V E) : State K V E :=
  { s with callers := Function.update s.callers c caller }

def setPc (c : ℕ) (pc : Pc V E) : State K V E := s.setCaller c { s.callers c with pc := pc }

def setHolder (guard : Guard) (holder : Option ℕ) : State K V E :=
  { s with holder := Function.update s.holder guard holder }

end State

section Entries

/-- The oldest entries go until no more than `maxEntries` are left. -/
def evict (maxEntries : ℕ) : ℕ → List (K × CacheEntry) → List (K × CacheEntry)
  | 0, entries => entries
  | turns + 1, entries =>
    if maxEntries < entries.length then
      match entries.argmin fun entry ↦ entry.2.expiresAt with
      | some oldest => evict maxEntries turns (entries.filter fun entry ↦ entry.1 ≠ oldest.1)
      | none => entries
    else entries

def prune (now : ℚ) (maxEntries : ℕ) (entries : List (K × CacheEntry)) :
    List (K × CacheEntry) :=
  let live := entries.filter fun entry ↦ now < entry.2.expiresAt
  evict maxEntries live.length live

/-- `entries[key] = entry`. -/
def setEntry (key : K) (entry : CacheEntry) (entries : List (K × CacheEntry)) :
    List (K × CacheEntry) :=
  if entries.any fun old ↦ old.1 = key then
    entries.map fun old ↦ if old.1 = key then (key, entry) else old
  else entries ++ [(key, entry)]

end Entries

inductive Action (V E : Type)
  | call (c : ℕ) (now : ℚ)
  | respond (c : ℕ) (value : V)
  | produce (c : ℕ) (chunk : V)
  | resume (c : ℕ)
  | close (c : ℕ)
  | finish (c : ℕ)
  | fail (c : ℕ) (error : E)
  | unlist (c : ℕ)
  | report (c : ℕ)
  | store (c : ℕ) (computedAt now : ℚ)
  | publish (c : ℕ)
  | wake (c : ℕ)
  | write (object : ℕ) (value : V)
  | clear

-- `keysOf` is what the iteration over a dictionary yields.
variable (requests : ℕ → Request K) (keysOf : V → List V)

def bypasses (request : Request K) : Bool :=
  !request.settings.enabled || request.settings.ttlSeconds = 0 ||
    (request.kind = .stream && !request.settings.streamCache)

/-- What `yield from` yields of a value. -/
def itemsOf (value : Stored V) : List V :=
  match value.kind with
  | .stream => value.parts
  | .response => value.parts.flatMap keysOf

section Steps

variable (s : State K V E) (c : ℕ)

/-- The next item is handed out, and the caller is suspended with what it holds. -/
def deliver (guard : Guard) (item : V) (rest : List V) : State K V E :=
  (((s.allocate none [item]).handOut (s.fresh [item])).setHolder guard (some c)).setCaller c
    { s.callers c with got := (s.callers c).got ++ [item], pc := .replaying guard rest }

/-- `yield from` within a `with` block. -/
def replay (guard : Guard) : List V → State K V E
  | [] => (s.setHolder guard none).setPc c (.returned ⟨.stream, (s.callers c).got⟩)
  | item :: rest => deliver s c guard item rest

/-- A kept value is given to a caller, within the block it is read in. -/
def serve (guard : Guard) (value : Stored ℕ) : State K V E :=
  match (requests c).kind with
  | .response =>
    ((s.withCopy value).handOut (s.copied value).parts).setPc c (.returned (s.content value))
  | .stream => replay s c guard (itemsOf keysOf (s.content value))

/-- The entry that is found in the first block. -/
def liveEntry (now : ℚ) : Option CacheEntry :=
  ((prune now (requests c).settings.maxEntries s.entries).lookup (requests c).key).filter
    fun entry ↦ now < entry.expiresAt

def own : State K V E :=
  { s with
    calls := Function.update s.calls s.nextCall (some ⟨(requests c).key, none⟩)
    nextCall := s.nextCall + 1
    inflight :=
      if (requests c).settings.dedupeInflight then
        Function.update s.inflight (requests c).key (some s.nextCall)
      else s.inflight }.setPc c (.computing s.nextCall [] [])

def call (now : ℚ) : State K V E :=
  match (s.callers c).pc with
  | .idle =>
    if bypasses (requests c) then s.setPc c .bypassing
    else if s.holder .lock ≠ none then s
    else
      let pruned := { s with entries := prune now (requests c).settings.maxEntries s.entries }
      match liveEntry requests s c now with
      | some entry => serve requests keysOf pruned c .lock entry.value
      | none =>
        match if (requests c).settings.dedupeInflight then s.inflight (requests c).key else none with
        | some i =>
          pruned.setCaller c { s.callers c with pc := .waiting i, waitedOn := some i }
        | none => own requests pruned c
  | _ => s

/-- The compute of a response returns. -/
def respond (value : V) : State K V E :=
  match (s.callers c).pc, (requests c).kind with
  | .computing i _ _, .response =>
    { s.allocate (some c) [value] with
      computed := ((requests c).key, ⟨.response, [value]⟩) :: s.computed }.setPc c
        (.storing i ⟨.response, s.fresh [value]⟩)
  | _, _ => s

/-- The compute of a stream yields a chunk, which is copied and yielded on. -/
def produce (chunk : V) : State K V E :=
  match (s.callers c).pc, (requests c).kind with
  | .computing i chunks produced, .stream =>
    ((s.allocate none [chunk, chunk]).handOut [s.nextObject]).setPc c
      (.yielding i (chunks ++ [s.nextObject + 1]) (produced ++ [chunk]))
  | _, _ => s

def resume : State K V E :=
  match (s.callers c).pc with
  | .yielding i chunks produced => s.setPc c (.computing i chunks produced)
  | .replaying guard rest => replay s c guard rest
  | _ => s

/-- The consumer closes a suspended generator. -/
def close : State K V E :=
  match (s.callers c).pc with
  | .yielding i _ _ => s.setPc c (.failing i .generatorExit)
  | .replaying guard _ => (s.setHolder guard none).setPc c .closed
  | _ => s

/-- The compute of a stream has no more chunks. -/
def finish : State K V E :=
  match (s.callers c).pc, (requests c).kind with
  | .computing i chunks produced, .stream =>
    { s with computed := ((requests c).key, ⟨.stream, produced⟩) :: s.computed }.setPc c
      (.storing i ⟨.stream, chunks⟩)
  | _, _ => s

/-- The compute raises. -/
def fail (error : E) : State K V E :=
  match (s.callers c).pc with
  | .computing i _ _ =>
    { s with failures := ((requests c).key, error) :: s.failures }.setPc c
      (.failing i (.raised error))
  | _ => s

def unlist : State K V E :=
  match (s.callers c).pc with
  | .failing i fault =>
    if s.holder .lock ≠ none then s
    else
      { s with inflight := Function.update s.inflight (requests c).key none }.setPc c
        (.reporting i fault)
  | _ => s

def settle (i : ℕ) (result : Except (Fault E) (Stored ℕ)) : State K V E :=
  { s with
    calls := Function.update s.calls i
      ((s.calls i).map fun (inflight : InflightCall K E) ↦ { inflight with settled := some result }) }

def report : State K V E :=
  match (s.callers c).pc with
  | .reporting i fault =>
    if s.holder (.condition i) ≠ none then s
    else (settle s i (.error fault)).setPc c (.raised fault)
  | _ => s

def store (computedAt now : ℚ) : State K V E :=
  match (s.callers c).pc with
  | .storing i value =>
    if s.holder .lock ≠ none then s
    else
      { s.withCopy value with
        entries := prune now (requests c).settings.maxEntries
          (setEntry (requests c).key
            ⟨computedAt + (requests c).settings.ttlSeconds, s.copied value⟩ s.entries)
        inflight := Function.update s.inflight (requests c).key none }.setPc c
          (.publishing i value)
  | _ => s

/-- The value is published; of a response the caller gets the value that was computed. -/
def publish : State K V E :=
  match (s.callers c).pc with
  | .publishing i value =>
    if s.holder (.condition i) ≠ none then s
    else
      ((settle (s.withCopy value) i (.ok (s.copied value))).handOut
        (if value.kind = .response then value.parts else [])).setPc c (.returned (s.content value))
  | _ => s

def wake : State K V E :=
  match (s.callers c).pc with
  | .waiting i =>
    if s.holder (.condition i) ≠ none then s
    else
      match (s.calls i).bind InflightCall.settled with
      | some (.error fault) => s.setPc c (.raised fault)
      | some (.ok value) => serve requests keysOf s c (.condition i) value
      | none => s
  | _ => s

/-- A consumer changes an object it was given. -/
def write (object : ℕ) (value : V) : State K V E :=
  if object ∈ s.handed then { s with heap := Function.update s.heap object value } else s

def clear : State K V E :=
  if s.holder .lock ≠ none then s else { s with entries := [], inflight := fun _ ↦ none }

end Steps

/-- What cannot go on now is a step that changes nothing. -/
def step (s : State K V E) : Action V E → State K V E
  | .call c now => call requests keysOf s c now
  | .respond c value => respond requests s c value
  | .produce c chunk => produce requests s c chunk
  | .resume c => resume s c
  | .close c => close s c
  | .finish c => finish requests s c
  | .fail c error => fail requests s c error
  | .unlist c => unlist requests s c
  | .report c => report s c
  | .store c computedAt now => store requests s c computedAt now
  | .publish c => publish s c
  | .wake c => wake requests keysOf s c
  | .write object value => write s object value
  | .clear => clear s

def initial (heap : ℕ → V) : State K V E where
  heap := heap
  nextObject := 0
  handed := []
  maker := fun _ ↦ none
  entries := []
  inflight := fun _ ↦ none
  calls := fun _ ↦ none
  nextCall := 0
  holder := fun _ ↦ none
  callers := fun _ ↦ ⟨.idle, none, []⟩
  computed := []
  failures := []

end AllAiTools.ChatGpt2Api.Protocol.CompletionCache
