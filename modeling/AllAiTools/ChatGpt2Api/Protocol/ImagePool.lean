import AllAiTools.ChatGpt2Api.Services.AccountService

namespace AllAiTools.ChatGpt2Api.Protocol.ImagePool

open Text Services.AccountService

section Models

def codexImageModel : Str := "codex-gpt-image-2".toList

def baseImageModels : List Str := ["gpt-image-2".toList, codexImageModel]

def imageModelPlanTypes : List Str := ["plus".toList, "team".toList, "pro".toList]

/-- `split_image_model`. -/
def splitImageModel (model : Str) : Option (Option Str × Str) :=
  let normalized := lower (strip model)
  if baseImageModels.contains normalized then some (none, normalized)
  else
    (imageModelPlanTypes.find? fun planType ↦
      normalized = planType ++ '-' :: codexImageModel).map fun planType ↦
        (some planType, codexImageModel)

/-- The account that an image of the model is made with. -/
def wantedFor (planType : Option Str) (baseModel : Str) : Wanted where
  planType := planType
  sourceType := if baseModel = codexImageModel then some codex else none
  planTypes := if baseModel = codexImageModel ∧ planType = none then imageModelPlanTypes else []

def isTokenInvalidError (message : Str) : Bool :=
  ["token_invalidated", "token_revoked", "authentication token has been invalidated",
    "invalidated oauth token"].any fun part ↦ part.toList <:+: lower message

end Models

structure ConversationRequest where
  model : Str
  n : ℕ
  messageAsError : Bool

inductive OutputKind
  | progress
  | message
  | result
  deriving DecidableEq

/-- What the upstream stream of an image may raise. -/
inductive Raised
  | imagePollTimeout
  | imageGeneration
  | other (message : Str)
  deriving DecidableEq

/-- What a turn of the loop has seen of its outputs. -/
structure Outputs where
  emittedForToken : Bool
  returnedMessage : Bool
  returnedResult : Bool

/-- Where a client stands: before its first turn, waiting for a token, in `fetch_remote_info` and
after it, in the upstream stream, at a `yield`, between the parts of `mark_image_result`, and at
its end. A turn is for the image at an index, and `slot` is the number of the slot it acquired. -/
inductive Pc
  | created
  | acquiring (index : ℕ) (attempted : List Word)
  | fetching (index : ℕ) (attempted : List Word) (slot : ℕ) (token : Word)
  | fetched (index : ℕ) (attempted : List Word) (slot : ℕ) (token : Word)
      (account : Option (Word × Account))
  | streaming (index slot : ℕ) (token : Word) (outputs : Outputs)
  | suspended (index slot : ℕ) (token : Word) (outputs : Outputs)
  | recording (token : Word) (success : Bool) (next : Option ℕ)
  | ended

/-- A slot as it was acquired, with the token its account goes by now, whether its count was
dropped with the account, and how often it was released. -/
structure Slot where
  client : ℕ
  account : Word
  dropped : Bool
  releases : ℕ

/-- The service and its clients. The slots are only for counting: nothing reads them. -/
structure State where
  service : Service
  clients : ℕ → Pc
  slots : List Slot

inductive Action
  | start (c : ℕ)
  | acquire (c : ℕ)
  | fetchRaised (c : ℕ)
  | fetch (c : ℕ) (activeToken : Word) (result : Fields)
  | check (c : ℕ)
  | output (c : ℕ) (kind : OutputKind)
  | resume (c : ℕ)
  | close (c : ℕ)
  | finish (c : ℕ)
  | raise (c : ℕ) (error : Raised)
  | record (c : ℕ)
  | applyRefreshedTokens (oldAccessToken : Word) (accessToken : Str)
  | deleteAccounts (tokens : List Str)
  | addAccountPayloads (payloads : List (Str × Fields))
  | updateAccount (token : Word) (updates : Fields)

variable (config : Config) (requests : ℕ → ConversationRequest)

section Steps

variable (s : State) (c : ℕ)

def setPc (pc : Pc) : State := { s with clients := Function.update s.clients c pc }

/-- The turn for an image, if there is one. -/
def turn (index : ℕ) : Pc := if index ≤ (requests c).n then .acquiring index [] else .ended

def start : State :=
  match s.clients c, splitImageModel (requests c).model with
  | .created, some _ => setPc s c (turn requests c 1)
  | .created, none => setPc s c .ended
  | _, _ => s

def wantedBy : Wanted :=
  match splitImageModel (requests c).model with
  | some (planType, baseModel) => wantedFor planType baseModel
  | none => ⟨none, none, []⟩

/-- `_acquire_next_candidate_token`, which waits as long as all that is ready is taken. -/
def acquire : State :=
  match s.clients c with
  | .acquiring index attempted =>
    if s.service.listReadyCandidateTokens (wantedBy requests c) attempted = [] then
      setPc s c .ended
    else
      match s.service.acquireNextCandidateToken config (wantedBy requests c) attempted with
      | some (token, service) =>
        { service
          clients := Function.update s.clients c
            (.fetching index (token :: attempted) s.slots.length token)
          slots := s.slots ++ [⟨c, token, false, 0⟩] }
      | none => s
  | _ => s

/-- `release_image_slot`, for a slot. -/
def release (slot : ℕ) (token : Word) (pc : Pc) : State where
  service := s.service.releaseImageSlot token
  clients := Function.update s.clients c pc
  slots := s.slots.modify slot fun held ↦ { held with releases := held.releases + 1 }

def fetchRaised : State :=
  match s.clients c with
  | .fetching index attempted slot token => release s c slot token (.acquiring index attempted)
  | _ => s

/-- `fetch_remote_info` ends with an update of the account. -/
def fetch (activeToken : Word) (result : Fields) : State :=
  match s.clients c with
  | .fetching index attempted slot token =>
    let updated := s.service.updateAccount config activeToken result
    setPc { s with service := updated.1 } c (.fetched index attempted slot token updated.2)
  | _ => s

/-- The account is still what is wanted, or its slot is given back. -/
def check : State :=
  match s.clients c with
  | .fetched index attempted slot token account =>
    match account.filter fun account ↦ (wantedBy requests c).meets account.2 with
    | some account => setPc s c (.streaming index slot account.1 ⟨false, false, false⟩)
    | none => release s c slot token (.acquiring index attempted)
  | _ => s

/-- A message may be an error, else the output is yielded. -/
def output (kind : OutputKind) : State :=
  match s.clients c with
  | .streaming index slot token outputs =>
    if kind = .message ∧ (requests c).messageAsError then
      release s c slot token (.recording token false none)
    else
      setPc s c (.suspended index slot token
        ⟨true, kind = .message, outputs.returnedResult || kind = .result⟩)
  | _ => s

def resume : State :=
  match s.clients c with
  | .suspended index slot token outputs => setPc s c (.streaming index slot token outputs)
  | _ => s

/-- The consumer closes the generator at a `yield`. -/
def close : State :=
  match s.clients c with
  | .suspended .. => setPc s c .ended
  | _ => s

/-- The upstream stream has ended. -/
def finish : State :=
  match s.clients c with
  | .streaming index slot token outputs =>
    if outputs.returnedMessage ∨ !outputs.returnedResult then
      release s c slot token (.recording token false none)
    else release s c slot token (.recording token true (some (index + 1)))
  | _ => s

/-- The upstream stream raises. -/
def raise (error : Raised) : State :=
  match s.clients c with
  | .streaming index slot token outputs =>
    match error with
    | .imagePollTimeout => setPc s c .ended
    | .imageGeneration => release s c slot token (.recording token false none)
    | .other message =>
      release s c slot token <| .recording token false <|
        if !outputs.emittedForToken ∧ isTokenInvalidError message then some index else none
  | _ => s

/-- The second part of `mark_image_result`. -/
def record : State :=
  match s.clients c with
  | .recording token success next =>
    setPc { s with service := s.service.recordImageResult config token success } c
      (match next with
        | some index => turn requests c index
        | none => .ended)
  | _ => s

end Steps

section Administration

variable (s : State)

/-- The slots of an account that is rotated go by its new token. -/
def applyRefreshedTokens (oldAccessToken : Word) (accessToken : Str) : State :=
  { s with
    service := s.service.applyRefreshedTokens oldAccessToken accessToken
    slots := match s.service.rotation oldAccessToken accessToken with
      | some (oldToken, newToken, _) => s.slots.map fun slot ↦
        if slot.account = oldToken then { slot with account := newToken } else slot
      | none => s.slots }

/-- The counts of what is deleted are dropped. -/
def deleteAccounts (tokens : List Str) : State :=
  { s with
    service := s.service.deleteAccounts tokens
    slots := s.slots.map fun slot ↦
      if (s.service.targets tokens).contains slot.account then { slot with dropped := true }
      else slot }

def addAccountPayloads (payloads : List (Str × Fields)) : State :=
  { s with service := s.service.addAccountPayloads payloads }

def updateAccount (token : Word) (updates : Fields) : State :=
  { s with service := (s.service.updateAccount config token updates).1 }

end Administration

/-- What cannot go on now is a step that changes nothing. -/
def step (s : State) : Action → State
  | .start c => start requests s c
  | .acquire c => acquire config requests s c
  | .fetchRaised c => fetchRaised s c
  | .fetch c activeToken result => fetch config s c activeToken result
  | .check c => check requests s c
  | .output c kind => output requests s c kind
  | .resume c => resume s c
  | .close c => close s c
  | .finish c => finish s c
  | .raise c error => raise s c error
  | .record c => record config requests s c
  | .applyRefreshedTokens oldAccessToken accessToken =>
    applyRefreshedTokens s oldAccessToken accessToken
  | .deleteAccounts tokens => deleteAccounts s tokens
  | .addAccountPayloads payloads => addAccountPayloads s payloads
  | .updateAccount token updates => updateAccount config s token updates

def initial (accounts : Foundation.Dict Word Account) : State where
  service := ⟨accounts, fun _ ↦ 0, Foundation.Dict.empty, 0⟩
  clients := fun _ ↦ .created
  slots := []

end AllAiTools.ChatGpt2Api.Protocol.ImagePool
