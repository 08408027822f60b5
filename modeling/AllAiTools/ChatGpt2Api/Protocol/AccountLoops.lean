import AllAiTools.ChatGpt2Api.Services.TokenRefresh
import AllAiTools.Foundation.Budget

namespace AllAiTools.ChatGpt2Api.Protocol.AccountLoops

open Text Foundation Services.AccountService Services.TokenRefresh

variable (config : Config) (autoRemoveInvalidAccounts : Bool) (jwtExp : Word → ℤ) (wanted : Wanted)

section Available

/-- The pool, and what `get_available_access_token` attempted. -/
structure Available where
  pool : Pool
  attemptedTokens : List Word

/-- What a turn of `get_available_access_token` comes to. -/
inductive Acquired
  | raised
  | returned (pool : Pool) (token : Word)
  | again (next : Available)

/-- The answers in a turn, with its time. -/
structure FetchTurn where
  now : ℤ
  answers : FetchAnswers

variable (s : Available) (turn : FetchTurn)

/-- What `fetch_remote_info` leaves of a token that was acquired. -/
def checkAccount (pool : Pool) (accessToken : Word) : Acquired :=
  let (pool, account) :=
    fetchRemoteInfo config autoRemoveInvalidAccounts jwtExp turn.now pool turn.answers accessToken
  match account with
  | some (some (token, account)) =>
    if wanted.meets account then .returned pool token
    else .again ⟨setService pool (pool.service.releaseImageSlot accessToken),
      accessToken :: s.attemptedTokens⟩
  | some none | none =>
    .again ⟨setService pool (pool.service.releaseImageSlot accessToken), accessToken :: s.attemptedTokens⟩

/-- A turn of `get_available_access_token`. While all that is ready is taken, it waits. -/
def acquireTurn : Acquired :=
  if s.pool.service.listReadyCandidateTokens wanted s.attemptedTokens = [] then .raised
  else
    match s.pool.service.acquireNextCandidateToken config wanted s.attemptedTokens with
    | some (accessToken, service) =>
      checkAccount config autoRemoveInvalidAccounts jwtExp wanted s turn (setService s.pool service) accessToken
    | none => .again s

def issuedByAcquire : ℕ :=
  match s.pool.service.acquireNextCandidateToken config wanted s.attemptedTokens with
  | some (accessToken, service) =>
    issuedByFetch jwtExp turn.now (setService s.pool service) turn.answers accessToken
  | none => 0

def Acquired.again? : Acquired → Option Available
  | .again next => some next
  | .raised | .returned .. => none

/-- `get_available_access_token`. -/
def getAvailableAccessToken : Budget.Loop Available FetchTurn where
  turn s turn := (acquireTurn config autoRemoveInvalidAccounts jwtExp wanted s turn).again?
  cost s turn := issuedByAcquire config jwtExp wanted s turn
  size s := s.pool.service.accounts.items.length

end Available

section Text

/-- The pool, the token and what `stream_text_deltas` attempted; `none` is the empty token. -/
structure TextState where
  pool : Pool
  token : Option Word
  attemptedTokens : List Word

/-- What the upstream does in a conversation: it ends, or raises after it emitted something or not,
an error of an invalid token or not. -/
inductive Outcome
  | finished
  | raised (emitted tokenInvalid : Bool)

/-- What happens in a turn, with its time. -/
structure TextTurn where
  now : ℤ
  outcome : Outcome
  forced : Option TokenData
  preflight : Option TokenData

variable (s : TextState) (turn : TextTurn)

/-- The refresh of a token that is invalid. -/
def refreshText (token : Word) : Pool × Word :=
  refreshAccessToken jwtExp turn.now s.pool token true turn.forced

/-- The next token after one is removed, before its refresh. -/
def nextTextToken (token : Word) : Option (Pool × Word) :=
  pickTextToken
    (removeInvalidToken config autoRemoveInvalidAccounts (refreshText jwtExp s turn token).1 token)
    (token :: s.attemptedTokens)

/-- The refreshed token is new to the loop. -/
def takesRefreshed (token : Word) : Bool :=
  (refreshText jwtExp s turn token).2 ≠ token &&
    !(token :: s.attemptedTokens).contains (refreshText jwtExp s turn token).2

/-- A turn of `stream_text_deltas` that goes on. -/
def textTurn : Option TextState :=
  match s.token, turn.outcome with
  | some token, .raised false true =>
    if s.attemptedTokens.contains token then none
    else if takesRefreshed jwtExp s turn token then
      some ⟨(refreshText jwtExp s turn token).1, some (refreshText jwtExp s turn token).2,
        token :: s.attemptedTokens⟩
    else
      (nextTextToken config autoRemoveInvalidAccounts jwtExp s turn token).map fun next ↦
        let refreshed := refreshAccessToken jwtExp turn.now next.1 next.2 false turn.preflight
        ⟨refreshed.1, some refreshed.2, token :: s.attemptedTokens⟩
  | _, _ => none

def issuedByText : ℕ :=
  match s.token, turn.outcome with
  | some token, .raised false true =>
    if s.attemptedTokens.contains token then 0
    else
      issued jwtExp turn.now s.pool token true turn.forced +
        if takesRefreshed jwtExp s turn token then 0
        else
          match nextTextToken config autoRemoveInvalidAccounts jwtExp s turn token with
          | some next => issued jwtExp turn.now next.1 next.2 false turn.preflight
          | none => 0
  | _, _ => 0

/-- `stream_text_deltas`. -/
def streamTextDeltas : Budget.Loop TextState TextTurn where
  turn s turn := textTurn config autoRemoveInvalidAccounts jwtExp s turn
  cost s turn := issuedByText config autoRemoveInvalidAccounts jwtExp s turn
  size s := s.pool.service.accounts.items.length

end Text

section Image

/-- Where `stream_image_outputs_with_pool` stands for an image: in `get_available_access_token`, or
at the upstream with a token. -/
inductive ImageState
  | acquiring (available : Available)
  | streaming (pool : Pool) (token : Word)

/-- What happens in a turn: an account is fetched, or the upstream asked for the image. -/
structure ImageTurn where
  fetch : FetchTurn
  outcome : Outcome
  forced : Option TokenData

variable (turn : ImageTurn)

/-- `mark_image_result` for a failure. -/
def markFailed (pool : Pool) (token : Word) : Pool :=
  setService pool ((pool.service.releaseImageSlot token).recordImageResult config token false)

/-- The refresh of a token that is invalid. -/
def refreshImage (pool : Pool) (token : Word) : Pool × Word :=
  refreshAccessToken jwtExp turn.fetch.now (markFailed config pool token) token true turn.forced

/-- A turn at the upstream that goes on acquires an account again. -/
def streamTurn (pool : Pool) (token : Word) : Option ImageState :=
  match turn.outcome with
  | .raised false true =>
    let (pool, refreshedToken) := refreshImage config jwtExp turn pool token
    if refreshedToken ≠ token then some (.acquiring ⟨pool, []⟩)
    else some (.acquiring ⟨removeInvalidToken config autoRemoveInvalidAccounts pool token, []⟩)
  | _ => none

def imageTurn : ImageState → Option ImageState
  | .acquiring available =>
    match acquireTurn config autoRemoveInvalidAccounts jwtExp wanted available turn.fetch with
    | .raised => none
    | .returned pool token => some (.streaming pool token)
    | .again next => some (.acquiring next)
  | .streaming pool token => streamTurn config autoRemoveInvalidAccounts jwtExp turn pool token

def issuedByImage : ImageState → ℕ
  | .acquiring available => issuedByAcquire config jwtExp wanted available turn.fetch
  | .streaming pool token =>
    match turn.outcome with
    | .raised false true =>
      issued jwtExp turn.fetch.now (markFailed config pool token) token true turn.forced
    | _ => 0

def ImageState.pool : ImageState → Pool
  | .acquiring available => available.pool
  | .streaming pool _ => pool

/-- `stream_image_outputs_with_pool`, for one image. -/
def streamImageOutputs : Budget.Loop ImageState ImageTurn where
  turn s turn := imageTurn config autoRemoveInvalidAccounts jwtExp wanted turn s
  cost s turn := issuedByImage config jwtExp wanted turn s
  size s := s.pool.service.accounts.items.length

end Image

end AllAiTools.ChatGpt2Api.Protocol.AccountLoops
