import AllAiTools.ChatGpt2Api.Services.AccountService

namespace AllAiTools.ChatGpt2Api.Services.TokenRefresh

open Text Foundation AccountService

/-- What an account has besides the fields of `Account`; times are in seconds. -/
structure Credentials where
  refreshToken : Str
  createdAt : Option ℤ
  invalidCount : ℕ
  lastInvalidAt : Option ℤ
  lastTokenRefreshErrorAt : Option ℤ

/-- The service, with the credentials of each account by its token. -/
structure Pool where
  service : Service
  credentials : Word → Credentials

/-- What a request for a refresh answers. -/
structure TokenData where
  accessToken : Str
  refreshToken : Str

/-- What `get_user_info` does: it returns the fields of an account, or raises an
`InvalidAccessTokenError` or something else. -/
inductive UserInfo
  | result (fields : Fields)
  | invalidAccessToken
  | raised

def newAccountInvalidGraceSeconds : ℤ := 10 * 60

def invalidConfirmSeconds : ℤ := 30

def accessTokenRefreshSkewSeconds : ℤ := 24 * 60 * 60

def tokenRefreshErrorBackoffSeconds : ℤ := 5 * 60

section Refresh

variable (jwtExp : Word → ℤ) (now : ℤ)

def tokenNeedsRefresh (token : Word) (force : Bool) : Bool :=
  force || (0 < jwtExp token && jwtExp token - now ≤ accessTokenRefreshSkewSeconds)

def recentTokenRefreshError (credentials : Credentials) : Bool :=
  match credentials.lastTokenRefreshErrorAt with
  | some lastErrorAt => now - lastErrorAt < tokenRefreshErrorBackoffSeconds
  | none => false

variable (pool : Pool)

/-- An account is normalized and written back, with other credentials. -/
def saveItem (token : Word) (current : Account) (update : Credentials → Credentials) : Pool where
  service :=
    { pool.service with accounts := pool.service.accounts.set token (normalizeAccount current.fields) }
  credentials := Function.update pool.credentials token (update (pool.credentials token))

/-- `_apply_refreshed_tokens`, with the token that the account has then. -/
def applyRefreshedTokens (oldAccessToken : Word) (data : TokenData) : Pool × Word :=
  match pool.service.rotation oldAccessToken data.accessToken with
  | some (oldToken, newToken, _) =>
    let credentials := pool.credentials oldToken
    ({ service := pool.service.applyRefreshedTokens oldAccessToken data.accessToken
       credentials := Function.update pool.credentials newToken
        { credentials with
          refreshToken :=
            if data.refreshToken = [] then credentials.refreshToken else strip data.refreshToken
          invalidCount := 0
          lastInvalidAt := none
          lastTokenRefreshErrorAt := none } }, newToken)
  | none => (pool, pool.service.resolveAccessToken oldAccessToken)

/-- A refresh is asked for. -/
def asks (token : Word) (force : Bool) : Bool :=
  tokenNeedsRefresh jwtExp now token force && (pool.credentials token).refreshToken ≠ [] &&
    (force || !recentTokenRefreshError now (pool.credentials token))

/-- `refresh_access_token`, where the request answers with tokens or raises. -/
def refreshAccessToken (accessToken : Word) (force : Bool) (answer : Option TokenData) : Pool × Word :=
  let activeToken := pool.service.resolveAccessToken accessToken
  match pool.service.accounts.get activeToken with
  | none => (pool, accessToken)
  | some current =>
    if asks jwtExp now pool activeToken force then
      match answer with
      | none =>
        (saveItem pool activeToken current fun credentials ↦
          { credentials with lastTokenRefreshErrorAt := some now }, activeToken)
      | some data => applyRefreshedTokens pool activeToken data
    else (pool, activeToken)

/-- How many new tokens the refresh issues. -/
def issued (accessToken : Word) (force : Bool) (answer : Option TokenData) : ℕ :=
  let activeToken := pool.service.resolveAccessToken accessToken
  if pool.service.accounts.get activeToken = none ∨
      (refreshAccessToken jwtExp now pool accessToken force answer).2 = activeToken then 0 else 1

end Refresh

section Invalid

variable (config : Config) (autoRemoveInvalidAccounts : Bool) (now : ℤ) (pool : Pool)

def setService (service : Service) : Pool := { pool with service }

/-- `_record_refresh_success`. -/
def recordRefreshSuccess (accessToken : Word) : Pool :=
  let token := pool.service.resolveAccessToken accessToken
  match pool.service.accounts.get token with
  | some current =>
    saveItem pool token current fun credentials ↦
      { credentials with invalidCount := 0, lastInvalidAt := none }
  | none => pool

def shouldDeferInvalidToken (credentials : Credentials) : Bool :=
  credentials.createdAt.any (fun createdAt ↦ now - createdAt < newAccountInvalidGraceSeconds) ||
    credentials.invalidCount ≤ 1 ||
    credentials.lastInvalidAt.any fun lastInvalidAt ↦ now - lastInvalidAt < invalidConfirmSeconds

/-- `_record_invalid_token_seen`, with whether the token is to be removed. -/
def recordInvalidTokenSeen (accessToken : Word) : Pool × Bool :=
  let token := pool.service.resolveAccessToken accessToken
  match pool.service.accounts.get token with
  | some current =>
    (saveItem pool token current fun credentials ↦
      { credentials with invalidCount := credentials.invalidCount + 1, lastInvalidAt := some now },
      !shouldDeferInvalidToken now (pool.credentials token))
  | none => (pool, true)

/-- What an account that is invalid is updated with. -/
def abnormalFields : Fields := { Fields.empty with status := some abnormal, quota := some 0 }

def removeInvalidToken (accessToken : Word) : Pool :=
  if autoRemoveInvalidAccounts then
    let deleted := pool.service.deleteAccounts [accessToken.val]
    if pool.service.accounts.keys.contains (pool.service.resolveAccessToken accessToken) then
      setService pool deleted
    else setService pool (deleted.updateAccount config accessToken abnormalFields).1
  else setService pool (pool.service.updateAccount config accessToken abnormalFields).1

end Invalid

section Fetch

variable (config : Config) (autoRemoveInvalidAccounts : Bool) (jwtExp : Word → ℤ) (now : ℤ)

/-- What the upstream answers in one call of `fetch_remote_info`. -/
structure FetchAnswers where
  preflight : Option TokenData
  info : UserInfo
  forced : Option TokenData
  retry : UserInfo

variable (pool : Pool) (answers : FetchAnswers)

/-- What follows an answer that is not an invalid token. -/
def fetched (activeToken : Word) (result : Fields) : Pool × Option (Option (Word × Account)) :=
  let pool := recordRefreshSuccess pool activeToken
  let (service, account) := pool.service.updateAccount config activeToken result
  (setService pool service, some account)

/-- The token is recorded as invalid, and removed if that was not the first time. -/
def invalidated (token : Word) : Pool :=
  let (pool, remove) := recordInvalidTokenSeen now pool token
  if remove then removeInvalidToken config autoRemoveInvalidAccounts pool token else pool

/-- `fetch_remote_info`, with the account, or `none` where it raises. -/
def fetchRemoteInfo (accessToken : Word) : Pool × Option (Option (Word × Account)) :=
  let (pool, activeToken) := refreshAccessToken jwtExp now pool accessToken false answers.preflight
  match answers.info with
  | .result result => fetched config pool activeToken result
  | .raised => (pool, none)
  | .invalidAccessToken =>
    let (pool, refreshedToken) := refreshAccessToken jwtExp now pool activeToken true answers.forced
    if refreshedToken ≠ activeToken then
      match answers.retry with
      | .result result => fetched config pool refreshedToken result
      | .raised => (pool, none)
      | .invalidAccessToken =>
        (invalidated config autoRemoveInvalidAccounts now pool refreshedToken, none)
    else (invalidated config autoRemoveInvalidAccounts now pool activeToken, none)

/-- How many new tokens are issued in it. -/
def issuedByFetch (accessToken : Word) : ℕ :=
  let next := refreshAccessToken jwtExp now pool accessToken false answers.preflight
  issued jwtExp now pool accessToken false answers.preflight +
    match answers.info with
    | .invalidAccessToken => issued jwtExp now next.1 next.2 true answers.forced
    | _ => 0

end Fetch

section TextTokens

variable (jwtExp : Word → ℤ) (now : ℤ) (pool : Pool)

/-- The candidates of `get_text_access_token`. -/
def textCandidates (excluded : List Word) : List Word :=
  (pool.service.accounts.items.filter fun item ↦
    !([disabled, abnormal].contains item.2.status) && !excluded.contains item.1).map Prod.fst

/-- `get_text_access_token` before its refresh. -/
def pickTextToken (excluded : List Word) : Option (Pool × Word) :=
  let candidates := textCandidates pool excluded
  (candidates[pool.service.index % candidates.length]?).map fun token ↦
    (setService pool { pool.service with index := pool.service.index + 1 }, token)

end TextTokens

end AllAiTools.ChatGpt2Api.Services.TokenRefresh
