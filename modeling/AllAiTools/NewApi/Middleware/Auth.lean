import AllAiTools.NewApi.Model.Tokens

namespace AllAiTools.NewApi.Middleware.Auth

open Common.Str Model.Tokens

/-- What `TokenAuth` reads of a request; a header or query that is not there is empty. -/
structure Request where
  path : String
  secWebSocketProtocol : String
  xApiKey : String
  queryKey : String
  xGoogApiKey : String
  authorization : String
  mjApiSecret : String

structure UserBase where
  status : ℤ
  group : String

def userStatusEnabled : ℤ := 1

/-- What the checks after the key's own meet: the client's address against a list of networks
(`none` where it cannot be parsed), the token's user, the groups and the administrators. -/
structure Env where
  isIpInCIDRList : List String → Option Bool
  getUserCache : ℤ → Except String UserBase
  userUsableGroup : String → String → Bool
  containsGroupRatio : String → Bool
  isAdmin : ℤ → Bool

structure Abort where
  status : ℕ
  message : String

def msgDatabaseError : String := "common.database_error"
def msgTokenInvalid : String := "token.invalid"
def msgAuthUserBanned : String := "auth.user_banned"

def bearer (key : String) : String :=
  if hasPrefix key "Bearer " ∨ hasPrefix key "bearer " then
    trimSpace (String.ofList (key.toList.drop 7))
  else key

/-- The `Authorization` header as `TokenAuth` rewrites it from the places other clients put their
key in. -/
def authorization (request : Request) : String :=
  let auth := request.authorization
  let auth :=
    if request.secWebSocketProtocol ≠ "" then
      let parts := (split request.secWebSocketProtocol ',').map trimSpace
      let key := match parts.find? (hasPrefix · "openai-insecure-api-key") with
        | some part => trimPrefix part "openai-insecure-api-key."
        | none => request.secWebSocketProtocol
      "Bearer " ++ key
    else auth
  let auth :=
    if (contains request.path "/v1/messages" ∨ contains request.path "/v1/models") ∧
        request.xApiKey ≠ "" then
      "Bearer " ++ request.xApiKey
    else auth
  if hasPrefix request.path "/v1beta/models" ∨ hasPrefix request.path "/v1beta/openai/models" ∨
      hasPrefix request.path "/v1/models/" then
    if request.xGoogApiKey ≠ "" then "Bearer " ++ request.xGoogApiKey
    else if request.queryKey ≠ "" then "Bearer " ++ request.queryKey
    else auth
  else auth

/-- The parts of the key, the first of which is looked up. -/
def keyParts (request : Request) : List String :=
  let key := bearer (authorization request)
  let key := if key = "" ∨ key = "midjourney-proxy" then bearer request.mjApiSecret else key
  split (trimPrefix key "sk-") '-'

/-- `SetupContextForToken`, up to what it sets. -/
def setupContextForToken (env : Env) (token : Token) (parts : List String) : Except Abort Unit :=
  if 1 < parts.length ∧ ¬env.isAdmin token.userId then .error ⟨403, "普通用户不支持指定渠道"⟩
  else .ok ()

def checkClientIp (env : Env) (token : Token) : Except Abort Unit :=
  if token.getIpLimits = [] then .ok ()
  else match env.isIpInCIDRList token.getIpLimits with
    | none => .error ⟨403, "无法解析客户端 IP 地址"⟩
    | some false => .error ⟨403, "您的 IP 不在令牌允许访问的列表中"⟩
    | some true => .ok ()

def checkGroup (env : Env) (user : UserBase) (token : Token) : Except Abort Unit :=
  if token.group = "" then .ok ()
  else if ¬env.userUsableGroup user.group token.group then
    .error ⟨403, "无权访问 " ++ token.group ++ " 分组"⟩
  else if ¬env.containsGroupRatio token.group ∧ token.group ≠ "auto" then
    .error ⟨403, "分组 " ++ token.group ++ " 已被弃用"⟩
  else .ok ()

def checkUser (env : Env) (token : Token) : Except Abort UserBase :=
  match env.getUserCache token.userId with
  | .error _ => .error ⟨500, msgDatabaseError⟩
  | .ok user => if user.status = userStatusEnabled then .ok user else .error ⟨403, msgAuthUserBanned⟩

/-- `TokenAuth` from the validated token on. -/
def authorize (env : Env) (token : Token) (parts : List String) : Except Abort Token := do
  checkClientIp env token
  let user ← checkUser env token
  checkGroup env user token
  setupContextForToken env token parts
  return token

def answer (env : Env) (parts : List String) : Except TokenError Token → Except Abort Token
  | .error (.database _) => .error ⟨500, msgDatabaseError⟩
  | .error _ => .error ⟨401, msgTokenInvalid⟩
  | .ok token => authorize env token parts

/-- The token a request is accepted as. -/
def tokenAuth (settings : Settings) (env : Env) (faults : Faults) (request : Request) (s : State) :
    Except Abort Token × State :=
  let parts := keyParts request
  let validated := validateUserToken settings faults (parts.headD "") s
  (answer env parts validated.1, validated.2)

end AllAiTools.NewApi.Middleware.Auth
