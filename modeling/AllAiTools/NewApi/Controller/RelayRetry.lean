import AllAiTools.NewApi.Service.ChannelSelect

namespace AllAiTools.NewApi.Controller.RelayRetry

open Foundation Common.Str Model.Channels Model.CachedChannels Service.ChannelSelect

structure NewAPIError where
  errorCode : String
  skipRetry : Bool
  statusCode : ℤ

def isChannelError (err : NewAPIError) : Bool := hasPrefix err.errorCode "channel:"

/-- What a retry also depends on: the affinity rule and the channel that the request's
context names, and the settings on status codes. -/
structure RetryRules where
  affinitySkipRetry : Bool
  specificChannel : Bool
  alwaysSkipRetryCode : String → Bool
  retryByStatusCode : ℤ → Bool

def shouldRetry (rules : RetryRules) (err : NewAPIError) (retryTimes : ℤ) : Bool :=
  if rules.affinitySkipRetry then false
  else if isChannelError err then true
  else if err.skipRetry then false
  else if retryTimes ≤ 0 then false
  else if rules.specificChannel then false
  else if 200 ≤ err.statusCode ∧ err.statusCode < 300 then false
  else if err.statusCode < 100 ∨ 599 < err.statusCode then true
  else if rules.alwaysSkipRetryCode err.errorCode then false
  else rules.retryByStatusCode err.statusCode

/-- An attempt: the channel, and the place of its group. -/
structure Attempt where
  place : ℕ
  channel : Channel

/-- The world a request with failing attempts meets: the numbers that its selections draw,
the error of each attempt, and what the set-up of a channel reports. -/
structure World where
  draws : ℕ → ℕ → ℕ
  failure : ℕ → NewAPIError
  setupContext : Channel → Option String

section Loop

variable (settings : Settings) (cache : ChannelCache) (rules : RetryRules) (world : World)

/-- The channel of an attempt: at first the one in the context, then one selected anew. -/
def getChannel (n : ℕ) (inContext : Option Attempt) (param : RetryParam) (ctx : Context) :
    Except String Attempt × RetryParam × Context :=
  match inContext with
  | some attempt => (.ok attempt, param, ctx)
  | none =>
    let selected := cacheGetRandomSatisfiedChannel settings cache (world.draws n) param ctx
    let answer : Except String Attempt :=
      match selected.channel with
      | .error e => .error ("获取分组 " ++ selected.group ++ " 下模型 " ++ param.modelName ++
          " 的可用渠道失败（retry）: " ++ e)
      | .ok none => .error ("分组 " ++ selected.group ++ " 下模型 " ++ param.modelName ++
          " 的可用渠道不存在（retry）")
      | .ok (some channel) =>
        match world.setupContext channel with
        | some e => .error e
        | none => .ok { place := selected.place, channel }
    (answer, selected.param, selected.ctx)

/-- The retry loop, with as many rounds as `fuel`: the attempts, or nothing where the
rounds do not suffice. -/
def retryLoop : ℕ → ℕ → Option Attempt → RetryParam → Context → Option (List Attempt)
  | 0, _, _, _, _ => none
  | fuel + 1, n, inContext, param, ctx =>
    if (param.getRetry : ℤ) ≤ settings.retryTimes then
      match getChannel settings cache world n inContext param ctx with
      | (.error _, _, _) => some []
      | (.ok attempt, param, ctx) =>
        if shouldRetry rules (world.failure n) (settings.retryTimes - param.getRetry) then
          (retryLoop fuel (n + 1) none param.increaseRetry ctx).map (attempt :: ·)
        else some [attempt]
    else some []

/-- A request whose attempts fail: the distributor selects the first channel, the relay
goes on from there. -/
def relay (fuel : ℕ) (tokenGroup modelName : String) (ctx : Context) : Option (List Attempt) :=
  let param : RetryParam := { tokenGroup, modelName, retry := some 0 }
  let selected := cacheGetRandomSatisfiedChannel settings cache (world.draws 0) param ctx
  match selected.channel with
  | .ok (some channel) =>
    retryLoop settings cache rules world fuel 1 (some { place := selected.place, channel }) param
      selected.ctx
  | _ => some []

end Loop

end AllAiTools.NewApi.Controller.RelayRetry
