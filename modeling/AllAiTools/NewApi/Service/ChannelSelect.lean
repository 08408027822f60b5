import AllAiTools.NewApi.Model.CachedChannels

namespace AllAiTools.NewApi.Service.ChannelSelect

open Foundation Model.Channels Model.CachedChannels

structure RetryParam where
  tokenGroup : String
  modelName : String
  retry : Option ℕ
  resetNextTry : Bool := false

namespace RetryParam

def getRetry (p : RetryParam) : ℕ := p.retry.getD 0

def setRetry (p : RetryParam) (retry : ℕ) : RetryParam := { p with retry := some retry }

def increaseRetry (p : RetryParam) : RetryParam :=
  if p.resetNextTry then { p with resetNextTry := false }
  else { p with retry := some (p.retry.getD 0 + 1) }

def resetRetryNextTry (p : RetryParam) : RetryParam := { p with resetNextTry := true }

end RetryParam

/-- The keys of the request's context that the selection reads and writes. -/
structure Context where
  userGroup : String
  tokenCrossGroupRetry : Bool
  autoGroupIndex : Option ℕ := none
  autoGroup : Option String := none

/-- `usable` says which groups a user's group may use. -/
structure Settings where
  autoGroups : List String
  usable : String → String → Bool
  retryTimes : ℤ

def getUserAutoGroup (settings : Settings) (userGroup : String) : List String :=
  settings.autoGroups.filter (settings.usable userGroup)

/-- What a selection returns, with the place of the auto group in their list. -/
structure Selected where
  channel : Except String (Option Channel)
  group : String
  place : ℕ
  param : RetryParam
  ctx : Context

variable (settings : Settings) (cache : ChannelCache)

/-- The auto groups from a place on; `draws` gives the number drawn at each place. -/
def tryGroups (draws : ℕ → ℕ) (param : RetryParam) (ctx : Context) (moved : Bool) :
    ℕ → List String → Selected
  | i, [] => { channel := .ok none, group := param.tokenGroup, place := i, param, ctx }
  | i, autoGroup :: autoGroups =>
    let priorityRetry := if moved then 0 else param.getRetry
    match ((getRandomSatisfiedChannel cache autoGroup param.modelName priorityRetry).outcome
        (draws i)).toOption.join with
    | none =>
      -- an error of the selector counts as no channel
      tryGroups draws (param.setRetry 0) { ctx with autoGroupIndex := some (i + 1) } true (i + 1)
        autoGroups
    | some channel =>
      if ctx.tokenCrossGroupRetry ∧ settings.retryTimes ≤ priorityRetry then
        { channel := .ok (some channel)
          group := autoGroup
          place := i
          param := (param.setRetry 0).resetRetryNextTry
          ctx := { ctx with autoGroup := some autoGroup, autoGroupIndex := some (i + 1) } }
      else
        { channel := .ok (some channel)
          group := autoGroup
          place := i
          param
          ctx := { ctx with autoGroup := some autoGroup, autoGroupIndex := some i } }

def cacheGetRandomSatisfiedChannel (draws : ℕ → ℕ) (param : RetryParam) (ctx : Context) : Selected :=
  if param.tokenGroup = "auto" then
    if settings.autoGroups = [] then
      { channel := .error "auto groups is not enabled", group := param.tokenGroup, place := 0,
        param, ctx }
    else
      let startGroupIndex := ctx.autoGroupIndex.getD 0
      tryGroups settings cache draws param ctx false startGroupIndex
        ((getUserAutoGroup settings ctx.userGroup).drop startGroupIndex)
  else
    { channel := (getRandomSatisfiedChannel cache param.tokenGroup param.modelName
        param.getRetry).outcome (draws 0)
      group := param.tokenGroup
      place := 0
      param
      ctx }

end AllAiTools.NewApi.Service.ChannelSelect
