import AllAiTools.NewApi.Controller.RelayRetry
import AllAiTools.NewApi.Relay.ModelPrice
import AllAiTools.NewApi.Service.TextQuota

namespace AllAiTools.NewApi.Controller.RelayBilling

open Types.Price Relay.ModelPrice Relay.HelperPrice RelayRetry
open Model.CachedChannels Service.TieredSettle
open Service.ChannelSelect (RetryParam cacheGetRandomSatisfiedChannel getUserAutoGroup)

/-- A request on its way: its retry parameters, the context of the selection and the relay info
with the price. -/
structure Relaying where
  param : RetryParam
  ctx : Service.ChannelSelect.Context
  priced : Priced
  finalPreConsumedQuota : ℤ

variable (settings : Relay.HelperPrice.Settings) (models : ModelSettings)
  (select : Service.ChannelSelect.Settings) (cache : ChannelCache) (rules : RetryRules)
  (world : World)

/-- What the request brings to its price, and what the billing session takes of a quota that is to
be pre-consumed: all of it, or nothing from a trusted user. -/
structure Pricing where
  ctx : Relay.HelperPrice.Context
  info : Relay.HelperPrice.RelayInfo
  promptTokens : ℤ
  tokens : TokenCountMeta
  requestInput : Except String RequestInput
  preConsume : ℤ → ℤ

variable (pricing : Pricing)

/-- The price of the request with the group that its context names. -/
def priceFor (autoGroup : Option String) : Except String Priced :=
  modelPriceHelper settings models { pricing.ctx with autoGroup } pricing.info
    pricing.promptTokens pricing.tokens pricing.requestInput

/-- A model that is free is not pre-consumed for. -/
def preConsumed (priced : Priced) : ℤ :=
  if priced.info.priceData.freeModel then 0 else pricing.preConsume priced.quotaToPreConsume

/-- The channel of an attempt. After a new selection the price data take over the ratio of the
group in the context, whether or not a channel was found. -/
def getChannel (n : ℕ) (inContext : Option Attempt) (s : Relaying) :
    Except String Attempt × Relaying :=
  let (answer, param, ctx) := RelayRetry.getChannel select cache world n inContext s.param s.ctx
  match inContext with
  | some _ => (answer, { s with param, ctx })
  | none =>
    let (group, info) := handleGroupRatio settings { pricing.ctx with autoGroup := ctx.autoGroup }
      s.priced.info
    let info := { info with priceData := { info.priceData with groupRatioInfo := group } }
    (answer, { s with param, ctx, priced := { s.priced with info } })

/-- The retry loop through failing attempts, with their errors, to one that succeeds. -/
def serve : List NewAPIError → ℕ → Option Attempt → Relaying → Option (Attempt × Relaying)
  | failures, n, inContext, s =>
    if (s.param.getRetry : ℤ) ≤ select.retryTimes then
      match getChannel settings select cache world pricing n inContext s with
      | (.error _, _) => none
      | (.ok attempt, s) =>
        match failures with
        | [] => some (attempt, s)
        | failure :: failures =>
          if shouldRetry rules failure (select.retryTimes - s.param.getRetry) then
            serve failures (n + 1) none { s with param := s.param.increaseRetry }
          else none
    else none

/-- A request with an automatic group, from the distributor's selection to the attempt that
succeeds. -/
def relay (modelName : String) (ctx : Service.ChannelSelect.Context)
    (failures : List NewAPIError) : Option (Attempt × Relaying) :=
  let param : RetryParam := { tokenGroup := "auto", modelName, retry := some 0 }
  let selected := cacheGetRandomSatisfiedChannel select cache (world.draws 0) param ctx
  match selected.channel with
  | .ok (some channel) =>
    match priceFor settings models pricing selected.ctx.autoGroup with
    | .error _ => none
    | .ok priced =>
      serve settings select cache rules world pricing failures 1
        (some { place := selected.place, channel })
        { param, ctx := selected.ctx, priced
          finalPreConsumedQuota := preConsumed pricing priced }
  | _ => none

/-- The relay info that the settlement reads. -/
def settleInfo (base : Service.TextQuota.RelayInfo) (s : Relaying) :
    Service.TextQuota.RelayInfo :=
  { base with
    usingGroup := s.priced.info.usingGroup
    priceData := s.priced.info.priceData
    finalPreConsumedQuota := s.finalPreConsumedQuota
    tieredBillingSnapshot := s.priced.tieredBillingSnapshot
    billingRequestInput := s.priced.billingRequestInput }

end AllAiTools.NewApi.Controller.RelayBilling
