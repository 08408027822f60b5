import AllAiTools.NewApi.Relay.HelperPrice
import AllAiTools.NewApi.Service.TieredSettle

namespace AllAiTools.NewApi.Relay.ModelPrice

open Foundation.Rounding Types.Price HelperPrice Service.TieredSettle

/-- The settings beside those of `HelperPrice` that price a model by the token or by tiers. -/
structure ModelSettings where
  preConsumedQuota : ℤ
  completionRatio : String → ℚ
  cacheRatio : String → ℚ
  createCacheRatio : String → ℚ
  imageRatio : String → ℚ
  billingMode : String → String
  billingExpr : String → Option String
  exprHash : String → String
  runExprWithRequest : String → TokenParams → RequestInput → Except String (ℚ × String)

structure TokenCountMeta where
  maxTokens : ℤ := 0
  imagePriceRatio : ℚ := 0

/-- What the price helper leaves on the relay info. -/
structure Priced where
  info : RelayInfo
  quotaToPreConsume : ℤ
  tieredBillingSnapshot : Option BillingSnapshot := none
  billingRequestInput : Option RequestInput := none

def billingModeTieredExpr : String := "tiered_expr"

variable (settings : Settings) (models : ModelSettings)

/-- The cache of an hour costs more to write. -/
def claudeCacheCreation1hMultiplier : ℚ := 6 / 3.75

def priceByToken (group : GroupRatioInfo) (modelName : String) (modelRatio : ℚ)
    (promptTokens : ℤ) (tokens : TokenCountMeta) : PriceData × ℤ :=
  let fl := settings.floats.nearest
  let preConsumedTokens := max promptTokens models.preConsumedQuota + tokens.maxTokens
  let ratio := fl (modelRatio * group.groupRatio)
  let free := !settings.enableFreeModelPreConsume && (group.groupRatio = 0 || modelRatio = 0)
  let cacheCreationRatio := models.createCacheRatio modelName
  ({ freeModel := free
     modelPrice := -1
     modelRatio
     completionRatio := models.completionRatio modelName
     cacheRatio := models.cacheRatio modelName
     cacheCreationRatio
     cacheCreation5mRatio := cacheCreationRatio
     cacheCreation1hRatio := fl (cacheCreationRatio * fl claudeCacheCreation1hMultiplier)
     imageRatio := models.imageRatio modelName
     groupRatioInfo := group },
    if free then 0 else truncate (fl (preConsumedTokens * ratio)))

def priceByModel (group : GroupRatioInfo) (price : ℚ) (tokens : TokenCountMeta) : PriceData × ℤ :=
  let modelPrice := if tokens.imagePriceRatio ≠ 0 then
      settings.floats.nearest (price * tokens.imagePriceRatio)
    else price
  let free := !settings.enableFreeModelPreConsume && (group.groupRatio = 0 || modelPrice = 0)
  ({ freeModel := free
     modelPrice
     usePrice := true
     groupRatioInfo := group },
    if free then 0 else
      truncate (product settings modelPrice [settings.quotaPerUnit, group.groupRatio]))

/-- The price by tiers is frozen in a snapshot, with the ratio of the group. -/
def modelPriceHelperTiered (info : RelayInfo) (group : GroupRatioInfo) (promptTokens : ℤ)
    (tokens : TokenCountMeta) (requestInput : Except String RequestInput) :
    Except String Priced := do
  let fl := settings.floats.nearest
  let some exprStr := models.billingExpr info.originModelName
    | .error ("model " ++ info.originModelName ++
        " is configured as tiered_expr but has no billing expression")
  let requestInput ← requestInput
  let (rawCost, matchedTier) ← (models.runExprWithRequest exprStr
    { p := promptTokens, c := tokens.maxTokens, len := promptTokens, cr := 0, cc := 0, cc1h := 0
      img := 0, imgO := 0, ai := 0, ao := 0 } requestInput).mapError fun e ↦
        "model " ++ info.originModelName ++ " tiered expr run failed: " ++ e
  let quotaBeforeGroup := fl (fl (rawCost / 1000000) * settings.quotaPerUnit)
  let freeModel := !settings.enableFreeModelPreConsume && group.groupRatio = 0
  let preConsumedQuota := if freeModel then 0
    else quotaRound (fl (quotaBeforeGroup * group.groupRatio))
  return {
    info := { info with priceData := { freeModel, groupRatioInfo := group } }
    quotaToPreConsume := preConsumedQuota
    tieredBillingSnapshot := some {
      billingMode := billingModeTieredExpr
      exprString := exprStr
      exprHash := models.exprHash exprStr
      groupRatio := group.groupRatio
      estimatedQuotaAfterGroup := preConsumedQuota
      estimatedTier := matchedTier
      quotaPerUnit := settings.quotaPerUnit }
    billingRequestInput := some requestInput }

def modelPriceHelper (ctx : Context) (info : RelayInfo) (promptTokens : ℤ)
    (tokens : TokenCountMeta) (requestInput : Except String RequestInput) :
    Except String Priced :=
  let (group, info) := handleGroupRatio settings ctx info
  if models.billingMode info.originModelName = billingModeTieredExpr then
    modelPriceHelperTiered settings models info group promptTokens tokens requestInput
  else
    let priced (price : PriceData × ℤ) : Priced :=
      { info := { info with priceData := price.1 }, quotaToPreConsume := price.2 }
    match settings.modelPrice info.originModelName with
    | some price => .ok (priced (priceByModel settings group price tokens))
    | none =>
      let (modelRatio, success, matchName) := settings.modelRatio info.originModelName
      if !success ∧ !info.acceptUnsetRatioModel then
        .error (modelPriceNotConfiguredError settings matchName info.userId)
      else
        .ok (priced (priceByToken settings models group info.originModelName modelRatio
          promptTokens tokens))

end AllAiTools.NewApi.Relay.ModelPrice
