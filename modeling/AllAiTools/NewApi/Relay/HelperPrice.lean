import AllAiTools.Foundation.Rounding
import AllAiTools.NewApi.Common.Str
import AllAiTools.NewApi.Types.Price

namespace AllAiTools.NewApi.Relay.HelperPrice

open Foundation Foundation.Rounding Common.Str Types.Price

structure Channel where
  id : ℤ
  type : ℤ
  status : ℤ := 1
  baseURL : String := ""

structure TaskSubmitReq where
  prompt : String
  model : String := ""
  size : String := ""
  seconds : String := ""
  duration : ℤ := 0
  images : List String := []
  inputReference : String := ""

/-- The request with what the middleware, the resolution of an origin and the validation have set
on it. A model mapping that is not JSON is none. -/
structure Context where
  path : String
  videoId : String := ""
  platform : String := ""
  body : Except String TaskSubmitReq
  taskRequest : Option TaskSubmitReq := none
  channelType : ℤ
  channelId : ℤ
  channelBaseUrl : String := ""
  channelKey : String := ""
  originalModel : String := ""
  modelMapping : Option (List (String × String)) := some []
  autoGroup : Option String := none

structure RelayInfo where
  userId : ℤ
  userGroup : String
  usingGroup : String
  originModelName : String
  acceptUnsetRatioModel : Bool := false
  action : String := ""
  originTaskID : String := ""
  publicTaskID : String := ""
  lockedChannel : Option Channel := none
  channelType : ℤ := 0
  channelId : ℤ := 0
  channelBaseUrl : String := ""
  apiKey : String := ""
  upstreamModelName : String := ""
  isModelMapped : Bool := false
  forcePreConsume : Bool := false
  /-- A billing session is open. -/
  billing : Bool := false
  priceData : PriceData

/-- The price settings. The ratio of a model comes with whether it is set and under which name. -/
structure Settings where
  floats : Floats
  quotaPerUnit : ℚ
  modelPrice : String → Option ℚ
  defaultModelPrice : String → Option ℚ
  modelRatio : String → ℚ × Bool × String
  groupGroupRatio : String → String → Option ℚ
  groupRatio : String → ℚ
  enableFreeModelPreConsume : Bool
  taskPricePatches : List String
  isAdmin : ℤ → Bool

variable (settings : Settings)

def handleGroupRatio (ctx : Context) (info : RelayInfo) : GroupRatioInfo × RelayInfo :=
  let usingGroup := ctx.autoGroup.getD info.usingGroup
  let info := { info with usingGroup }
  match settings.groupGroupRatio info.userGroup usingGroup with
  | some ratio => ({ groupRatio := ratio, groupSpecialRatio := ratio, hasSpecialRatio := true }, info)
  | none => ({ groupRatio := settings.groupRatio usingGroup }, info)

def modelPriceNotConfiguredError (modelName : String) (userId : ℤ) : String :=
  if settings.isAdmin userId then
    "模型 " ++ modelName ++ " 的价格未配置。请前往「系统设置 → 运营设置」开启自用模式，或在「系统设置 → 分组与模型定价设置」中为该模型配置价格；Model " ++
      modelName ++ " price not configured. Go to System Settings → Operation Settings to enable self-use mode, or configure the model price in System Settings → Group & Model Pricing."
  else
    "模型 " ++ modelName ++ " 的价格尚未由管理员配置，暂时无法使用，请联系站点管理员开启该模型；Model " ++
      modelName ++ " has not been priced by the administrator yet. Please contact the site administrator to enable this model."

/-- The product of floating-point numbers, from the left. -/
def product (x : ℚ) (factors : List ℚ) : ℚ :=
  factors.foldl (fun x y ↦ settings.floats.nearest (x * y)) x

def priceByCall (group : GroupRatioInfo) (modelPrice : ℚ) : PriceData :=
  let free := !settings.enableFreeModelPreConsume && (group.groupRatio = 0 || modelPrice = 0)
  let quota := truncate (product settings modelPrice [settings.quotaPerUnit, group.groupRatio])
  { freeModel := free
    modelPrice
    usePrice := true
    quota := if free then 0 else quota
    groupRatioInfo := group }

/-- Half the ratio of the model is pre-consumed. -/
def priceByRatio (group : GroupRatioInfo) (modelRatio : ℚ) : PriceData :=
  let free := !settings.enableFreeModelPreConsume && (group.groupRatio = 0 || modelRatio = 0)
  let half := settings.floats.nearest (modelRatio / 2)
  let quota := truncate (product settings half [settings.quotaPerUnit, group.groupRatio])
  { freeModel := free
    modelPrice := -1
    modelRatio
    usePrice := false
    quota := if free then 0 else quota
    groupRatioInfo := group }

def modelPriceHelperPerCall (ctx : Context) (info : RelayInfo) :
    Except String (PriceData × RelayInfo) :=
  let (group, info) := handleGroupRatio settings ctx info
  match settings.modelPrice info.originModelName with
  | some modelPrice => .ok (priceByCall settings group modelPrice, info)
  | none => match settings.defaultModelPrice info.originModelName with
    | some defaultPrice => .ok (priceByCall settings group defaultPrice, info)
    | none =>
      let (modelRatio, ratioSuccess, matchName) := settings.modelRatio info.originModelName
      if !ratioSuccess ∧ !info.acceptUnsetRatioModel then
        .error (modelPriceNotConfiguredError settings matchName info.userId)
      else .ok (priceByRatio settings group modelRatio, info)

/-- Follows the mapping from a model; every step meets a new one. -/
def followMapping (modelMap : List (String × String)) : ℕ → String → List String →
    Except String String
  | 0, currentModel, _ => .ok currentModel
  | fuel + 1, currentModel, visitedModels =>
    match modelMap.lookup currentModel with
    | none => .ok currentModel
    | some mappedModel =>
      if mappedModel = "" ∨ mappedModel = currentModel then .ok currentModel
      else if mappedModel ∈ visitedModels then .error "model_mapping_contains_cycle"
      else followMapping modelMap fuel mappedModel (mappedModel :: visitedModels)

def modelMappedHelper (ctx : Context) (info : RelayInfo) : Except String RelayInfo :=
  match ctx.modelMapping with
  | none => .error "unmarshal_model_mapping_failed"
  | some modelMap =>
    let origin := info.originModelName
    match followMapping modelMap (modelMap.length + 1) origin [origin] with
    | .error e => .error e
    | .ok currentModel =>
      if currentModel = origin then .ok info
      else .ok { info with isModelMapped := true, upstreamModelName := currentModel }

end AllAiTools.NewApi.Relay.HelperPrice
