import AllAiTools.Foundation.Sorting
import AllAiTools.NewApi.Relay.HelperPrice

namespace AllAiTools.NewApi.Relay.RelayTask

open Foundation Foundation.Rounding Common.Str Types.Price HelperPrice

structure TaskError where
  code : String
  message : String
  statusCode : ℕ
  localError : Bool := false

/-- A value of a task's data. -/
inductive JsonValue
  | string (s : String)
  | other

structure Task where
  channelId : ℤ
  originModelName : String := ""
  upstreamModelName : String := ""
  data : String → Option JsonValue := fun _ ↦ none
  /-- The other ratios of the billing context, for a task that has one. -/
  billingContext : Option Ratios := none

/-- The billing methods and the upstream calls of a platform. No adaptor of the repository has
its own `AdjustBillingOnSubmit`. -/
structure TaskAdaptor where
  validateRequestAndSetAction : Context → RelayInfo → Except TaskError (Context × RelayInfo)
  estimateBilling : Context → RelayInfo → Ratios
  buildRequestBody : Context → RelayInfo → Except String String
  doRequest : Context → RelayInfo → String → Except String (ℕ × String)
  doResponse : Context → RelayInfo → String → Except TaskError (String × String)

/-- What the settings, the database, the channels and the billing answer. -/
structure Env where
  settings : Settings
  maskSensitiveInfo : String → String
  getByTaskId : ℤ → String → Except String (Option Task)
  getChannelById : ℤ → Except String Channel
  getNextEnabledKey : Channel → Except (String × ℕ) String
  generateTaskID : String
  getTaskAdaptor : String → Option TaskAdaptor
  preConsumeBilling : ℤ → RelayInfo → Except TaskError Unit

def taskActionRemix : String := "remixGenerate"

def channelStatusEnabled : ℤ := 1

variable (env : Env)

def taskErrorWrapper (err code : String) (statusCode : ℕ) : TaskError :=
  let lowerText := err.toLower
  let hidden := contains lowerText "post" || contains lowerText "dial" || contains lowerText "http"
  { code, message := if hidden then env.maskSensitiveInfo err else err, statusCode }

def taskErrorWrapperLocal (err code : String) (statusCode : ℕ) : TaskError :=
  { taskErrorWrapper env err code statusCode with localError := true }

section Resolve

def jsonString : Option JsonValue → String
  | some (.string s) => s
  | _ => ""

def originModelOf (task : Task) : String :=
  if task.originModelName ≠ "" then task.originModelName
  else if task.upstreamModelName ≠ "" then task.upstreamModelName
  else jsonString (task.data "model")

/-- The ratios of a task without a billing context, read from its data. -/
def ratiosFromData (task : Task) (ratios : Ratios) : Ratios :=
  let seconds := atoi (jsonString (task.data "seconds"))
  let size := jsonString (task.data "size")
  let sizeRatio : ℚ := if size = "1792x1024" ∨ size = "1024x1792" then 1.666667 else 1
  (ratios.put ("seconds", if seconds ≤ 0 then 4 else seconds)).put ("size", sizeRatio)

def addOtherRatios (p : PriceData) (ratios : List (String × ℚ)) : PriceData :=
  ratios.foldl (fun p ratio ↦ p.addOtherRatio ratio.1 ratio.2) p

def remixPriceData (task : Task) (p : PriceData) : PriceData :=
  match task.billingContext with
  | some otherRatios => addOtherRatios p otherRatios.rows
  | none => { p with otherRatios := ratiosFromData task p.otherRatios }

/-- The channel of the origin task takes the place of the selected one. -/
def lockChannel (ch : Channel) (task : Task) (ctx : Context) (info : RelayInfo) :
    Except TaskError (Context × RelayInfo) :=
  let info := { info with lockedChannel := some ch }
  if task.channelId = info.channelId then .ok (ctx, info)
  else match env.getNextEnabledKey ch with
    | .error (e, statusCode) =>
      .error (taskErrorWrapper env e "channel_no_available_key" statusCode)
    | .ok key => .ok (
      { ctx with
        channelKey := key
        channelType := ch.type
        channelBaseUrl := ch.baseURL
        channelId := task.channelId },
      { info with
        channelBaseUrl := ch.baseURL
        channelId := task.channelId
        channelType := ch.type
        apiKey := key })

/-- The action and the origin of a request to remix a video. -/
def detectRemix (ctx : Context) (info : RelayInfo) : Except TaskError RelayInfo :=
  let remix := contains ctx.path "/v1/videos/" && hasSuffix ctx.path "/remix"
  let action := if remix then taskActionRemix else info.action
  if action ≠ taskActionRemix then .ok { info with action }
  else if trimSpace ctx.videoId = "" then
    .error (taskErrorWrapperLocal env "video_id is required" "invalid_request" 400)
  else .ok { info with action, originTaskID := ctx.videoId }

def resolveFrom (task : Task) (ctx : Context) (info : RelayInfo) :
    Except TaskError (Context × RelayInfo) :=
  let originModelName := if info.originModelName = "" then originModelOf task
    else info.originModelName
  match env.getChannelById task.channelId with
  | .error e => .error (taskErrorWrapperLocal env e "channel_not_found" 400)
  | .ok ch =>
    if ch.status ≠ channelStatusEnabled then
      .error (taskErrorWrapperLocal env "the channel of the origin task is disabled"
        "task_channel_disable" 400)
    else match lockChannel env ch task ctx { info with originModelName } with
      | .error e => .error e
      | .ok (ctx, info) =>
        if info.action = taskActionRemix then
          .ok (ctx, { info with priceData := remixPriceData task info.priceData })
        else .ok (ctx, info)

def resolveOriginTask (ctx : Context) (info : RelayInfo) : Except TaskError (Context × RelayInfo) :=
  match detectRemix env ctx info with
  | .error e => .error e
  | .ok info =>
    if info.originTaskID = "" then .ok (ctx, info)
    else match env.getByTaskId info.userId info.originTaskID with
      | .error e => .error (taskErrorWrapper env e "get_origin_task_failed" 500)
      | .ok none => .error (taskErrorWrapperLocal env "task_origin_not_exist" "task_not_exist" 400)
      | .ok (some task) => resolveFrom env task ctx info

end Resolve

section Submit

/-- A request up to its base price. -/
structure Prepared where
  adaptor : TaskAdaptor
  platform : String
  ctx : Context
  info : RelayInfo

def initChannelMeta (ctx : Context) (info : RelayInfo) : RelayInfo :=
  { info with
    channelType := ctx.channelType
    channelId := ctx.channelId
    channelBaseUrl := ctx.channelBaseUrl
    apiKey := ctx.channelKey
    upstreamModelName := ctx.originalModel
    isModelMapped := false }

def getTaskPlatform (ctx : Context) : String :=
  if 0 < ctx.channelType then toString ctx.channelType else ctx.platform

def coverTaskActionToModelName (platform action : String) : String :=
  platform.toLower ++ "_" ++ action.toLower

/-- The model and the base price of a validated request. -/
def priceModel (platform : String) (ctx : Context) (info : RelayInfo) : Except TaskError RelayInfo :=
  let modelName := if info.originModelName = "" then coverTaskActionToModelName platform info.action
    else info.originModelName
  let info := { info with originModelName := modelName, upstreamModelName := modelName }
  match modelMappedHelper ctx info with
  | .error e => .error (taskErrorWrapperLocal env e "model_mapping_failed" 400)
  | .ok info =>
    let info := { info with
      publicTaskID := if info.publicTaskID = "" then env.generateTaskID else info.publicTaskID
      originModelName := modelName }
    match modelPriceHelperPerCall env.settings ctx info with
    | .error e => .error (taskErrorWrapper env e "model_price_error" 400)
    | .ok (priceData, info) => .ok { info with priceData }

/-- Steps 1 to 4 of a submission. -/
def prepare (ctx : Context) (info : RelayInfo) : Except TaskError Prepared :=
  let info := initChannelMeta ctx info
  let platform := if ctx.platform = "" then getTaskPlatform ctx else ctx.platform
  match env.getTaskAdaptor platform with
  | none => .error (taskErrorWrapperLocal env ("invalid api platform: " ++ platform)
      "invalid_api_platform" 400)
  | some adaptor => match adaptor.validateRequestAndSetAction ctx info with
    | .error e => .error e
    | .ok (ctx, info) => match priceModel env platform ctx info with
      | .error e => .error e
      | .ok info => .ok { adaptor, platform, ctx, info }

/-- Step 5: the ratios of the adaptor. -/
def Prepared.estimated (p : Prepared) : Ratios := p.adaptor.estimateBilling p.ctx p.info

/-- Step 6: the loop over the ratios; a float is cut to an integer after each of them. -/
def applyOtherRatios (floats : Floats) (ratios : List (String × ℚ)) (quota : ℤ) : ℤ :=
  ratios.foldl (fun quota ratio ↦ if ratio.2 = 1 then quota
    else truncate (floats.nearest (floats.nearest quota * ratio.2))) quota

/-- Steps 5 and 6. -/
def estimate (order : MapOrder (String × ℚ)) (p : Prepared) : RelayInfo :=
  let priceData := addOtherRatios p.info.priceData p.estimated.rows
  let quota := if p.info.originModelName ∈ env.settings.taskPricePatches then priceData.quota
    else applyOtherRatios env.settings.floats (order.visit priceData.otherRatios.rows)
      priceData.quota
  { p.info with priceData := { priceData with quota } }

structure TaskSubmitResult where
  upstreamTaskID : String
  taskData : String
  platform : String
  quota : ℤ

def adjustBillingOnSubmit (_info : RelayInfo) (_taskData : String) : Ratios := .empty

/-- The base quota comes back by dividing by the ratios it was multiplied with. -/
def recalcQuotaFromRatios (floats : Floats) (order : MapOrder (String × ℚ)) (p : PriceData)
    (ratios : Ratios) : ℤ :=
  let baseQuota := (order.visit p.otherRatios.rows).foldl (fun (quota : ℤ) ratio ↦
    if ratio.2 = 1 ∨ ratio.2 ≤ 0 then quota
    else truncate (floats.nearest (floats.nearest quota / ratio.2))) p.quota
  truncate ((order.visit ratios.rows).foldl (fun result ratio ↦
    if ratio.2 = 1 then result else floats.nearest (result * ratio.2)) (floats.nearest baseQuota))

/-- Steps 8 to 11: the upstream call and what follows from its answer. -/
def callUpstream (order : MapOrder (String × ℚ)) (p : Prepared) (info : RelayInfo) :
    Except TaskError TaskSubmitResult × RelayInfo :=
  match p.adaptor.buildRequestBody p.ctx info with
  | .error e => (.error (taskErrorWrapper env e "build_request_failed" 500), info)
  | .ok body => match p.adaptor.doRequest p.ctx info body with
    | .error e => (.error (taskErrorWrapper env e "do_request_failed" 500), info)
    | .ok (statusCode, response) =>
      if statusCode ≠ 200 then
        (.error (taskErrorWrapper env response "fail_to_fetch_task" statusCode), info)
      else match p.adaptor.doResponse p.ctx info response with
        | .error e => (.error e, info)
        | .ok (upstreamTaskID, taskData) =>
          let adjusted := adjustBillingOnSubmit info taskData
          let info := if adjusted.rows = [] then info else { info with priceData :=
            { info.priceData with
              otherRatios := adjusted
              quota := recalcQuotaFromRatios env.settings.floats order info.priceData adjusted } }
          (.ok { upstreamTaskID, taskData, platform := p.platform, quota := info.priceData.quota },
            info)

/-- The amount a submission pre-consumes, if it does, and the price data it leaves. -/
structure Submission where
  preConsumed : Option ℤ
  result : Except TaskError TaskSubmitResult
  priceData : PriceData

def relayTaskSubmit (order : MapOrder (String × ℚ)) (ctx : Context) (info : RelayInfo) :
    Submission :=
  match prepare env ctx info with
  | .error e => ⟨none, .error e, info.priceData⟩
  | .ok p =>
    let info := estimate env order p
    if info.billing ∨ info.priceData.freeModel then
      let (result, info) := callUpstream env order p info
      ⟨none, result, info.priceData⟩
    else
      let info := { info with forcePreConsume := true }
      let quota := info.priceData.quota
      match env.preConsumeBilling quota info with
      | .error e => ⟨some quota, .error e, info.priceData⟩
      | .ok () =>
        let (result, info) := callUpstream env order p { info with billing := true }
        ⟨some quota, result, info.priceData⟩

end Submit

end AllAiTools.NewApi.Relay.RelayTask
