import AllAiTools.NewApi.Common.Str
import AllAiTools.NewApi.Service.TieredSettle
import AllAiTools.NewApi.Types.Price

namespace AllAiTools.NewApi.Service.TextQuota

open Foundation Foundation.Rounding Common.Str Types.Price TieredSettle

inductive RelayFormat
  | openAI | claude | gemini | openAIResponses | openAIResponsesCompaction | openAIAudio
  | openAIImage | openAIRealtime | rerank | embedding | task | mjProxy
  deriving DecidableEq

structure RelayInfo where
  userId : ℤ
  channelId : ℤ
  channelType : ℤ
  tokenId : ℤ
  originModelName : String
  usingGroup : String
  isStream : Bool
  startTime : ℤ
  relayFormat : RelayFormat
  requestConversionChain : List RelayFormat := []
  finalRequestRelayFormat : Option RelayFormat := none
  estimatePromptTokens : ℤ
  priceData : PriceData
  finalPreConsumedQuota : ℤ
  /-- The calls of each built-in tool, for a request to the responses API. -/
  responsesUsageInfo : Option (String → Option ℤ) := none
  tieredBillingSnapshot : Option BillingSnapshot := none
  billingRequestInput : Option RequestInput := none

/-- What the handlers have left in the request's context. -/
structure Context where
  tokenName : String
  claudeWebSearchRequests : ℤ := 0
  imageGenerationCall : Bool := false
  imageGenerationCallQuality : String := ""
  imageGenerationCallSize : String := ""

structure Settings where
  quotaPerUnit : ℚ
  toolPriceForModel : String → String → ℚ
  toolPrice : String → ℚ
  gptImage1PriceOnceCall : String → String → ℚ
  geminiInputAudioPricePerMillionTokens : String → ℚ
  defaultModelRatio : String → Option ℚ
  logConsumeEnabled : Bool
  floats : Floats
  engine : ExprEngine

structure TextQuotaSummary where
  promptTokens : ℤ
  completionTokens : ℤ
  totalTokens : ℤ
  cacheTokens : ℤ
  cacheCreationTokens : ℤ
  cacheCreationTokens5m : ℤ
  cacheCreationTokens1h : ℤ
  imageTokens : ℤ
  audioTokens : ℤ
  modelName : String
  tokenName : String
  useTimeSeconds : ℤ
  isClaudeUsageSemantic : Bool
  toolCallSurchargeQuota : ℚ
  quota : ℤ

def channelTypeOpenRouter : ℤ := 20

def RelayInfo.getFinalRequestRelayFormat (info : RelayInfo) : RelayFormat :=
  info.finalRequestRelayFormat.getD (info.requestConversionChain.getLastD info.relayFormat)

section Usages

def isLegacyClaudeDerivedOpenAIUsage (info : RelayInfo) (usage : Usage) : Bool :=
  if info.getFinalRequestRelayFormat = .claude then false
  else if usage.usageSource ≠ "" ∨ usage.usageSemantic ≠ "" then false
  else 0 < usage.claudeCacheCreation5mTokens ∨ 0 < usage.claudeCacheCreation1hTokens

def usageSemanticFromUsage (info : RelayInfo) (usage : Option Usage) : String :=
  let semantic := (usage.map (·.usageSemantic)).getD ""
  if semantic ≠ "" then semantic
  else if info.getFinalRequestRelayFormat = .claude then "anthropic"
  else "openai"

/-- The usage that is billed where the upstream has reported none. -/
def usageOrEstimate (info : RelayInfo) (usage : Option Usage) : Usage :=
  usage.getD { promptTokens := info.estimatePromptTokens, completionTokens := 0 }

def hasCustomModelRatio (settings : Settings) (modelName : String) (currentRatio : ℚ) : Bool :=
  match settings.defaultModelRatio modelName with
  | none => true
  | some defaultRatio => currentRatio ≠ defaultRatio

def AnyCost.float64 : AnyCost → ℚ
  | .float x => x
  | _ => 0

def calcOpenRouterCacheCreateTokens (settings : Settings) (usage : Usage) (p : PriceData) : ℤ :=
  let fl := settings.floats.nearest
  if p.cacheCreationRatio = 1 then 0
  else
    let quotaPrice := fl (p.modelRatio / settings.quotaPerUnit)
    let promptCacheCreatePrice := fl (quotaPrice * p.cacheCreationRatio)
    let promptCacheReadPrice := fl (quotaPrice * p.cacheRatio)
    let completionPrice := fl (quotaPrice * p.completionRatio)
    let prompt := fl (usage.promptTokens * quotaPrice)
    let cacheRead := fl (usage.promptTokensDetails.cachedTokens *
      fl (quotaPrice - promptCacheReadPrice))
    let completion := fl (usage.completionTokens * completionPrice)
    let created := fl (fl (fl (AnyCost.float64 usage.cost - prompt) + cacheRead) - completion)
    roundHalfAway (fl (created / fl (promptCacheCreatePrice - quotaPrice)))

end Usages

section Prices

variable (settings : Settings) (ctx : Context) (info : RelayInfo)

/-- `decimal.Div`. -/
def decimalDiv (x y : ℚ) : ℚ := roundTo 16 (x / y)

/-- The calls of a built-in tool, zero where none is listed. -/
def builtInToolCalls (tool : String) : ℤ :=
  ((info.responsesUsageInfo.getD fun _ ↦ none) tool).getD 0

def calculateTextToolCallSurcharge : ℚ :=
  let unit := info.priceData.groupRatioInfo.groupRatio * settings.quotaPerUnit
  let webSearchPrice := settings.toolPriceForModel "web_search_preview" info.originModelName
  let webSearch := match info.responsesUsageInfo with
    | some _ => if 0 < builtInToolCalls info "web_search_preview" then
        decimalDiv (webSearchPrice * builtInToolCalls info "web_search_preview") 1000 * unit
      else 0
    | none => if hasSuffix info.originModelName "search-preview" then
        decimalDiv webSearchPrice 1000 * unit
      else 0
  let claudeWebSearch := if 0 < ctx.claudeWebSearchRequests then
      decimalDiv (settings.toolPrice "web_search") 1000 * unit * ctx.claudeWebSearchRequests
    else 0
  let fileSearch := if 0 < builtInToolCalls info "file_search" then
      decimalDiv (settings.toolPrice "file_search" * builtInToolCalls info "file_search") 1000 * unit
    else 0
  let imageGeneration := if ctx.imageGenerationCall then
      settings.gptImage1PriceOnceCall ctx.imageGenerationCallQuality ctx.imageGenerationCallSize *
        unit
    else 0
  webSearch + claudeWebSearch + fileSearch + imageGeneration

/-- The tokens of a usage; those of OpenRouter's Claude models are put apart first. -/
def summaryTokens (now : ℤ) (semantic : String) (usage : Usage) : TextQuotaSummary :=
  let summary : TextQuotaSummary := {
    promptTokens := usage.promptTokens
    completionTokens := usage.completionTokens
    totalTokens := usage.promptTokens + usage.completionTokens
    cacheTokens := usage.promptTokensDetails.cachedTokens
    cacheCreationTokens := usage.promptTokensDetails.cachedCreationTokens
    cacheCreationTokens5m := usage.claudeCacheCreation5mTokens
    cacheCreationTokens1h := usage.claudeCacheCreation1hTokens
    imageTokens := usage.promptTokensDetails.imageTokens
    audioTokens := usage.promptTokensDetails.audioTokens
    modelName := info.originModelName
    tokenName := ctx.tokenName
    useTimeSeconds := now - info.startTime
    isClaudeUsageSemantic := semantic = "anthropic"
    toolCallSurchargeQuota := calculateTextToolCallSurcharge settings ctx info
    quota := 0 }
  if info.channelType = channelTypeOpenRouter ∧ summary.isClaudeUsageSemantic then
    let prompt := summary.promptTokens - summary.cacheTokens
    let isUsingCustomSettings := info.priceData.usePrice ||
      hasCustomModelRatio settings summary.modelName info.priceData.modelRatio
    let maybe := calcOpenRouterCacheCreateTokens settings usage info.priceData
    let created := if summary.cacheCreationTokens = 0 ∧ info.priceData.cacheCreationRatio ≠ 1 ∧
        usage.cost ≠ .int 0 ∧ !isUsingCustomSettings ∧ 0 ≤ maybe ∧ maybe ≤ prompt then maybe
      else summary.cacheCreationTokens
    { summary with promptTokens := prompt - created, cacheCreationTokens := created }
  else summary

def withOtherRatios (quota : ℚ) : ℚ :=
  info.priceData.otherRatios.rows.foldl (fun quota ratio ↦ quota * ratio.2) quota

/-- The quota of a model that is priced by the token, before rounding. -/
def ratioQuota (usage : Usage) (s : TextQuotaSummary) : ℚ :=
  let p := info.priceData
  let ratio := p.modelRatio * p.groupRatioInfo.groupRatio
  let apart := !s.isClaudeUsageSemantic && !isLegacyClaudeDerivedOpenAIUsage info usage
  let cached := if apart then s.cacheTokens else 0
  let created := if apart then s.cacheCreationTokens else 0
  let createdWithRatio : ℚ := if apart then s.cacheCreationTokens * p.cacheCreationRatio
    else if s.cacheCreationTokens = 0 ∧ s.cacheCreationTokens5m ≤ 0 ∧ s.cacheCreationTokens1h ≤ 0
      then 0
    else
      (max 0 (s.cacheCreationTokens - s.cacheCreationTokens5m - s.cacheCreationTokens1h) : ℤ) *
          p.cacheCreationRatio +
        s.cacheCreationTokens5m * p.cacheCreation5mRatio +
        s.cacheCreationTokens1h * p.cacheCreation1hRatio
  let audioInputPrice := if s.audioTokens = 0 then 0
    else settings.geminiInputAudioPricePerMillionTokens s.modelName
  let audio := if 0 < audioInputPrice then s.audioTokens else 0
  let audioInputQuota := if 0 < audioInputPrice then
      decimalDiv audioInputPrice 1000000 * s.audioTokens * p.groupRatioInfo.groupRatio *
        settings.quotaPerUnit
    else 0
  let baseTokens := s.promptTokens - cached - created - s.imageTokens - audio
  let promptQuota := baseTokens + s.cacheTokens * p.cacheRatio + s.imageTokens * p.imageRatio +
    createdWithRatio
  let completionQuota := s.completionTokens * p.completionRatio
  let quota := withOtherRatios info
    ((promptQuota + completionQuota) * ratio + s.toolCallSurchargeQuota + audioInputQuota)
  if ratio ≠ 0 ∧ quota ≤ 0 then 1 else quota

/-- The quota of a model with a fixed price, before rounding. -/
def priceQuota (s : TextQuotaSummary) : ℚ :=
  withOtherRatios info (info.priceData.modelPrice * settings.quotaPerUnit *
    info.priceData.groupRatioInfo.groupRatio + s.toolCallSurchargeQuota)

def calculateTextQuotaSummary (now : ℤ) (usage : Option Usage) : TextQuotaSummary :=
  let billed := usageOrEstimate info usage
  let s := summaryTokens settings ctx info now (usageSemanticFromUsage info usage) billed
  let ratio := info.priceData.modelRatio * info.priceData.groupRatioInfo.groupRatio
  let quota := roundHalfAway (if info.priceData.usePrice then priceQuota settings info s
    else ratioQuota settings info billed s)
  { s with quota := if s.totalTokens = 0 then 0 else if ratio ≠ 0 ∧ quota = 0 then 1 else quota }

def composeTieredTextQuota (s : TextQuotaSummary) (tieredQuota : ℤ)
    (tieredResult : Option TieredResult) : ℤ :=
  if s.toolCallSurchargeQuota = 0 then tieredQuota
  else match tieredResult, info.tieredBillingSnapshot with
    | some result, some snap => roundHalfAway
        (result.actualQuotaBeforeGroup * snap.groupRatio + s.toolCallSurchargeQuota)
    | _, _ => tieredQuota + roundHalfAway s.toolCallSurchargeQuota

end Prices

section Consume

structure ConsumeLog where
  userId : ℤ
  channelId : ℤ
  promptTokens : ℤ
  completionTokens : ℤ
  modelName : String
  tokenName : String
  quota : ℤ
  tokenId : ℤ
  useTimeSeconds : ℤ
  isStream : Bool
  group : String

/-- The calls that charge a request or keep a record of it. -/
inductive Call
  | updateUserUsedQuotaAndRequestCount (id quota : ℤ)
  | updateChannelUsedQuota (id quota : ℤ)
  | settleBilling (actualQuota : ℤ)
  | createLog (log : ConsumeLog)

variable (settings : Settings) (ctx : Context) (info : RelayInfo)

/-- The summary of a request, with the quota of its tier where it is billed by tiers. -/
def billedSummary (now : ℤ) (usage : Option Usage) : TextQuotaSummary :=
  let summary := calculateTextQuotaSummary settings ctx info now usage
  match usage with
  | none => summary
  | some reported =>
    let tieredUsedVars := match info.tieredBillingSnapshot with
      | none => fun _ ↦ false
      | some snap => settings.engine.usedVars snap.exprString
    let params := buildTieredTokenParams reported summary.isClaudeUsageSemantic tieredUsedVars
    match tryTieredSettle settings.floats settings.engine info.tieredBillingSnapshot
        info.billingRequestInput info.finalPreConsumedQuota params with
    | none => summary
    | some (tieredQuota, tieredResult) =>
      { summary with quota := composeTieredTextQuota info summary tieredQuota tieredResult }

def recordConsumeLog (log : ConsumeLog) : List Call :=
  if settings.logConsumeEnabled then [.createLog log] else []

def logModelName (modelName : String) : String :=
  let logModel := if hasPrefix modelName "gpt-4-gizmo" then "gpt-4-gizmo-*" else modelName
  if hasPrefix logModel "gpt-4o-gizmo" then "gpt-4o-gizmo-*" else logModel

def postTextConsumeQuota (now : ℤ) (usage : Option Usage) : List Call :=
  let summary := billedSummary settings ctx info now usage
  let used := if summary.totalTokens = 0 then []
    else [.updateUserUsedQuotaAndRequestCount info.userId summary.quota,
      .updateChannelUsedQuota info.channelId summary.quota]
  used ++ [.settleBilling summary.quota] ++ recordConsumeLog settings {
    userId := info.userId
    channelId := info.channelId
    promptTokens := summary.promptTokens
    completionTokens := summary.completionTokens
    modelName := logModelName summary.modelName
    tokenName := summary.tokenName
    quota := summary.quota
    tokenId := info.tokenId
    useTimeSeconds := summary.useTimeSeconds
    isStream := info.isStream
    group := info.usingGroup }

end Consume

end AllAiTools.NewApi.Service.TextQuota
