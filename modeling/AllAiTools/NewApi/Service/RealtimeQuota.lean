import AllAiTools.NewApi.Service.Quota
import AllAiTools.NewApi.Service.TextQuota

namespace AllAiTools.NewApi.Service.RealtimeQuota

open Foundation.Rounding Types.Price TieredSettle Funding Session Quota
open TextQuota (Call ConsumeLog recordConsumeLog)

section Usage

structure InputDetails where
  cachedTokens : ℤ := 0
  textTokens : ℤ := 0
  audioTokens : ℤ := 0
  deriving DecidableEq

structure OutputDetails where
  textTokens : ℤ := 0
  audioTokens : ℤ := 0
  deriving DecidableEq

structure RealtimeUsage where
  totalTokens : ℤ := 0
  inputTokens : ℤ := 0
  outputTokens : ℤ := 0
  inputTokenDetails : InputDetails := {}
  outputTokenDetails : OutputDetails := {}
  deriving DecidableEq

namespace RealtimeUsage

/-- The fields of one usage added to those of another. -/
def add (u v : RealtimeUsage) : RealtimeUsage where
  totalTokens := u.totalTokens + v.totalTokens
  inputTokens := u.inputTokens + v.inputTokens
  outputTokens := u.outputTokens + v.outputTokens
  inputTokenDetails.cachedTokens := u.inputTokenDetails.cachedTokens + v.inputTokenDetails.cachedTokens
  inputTokenDetails.textTokens := u.inputTokenDetails.textTokens + v.inputTokenDetails.textTokens
  inputTokenDetails.audioTokens := u.inputTokenDetails.audioTokens + v.inputTokenDetails.audioTokens
  outputTokenDetails.textTokens := u.outputTokenDetails.textTokens + v.outputTokenDetails.textTokens
  outputTokenDetails.audioTokens := u.outputTokenDetails.audioTokens + v.outputTokenDetails.audioTokens

def countInput (u : RealtimeUsage) (textToken audioToken : ℤ) : RealtimeUsage :=
  u.add {
    totalTokens := textToken + audioToken
    inputTokens := textToken + audioToken
    inputTokenDetails := { textTokens := textToken, audioTokens := audioToken } }

def countOutput (u : RealtimeUsage) (textToken audioToken : ℤ) : RealtimeUsage :=
  u.add {
    totalTokens := textToken + audioToken
    outputTokens := textToken + audioToken
    outputTokenDetails := { textTokens := textToken, audioTokens := audioToken } }

/-- All that is in a list of usages. -/
def total (usages : List RealtimeUsage) : RealtimeUsage := usages.foldl add {}

theorem total_concat (usages : List RealtimeUsage) (u : RealtimeUsage) :
    total (usages ++ [u]) = (total usages).add u := List.foldl_concat ..

end RealtimeUsage

end Usage

section Quota

structure RatioSettings where
  quotaPerUnit : ℚ
  completionRatio : String → ℚ
  audioRatio : String → ℚ
  audioCompletionRatio : String → ℚ
  modelRatio : String → ℚ
  groupRatio : String → ℚ
  groupGroupRatio : String → String → Option ℚ

structure TokenDetails where
  textTokens : ℤ
  audioTokens : ℤ

structure QuotaInfo where
  inputDetails : TokenDetails
  outputDetails : TokenDetails
  modelName : String
  usePrice : Bool
  modelPrice : ℚ := 0
  modelRatio : ℚ
  groupRatio : ℚ

def calculateAudioQuota (settings : RatioSettings) (info : QuotaInfo) : ℤ :=
  if info.usePrice then truncate (info.modelPrice * settings.quotaPerUnit * info.groupRatio)
  else
    let completionRatio := settings.completionRatio info.modelName
    let audioRatio := settings.audioRatio info.modelName
    let audioCompletionRatio := settings.audioCompletionRatio info.modelName
    let ratio := info.groupRatio * info.modelRatio
    let tokens := info.inputDetails.textTokens + info.outputDetails.textTokens * completionRatio +
      info.inputDetails.audioTokens * audioRatio +
      info.outputDetails.audioTokens * audioRatio * audioCompletionRatio
    let quota := tokens * ratio
    roundHalfAway (if ratio ≠ 0 ∧ quota ≤ 0 then 1 else quota)

/-- The quota of a usage at the rate of some model. -/
def usageQuotaInfo (usage : RealtimeUsage) (modelName : String) (usePrice : Bool)
    (modelRatio groupRatio : ℚ) : QuotaInfo where
  inputDetails := ⟨usage.inputTokenDetails.textTokens, usage.inputTokenDetails.audioTokens⟩
  outputDetails := ⟨usage.outputTokenDetails.textTokens, usage.outputTokenDetails.audioTokens⟩
  modelName
  usePrice
  modelRatio
  groupRatio

theorem calculateAudioQuota_nonneg (settings : RatioSettings) {info : QuotaInfo}
    (h : info.usePrice = true → info.modelPrice = 0) : 0 ≤ calculateAudioQuota settings info := by
  unfold calculateAudioQuota
  cases hp : info.usePrice with
  | true =>
    rw [if_pos rfl, h hp, zero_mul, zero_mul]
    decide
  | false =>
    rw [if_neg Bool.false_ne_true]
    apply roundHalfAway_nonneg
    split_ifs with hsmall
    · exact zero_le_one
    · rcases not_and_or.mp hsmall with hratio | hquota
      · rw [not_not.mp hratio, mul_zero]
      · exact (not_le.mp hquota).le

end Quota

section Consume

/-- What of the relay info a realtime session is billed by. -/
structure RealtimeInfo where
  userId : ℤ
  channelId : ℤ
  tokenId : ℤ
  originModelName : String
  upstreamModelName : String
  userGroup : String
  usingGroup : String
  usePrice : Bool := false
  isStream : Bool := true
  startTime : ℤ
  priceData : PriceData
  tieredBillingSnapshot : Option BillingSnapshot := none
  billingRequestInput : Option RequestInput := none

/-- What a charge meets: the settings of its time, the group that the context names, what the reads of
the user and of the token answer, and the updates that fail. -/
structure Charge where
  settings : RatioSettings
  autoGroup : Option String
  userQuota : Option ℤ
  token : Option (Bool × ℤ)
  faults : ConsumeFaults

inductive PreWssError
  | userRead
  | tokenRead
  | userQuotaNotEnough (userQuota quota : ℤ)
  | tokenQuotaNotEnough (remainQuota quota : ℤ)
  | consume (e : ConsumeError)
  deriving DecidableEq

def PreWssError.text (formatQuota : ℤ → String) : PreWssError → String
  | .userRead => "database error"
  | .tokenRead => "database error"
  | .userQuotaNotEnough userQuota quota =>
    "user quota is not enough, user quota: " ++ formatQuota userQuota ++ ", need quota: " ++
      formatQuota quota
  | .tokenQuotaNotEnough remainQuota quota =>
    "token quota is not enough, token remain quota: " ++ formatQuota remainQuota ++ ", need quota: " ++
      formatQuota quota
  | .consume e => e.text formatQuota

/-- The group that a charge goes by, which the relay info then keeps. -/
def usingGroup (charge : Charge) (info : RealtimeInfo) : String := charge.autoGroup.getD info.usingGroup

def preWssQuota (charge : Charge) (info : RealtimeInfo) (usage : RealtimeUsage) : ℤ :=
  let group := usingGroup charge info
  let groupRatio := (charge.settings.groupGroupRatio info.userGroup group).getD
    (charge.settings.groupRatio group)
  calculateAudioQuota charge.settings (usageQuotaInfo usage info.originModelName info.usePrice
    (charge.settings.modelRatio info.originModelName) groupRatio)

def preWssConsumeQuota (charge : Charge) (info : RealtimeInfo) (relay : Session.RelayInfo)
    (usage : RealtimeUsage) (w : World) :
    Except PreWssError Unit × RealtimeInfo × Session.RelayInfo × World :=
  if info.usePrice then (.ok (), info, relay, w)
  else match charge.userQuota, charge.token with
    | none, _ => (.error .userRead, info, relay, w)
    | some _, none => (.error .tokenRead, info, relay, w)
    | some userQuota, some (unlimitedQuota, remainQuota) =>
      let quota := preWssQuota charge info usage
      let info := { info with usingGroup := usingGroup charge info }
      if userQuota < quota then (.error (.userQuotaNotEnough userQuota quota), info, relay, w)
      else if !unlimitedQuota ∧ remainQuota < quota then
        (.error (.tokenQuotaNotEnough remainQuota quota), info, relay, w)
      else match postConsumeQuota charge.faults relay quota w with
        | (.error e, relay, w) => (.error (.consume e), info, relay, w)
        | (.ok (), relay, w) => (.ok (), info, relay, w)

variable (settings : TextQuota.Settings) (ratios : RatioSettings)

/-- The quota that a session is settled at. -/
def postWssQuota (info : RealtimeInfo) (finalPreConsumedQuota : ℤ) (usage : RealtimeUsage) : ℤ :=
  let quota := calculateAudioQuota ratios (usageQuotaInfo usage info.upstreamModelName
    info.priceData.usePrice info.priceData.modelRatio info.priceData.groupRatioInfo.groupRatio)
  let params : TokenParams := {
    p := usage.inputTokens, c := usage.outputTokens, len := usage.inputTokens
    cr := 0, cc := 0, cc1h := 0, img := 0, imgO := 0, ai := 0, ao := 0 }
  let tiered := tryTieredSettle settings.floats settings.engine info.tieredBillingSnapshot
    info.billingRequestInput finalPreConsumedQuota params
  if usage.totalTokens = 0 then 0 else (tiered.map Prod.fst).getD quota

def postWssConsumeQuota (ctx : TextQuota.Context) (now : ℤ) (info : RealtimeInfo)
    (finalPreConsumedQuota : ℤ) (usage : RealtimeUsage) : List Call :=
  let quota := postWssQuota settings ratios info finalPreConsumedQuota usage
  let used : List Call := if usage.totalTokens = 0 then []
    else [.updateUserUsedQuotaAndRequestCount info.userId quota,
      .updateChannelUsedQuota info.channelId quota]
  used ++ [.settleBilling quota] ++ recordConsumeLog settings {
    userId := info.userId
    channelId := info.channelId
    promptTokens := usage.inputTokens
    completionTokens := usage.outputTokens
    modelName := info.upstreamModelName
    tokenName := ctx.tokenName
    quota
    tokenId := info.tokenId
    useTimeSeconds := now - info.startTime
    isStream := info.isStream
    group := info.usingGroup }

theorem preWssQuota_nonneg (charge : Charge) {info : RealtimeInfo} (usage : RealtimeUsage) :
    0 ≤ preWssQuota charge info usage := calculateAudioQuota_nonneg charge.settings fun _ ↦ rfl

end Consume

end AllAiTools.NewApi.Service.RealtimeQuota
