import AllAiTools.NewApi.Service.TextQuota

namespace AllAiTools.NewApi.Service.ChargedRecorded

open Foundation Foundation.Rounding Types.Price TieredSettle TextQuota

section Books

def addedToUser (id : ℤ) : Call → ℤ
  | .updateUserUsedQuotaAndRequestCount i quota => if i = id then quota else 0
  | _ => 0

def addedToChannel (id : ℤ) : Call → ℤ
  | .updateChannelUsedQuota i quota => if i = id then quota else 0
  | _ => 0

def settled : Call → ℤ
  | .settleBilling actualQuota => actualQuota
  | _ => 0

/-- The amount that is settled is the one in all the books. -/
structure Recorded (info : RelayInfo) (calls : List Call) : Prop where
  user : (calls.map (addedToUser info.userId)).sum = (calls.map settled).sum
  channel : (calls.map (addedToChannel info.channelId)).sum = (calls.map settled).sum
  log : ∀ log, .createLog log ∈ calls → log.quota = (calls.map settled).sum

end Books

variable (settings : Settings) (ctx : Context) (info : RelayInfo) (now : ℤ) (usage : Option Usage)

/-- The tokens that decide whether there is anything to bill. -/
def totalTokens : ℤ :=
  (usageOrEstimate info usage).promptTokens + (usageOrEstimate info usage).completionTokens

def tieredParams (reported : Usage) (snap : BillingSnapshot) : TokenParams :=
  buildTieredTokenParams reported (usageSemanticFromUsage info (some reported) = "anthropic")
    (settings.engine.usedVars snap.exprString)

/-- A request that is billed by tiers and still costs nothing: the price of its tier and the
surcharge of its tools together round to zero, or, where the expression fails, the amount kept
from the pre-consume makes up for the surcharge. -/
def NothingDue : Option Usage → Option BillingSnapshot → Prop
  | some reported, some snap => snap.billingMode = "tiered_expr" →
    let surcharge := calculateTextToolCallSurcharge settings ctx info
    match settings.engine.runExprByHashWithRequest snap.exprString snap.exprHash
        (tieredParams settings info reported snap) (info.billingRequestInput.getD {}) with
    | .error _ => (if info.finalPreConsumedQuota ≤ 0 then snap.estimatedQuotaAfterGroup
        else info.finalPreConsumedQuota) + roundHalfAway surcharge = 0
    | .ok (cost, _) =>
      let price := quotaConversion settings.floats cost snap
      if surcharge = 0 then |settings.floats.nearest (price * snap.groupRatio)| < 1 / 2
      else |price * snap.groupRatio + surcharge| < 1 / 2
  | _, _ => True

theorem summaryTokens_total (semantic : String) (billed : Usage) :
    (summaryTokens settings ctx info now semantic billed).totalTokens =
      billed.promptTokens + billed.completionTokens := by
  unfold summaryTokens
  dsimp only
  split_ifs <;> rfl

theorem summaryTokens_semantic (semantic : String) (billed : Usage) :
    (summaryTokens settings ctx info now semantic billed).isClaudeUsageSemantic =
      decide (semantic = "anthropic") := by
  unfold summaryTokens
  dsimp only
  split_ifs <;> rfl

theorem summaryTokens_surcharge (semantic : String) (billed : Usage) :
    (summaryTokens settings ctx info now semantic billed).toolCallSurchargeQuota =
      calculateTextToolCallSurcharge settings ctx info := by
  unfold summaryTokens
  dsimp only
  split_ifs <;> rfl

theorem summary_total :
    (calculateTextQuotaSummary settings ctx info now usage).totalTokens = totalTokens info usage :=
  summaryTokens_total settings ctx info now _ _

theorem summary_quota_of_no_tokens (h : totalTokens info usage = 0) :
    (calculateTextQuotaSummary settings ctx info now usage).quota = 0 := by
  have htotal := summaryTokens_total settings ctx info now (usageSemanticFromUsage info usage)
    (usageOrEstimate info usage)
  exact if_pos (htotal.trans h)

theorem billedSummary_total :
    (billedSummary settings ctx info now usage).totalTokens = totalTokens info usage := by
  have htotal := summary_total settings ctx info now usage
  cases usage with
  | none => exact htotal
  | some reported =>
    simp only [billedSummary]
    split <;> exact htotal

theorem summary_params (reported : Usage) (snap : BillingSnapshot) :
    buildTieredTokenParams reported
        (calculateTextQuotaSummary settings ctx info now (some reported)).isClaudeUsageSemantic
        (settings.engine.usedVars snap.exprString) = tieredParams settings info reported snap := by
  have hsemantic := summaryTokens_semantic settings ctx info now
    (usageSemanticFromUsage info (some reported)) reported
  exact congrArg (buildTieredTokenParams reported · (settings.engine.usedVars snap.exprString))
    hsemantic

theorem tryTieredSettle_some {snap : BillingSnapshot} (hmode : snap.billingMode = "tiered_expr")
    (params : TokenParams) : ∃ tieredQuota tieredResult,
      tryTieredSettle settings.floats settings.engine (some snap) info.billingRequestInput
        info.finalPreConsumedQuota params = some (tieredQuota, tieredResult) := by
  simp only [tryTieredSettle, hmode, ne_eq, not_true_eq_false, if_false]
  split
  · exact ⟨_, _, rfl⟩
  · exact ⟨_, _, rfl⟩

/-- What a tier charges is zero exactly when nothing is due. -/
theorem compose_eq_zero_iff {reported : Usage} {snap : BillingSnapshot} {s : TextQuotaSummary}
    (hsnap : info.tieredBillingSnapshot = some snap) (hmode : snap.billingMode = "tiered_expr")
    (hs : s.toolCallSurchargeQuota = calculateTextToolCallSurcharge settings ctx info)
    {tieredQuota : ℤ} {tieredResult : Option TieredResult}
    (ht : tryTieredSettle settings.floats settings.engine (some snap) info.billingRequestInput
      info.finalPreConsumedQuota (tieredParams settings info reported snap) =
        some (tieredQuota, tieredResult)) :
    composeTieredTextQuota info s tieredQuota tieredResult = 0 ↔
      NothingDue settings ctx info (some reported) (some snap) := by
  simp only [tryTieredSettle, hmode, ne_eq, not_true_eq_false, if_false,
    computeTieredQuotaWithRequest] at ht
  simp only [composeTieredTextQuota, NothingDue, hmode, true_imp_iff, hs, hsnap]
  rcases hrun : settings.engine.runExprByHashWithRequest snap.exprString snap.exprHash
    (tieredParams settings info reported snap) (info.billingRequestInput.getD {}) with
      e | ⟨cost, tier⟩
  · simp only [hrun, Option.some.injEq, Prod.mk.injEq] at ht ⊢
    obtain ⟨rfl, rfl⟩ := ht
    by_cases hzero : calculateTextToolCallSurcharge settings ctx info = 0
    · rw [if_pos hzero, hzero, roundHalfAway_zero, add_zero]
    · rw [if_neg hzero]
  · simp only [hrun, Option.some.injEq, Prod.mk.injEq] at ht ⊢
    obtain ⟨rfl, rfl⟩ := ht
    by_cases hzero : calculateTextToolCallSurcharge settings ctx info = 0
    · rw [if_pos hzero, if_pos hzero, quotaRound, roundHalfAway_eq_zero_iff]
    · rw [if_neg hzero, if_neg hzero, roundHalfAway_eq_zero_iff]

theorem billedSummary_quota (h : totalTokens info usage = 0) :
    (billedSummary settings ctx info now usage).quota = 0 ↔
      NothingDue settings ctx info usage info.tieredBillingSnapshot := by
  have hzero := summary_quota_of_no_tokens settings ctx info now usage h
  cases usage with
  | none => exact iff_of_true hzero trivial
  | some reported =>
    cases hsnap : info.tieredBillingSnapshot with
    | none =>
      refine iff_of_true ?_ trivial
      simpa only [billedSummary, hsnap, tryTieredSettle] using hzero
    | some snap =>
      by_cases hmode : snap.billingMode = "tiered_expr"
      · obtain ⟨tieredQuota, tieredResult, ht⟩ := tryTieredSettle_some settings info hmode
          (tieredParams settings info reported snap)
        have hparams := summary_params settings ctx info now reported snap
        simp only [billedSummary, hsnap, hparams, ht]
        exact compose_eq_zero_iff settings ctx info hsnap hmode
          (summaryTokens_surcharge settings ctx info now _ _) ht
      · refine iff_of_true ?_ fun h ↦ absurd h hmode
        simpa only [billedSummary, hsnap, tryTieredSettle, ne_eq, hmode, not_false_eq_true,
          if_true] using hzero

theorem sum_createLog (amount : Call → ℤ) (hamount : ∀ log, amount (.createLog log) = 0)
    (log : ConsumeLog) : ((recordConsumeLog settings log).map amount).sum = 0 := by
  unfold recordConsumeLog
  split_ifs
  · simp [hamount]
  · rfl

theorem mem_recordConsumeLog {log log' : ConsumeLog}
    (h : .createLog log' ∈ recordConsumeLog settings log) : log' = log := by
  unfold recordConsumeLog at h
  split_ifs at h
  · simpa using h
  · cases h

theorem sum_calls (amount : Call → ℤ) (hamount : ∀ log, amount (.createLog log) = 0) :
    ((postTextConsumeQuota settings ctx info now usage).map amount).sum =
      let quota := (billedSummary settings ctx info now usage).quota
      (if totalTokens info usage = 0 then 0
        else amount (.updateUserUsedQuotaAndRequestCount info.userId quota) +
          amount (.updateChannelUsedQuota info.channelId quota)) +
        amount (.settleBilling quota) := by
  simp only [postTextConsumeQuota, billedSummary_total, List.map_append, List.sum_append,
    sum_createLog settings amount hamount]
  by_cases h : totalTokens info usage = 0
  · simp [h]
  · simp [h]

theorem sum_settled : ((postTextConsumeQuota settings ctx info now usage).map settled).sum =
    (billedSummary settings ctx info now usage).quota := by
  rw [sum_calls settings ctx info now usage settled fun _ ↦ rfl]
  simp [settled]

theorem log_quota {log : ConsumeLog}
    (h : .createLog log ∈ postTextConsumeQuota settings ctx info now usage) :
    log.quota = (billedSummary settings ctx info now usage).quota := by
  rcases List.mem_append.mp h with hcalls | hlog
  · by_cases htotal : (billedSummary settings ctx info now usage).totalTokens = 0
    · simp [htotal] at hcalls
    · simp [htotal] at hcalls
  · rw [mem_recordConsumeLog settings hlog]

/-- The settlement and the log carry one amount; only the used quotas may lack it. -/
theorem recorded_iff :
    Recorded info (postTextConsumeQuota settings ctx info now usage) ↔
      totalTokens info usage ≠ 0 ∨ (billedSummary settings ctx info now usage).quota = 0 := by
  have hsettled := sum_settled settings ctx info now usage
  have huser := sum_calls settings ctx info now usage (addedToUser info.userId) fun _ ↦ rfl
  have hchannel :=
    sum_calls settings ctx info now usage (addedToChannel info.channelId) fun _ ↦ rfl
  by_cases h : totalTokens info usage = 0
  · simp only [h, if_true, addedToUser, addedToChannel, add_zero] at huser hchannel
    constructor
    · intro hrecorded
      exact .inr (by rw [← hsettled, ← hrecorded.user, huser])
    · intro hquota
      have hzero := hquota.resolve_left fun hne ↦ hne h
      exact ⟨by rw [huser, hsettled, hzero], by rw [hchannel, hsettled, hzero],
        fun log hlog ↦ (log_quota settings ctx info now usage hlog).trans hsettled.symm⟩
  · simp only [h, if_false, if_true, addedToUser, addedToChannel, add_zero, zero_add]
      at huser hchannel
    refine iff_of_true ⟨?_, ?_, fun log hlog ↦ ?_⟩ (.inl h)
    · rw [huser, hsettled]
    · rw [hchannel, hsettled]
    · rw [log_quota settings ctx info now usage hlog, hsettled]

/-- What is charged is what is recorded, unless a request without tokens costs something. -/
theorem charged_iff_recorded :
    Recorded info (postTextConsumeQuota settings ctx info now usage) ↔
      totalTokens info usage ≠ 0 ∨
        NothingDue settings ctx info usage info.tieredBillingSnapshot := by
  rw [recorded_iff]
  by_cases h : totalTokens info usage = 0
  · rw [billedSummary_quota settings ctx info now usage h]
  · exact iff_of_true (.inl h) (.inl h)

/-- Prices without tools, and a tier that costs a thousand on top of the tokens. -/
def flatFee : Settings where
  quotaPerUnit := 500000
  toolPriceForModel _ _ := 0
  toolPrice _ := 0
  gptImage1PriceOnceCall _ _ := 0
  geminiInputAudioPricePerMillionTokens _ := 0
  defaultModelRatio _ := none
  logConsumeEnabled := true
  floats := ⟨fun x ↦ x⟩
  engine := ⟨fun _ v ↦ v = "p" || v = "c", fun _ _ t _ ↦ .ok (t.p * 2 + t.c * 10 + 1000, "base")⟩

def tieredRequest : RelayInfo where
  userId := 1
  channelId := 2
  channelType := 1
  tokenId := 3
  originModelName := "gpt-4o"
  usingGroup := "default"
  isStream := true
  startTime := 0
  relayFormat := .openAI
  estimatePromptTokens := 100
  priceData := { groupRatioInfo := { groupRatio := 1 } }
  finalPreConsumedQuota := 600
  tieredBillingSnapshot := some {
    billingMode := "tiered_expr"
    exprString := "tier(\"base\", p * 2 + c * 10 + 1000)"
    exprHash := "fac26b517a35ec17f1290f8a16265198b11561a706f31d72052ca0650bc20922"
    groupRatio := 1
    estimatedQuotaAfterGroup := 600
    estimatedTier := "base"
    quotaPerUnit := 500000 }

/-- A usage without tokens is still charged the fee of its tier. -/
theorem flat_fee_unrecorded : ¬ ∀ (settings : Settings) (ctx : Context) (info : RelayInfo) (now : ℤ)
    (usage : Option Usage), Recorded info (postTextConsumeQuota settings ctx info now usage) := by
  intro h
  have hrecorded := h flatFee { tokenName := "" } tieredRequest 5
    (some { promptTokens := 0, completionTokens := 0 })
  have hquota : (billedSummary flatFee { tokenName := "" } tieredRequest 5
      (some { promptTokens := 0, completionTokens := 0 })).quota = 500 := by decide +kernel
  rcases (recorded_iff _ _ _ _ _).mp hrecorded with htokens | hzero
  · exact htokens rfl
  · rw [hquota] at hzero
    omega

end AllAiTools.NewApi.Service.ChargedRecorded
