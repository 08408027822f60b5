import AllAiTools.NewApi.Service.ChargedRecorded

namespace AllAiTools.NewApi.Service.TextQuotaSound

open Foundation Foundation.Rounding Types.Price TieredSettle TextQuota ChargedRecorded

section Usages

/-- Counts that are not negative. -/
structure Counts (u : Usage) : Prop where
  prompt : 0 ≤ u.promptTokens
  completion : 0 ≤ u.completionTokens
  cached : 0 ≤ u.promptTokensDetails.cachedTokens
  created : 0 ≤ u.promptTokensDetails.cachedCreationTokens
  created5m : 0 ≤ u.claudeCacheCreation5mTokens
  created1h : 0 ≤ u.claudeCacheCreation1hTokens
  image : 0 ≤ u.promptTokensDetails.imageTokens
  audio : 0 ≤ u.promptTokensDetails.audioTokens

/-- Each count is at most the one it is part of. -/
structure Within (u : Usage) : Prop where
  cached : u.promptTokensDetails.cachedTokens ≤ u.promptTokens
  created : u.promptTokensDetails.cachedCreationTokens ≤ u.promptTokens
  split : u.claudeCacheCreation5mTokens + u.claudeCacheCreation1hTokens ≤
    u.promptTokensDetails.cachedCreationTokens
  image : u.promptTokensDetails.imageTokens ≤ u.promptTokens
  audio : u.promptTokensDetails.audioTokens ≤ u.promptTokens

end Usages

section Categories

/-- What an input token is billed as. -/
inductive Category
  | text | cacheRead | cacheWrite | cacheWrite5m | cacheWrite1h | image | audio
  deriving DecidableEq

instance : Fintype Category where
  elems := {.text, .cacheRead, .cacheWrite, .cacheWrite5m, .cacheWrite1h, .image, .audio}
  complete c := by cases c <;> decide

theorem sum_categories {α : Type} [AddCommMonoid α] (f : Category → α) :
    ∑ c, f c = f .text + (f .cacheRead + (f .cacheWrite + (f .cacheWrite5m + (f .cacheWrite1h +
      (f .image + f .audio))))) := by
  change ∑ c ∈ {.text, .cacheRead, .cacheWrite, .cacheWrite5m, .cacheWrite1h, .image, .audio},
    f c = _
  iterate 6 rw [Finset.sum_insert (by decide)]
  rw [Finset.sum_singleton]

def ratio (info : RelayInfo) : ℚ :=
  info.priceData.modelRatio * info.priceData.groupRatioInfo.groupRatio

variable (settings : Settings) (info : RelayInfo)

/-- What one token of a category costs. -/
def rate (model : String) : Category → ℚ
  | .text => ratio info
  | .cacheRead => info.priceData.cacheRatio * ratio info
  | .cacheWrite => info.priceData.cacheCreationRatio * ratio info
  | .cacheWrite5m => info.priceData.cacheCreation5mRatio * ratio info
  | .cacheWrite1h => info.priceData.cacheCreation1hRatio * ratio info
  | .image => info.priceData.imageRatio * ratio info
  | .audio => decimalDiv (settings.geminiInputAudioPricePerMillionTokens model) 1000000 *
      info.priceData.groupRatioInfo.groupRatio * settings.quotaPerUnit

variable (usage : Usage) (s : TextQuotaSummary)

/-- The prompt count includes what is read from the cache and written to it. -/
def inclusive : Bool :=
  !s.isClaudeUsageSemantic && !isLegacyClaudeDerivedOpenAIUsage info usage

/-- Audio that has a price of its own; other audio is billed as text. -/
def pricedAudio : ℤ :=
  if s.audioTokens ≠ 0 ∧ 0 < settings.geminiInputAudioPricePerMillionTokens s.modelName then
    s.audioTokens
  else 0

def tokens : Category → ℤ
  | .text => s.promptTokens - (if inclusive info usage s then s.cacheTokens + s.cacheCreationTokens
      else 0) - s.imageTokens - pricedAudio settings s
  | .cacheRead => s.cacheTokens
  | .cacheWrite => if inclusive info usage s then s.cacheCreationTokens
      else max 0 (s.cacheCreationTokens - s.cacheCreationTokens5m - s.cacheCreationTokens1h)
  | .cacheWrite5m => if inclusive info usage s then 0 else s.cacheCreationTokens5m
  | .cacheWrite1h => if inclusive info usage s then 0 else s.cacheCreationTokens1h
  | .image => s.imageTokens
  | .audio => pricedAudio settings s

def cacheWriteTokensTotal : ℤ :=
  if 0 < s.cacheCreationTokens5m ∨ 0 < s.cacheCreationTokens1h then
    let splitCacheWriteTokens := s.cacheCreationTokens5m + s.cacheCreationTokens1h
    if splitCacheWriteTokens < s.cacheCreationTokens then s.cacheCreationTokens
    else splitCacheWriteTokens
  else s.cacheCreationTokens

/-- OpenRouter reports Claude's tokens with the cache inside the prompt count. -/
def openRouterClaude : Bool :=
  info.channelType = channelTypeOpenRouter && s.isClaudeUsageSemantic

/-- All tokens of the input. -/
def inputTokens : ℤ :=
  if openRouterClaude info s ∨ inclusive info usage s then usage.promptTokens
  else usage.promptTokens + s.cacheTokens + cacheWriteTokensTotal s

/-- The parts that are billed apart leave something of the prompt, or nothing. -/
def Fits : Prop :=
  (if openRouterClaude info s ∨ inclusive info usage s then s.cacheTokens + s.cacheCreationTokens
    else 0) + s.imageTokens + pricedAudio settings s ≤ usage.promptTokens ∧
  (openRouterClaude info s → s.cacheCreationTokens5m + s.cacheCreationTokens1h ≤
    s.cacheCreationTokens)

/-- The amount before it is rounded. -/
def amount : ℚ :=
  withOtherRatios info (∑ c, tokens settings info usage s c * rate settings info s.modelName c +
    s.completionTokens * info.priceData.completionRatio * ratio info + s.toolCallSurchargeQuota)

end Categories

section Prices

variable {settings : Settings} {ctx : Context} {info : RelayInfo}

/-- Prices and ratios that are not negative. -/
structure NonnegPrices (settings : Settings) (info : RelayInfo) : Prop where
  quotaPerUnit : 0 ≤ settings.quotaPerUnit
  toolPriceForModel : ∀ tool model, 0 ≤ settings.toolPriceForModel tool model
  toolPrice : ∀ tool, 0 ≤ settings.toolPrice tool
  imageCall : ∀ quality size, 0 ≤ settings.gptImage1PriceOnceCall quality size
  modelPrice : 0 ≤ info.priceData.modelPrice
  modelRatio : 0 ≤ info.priceData.modelRatio
  groupRatio : 0 ≤ info.priceData.groupRatioInfo.groupRatio
  completionRatio : 0 ≤ info.priceData.completionRatio
  otherRatios : ∀ named ∈ info.priceData.otherRatios.rows, 0 ≤ named.2

theorem decimalDiv_nonneg {x y : ℚ} (hx : 0 ≤ x) (hy : 0 ≤ y) : 0 ≤ decimalDiv x y := by
  unfold decimalDiv roundTo
  have hround : 0 ≤ roundHalfAway (x / y * 10 ^ 16) := roundHalfAway_nonneg (by positivity)
  have hcast : (0 : ℚ) ≤ roundHalfAway (x / y * 10 ^ 16) := by exact_mod_cast hround
  positivity

theorem ratio_nonneg (h : NonnegPrices settings info) : 0 ≤ ratio info :=
  mul_nonneg h.modelRatio h.groupRatio

theorem surcharge_nonneg (h : NonnegPrices settings info) :
    0 ≤ calculateTextToolCallSurcharge settings ctx info := by
  have hunit : 0 ≤ info.priceData.groupRatioInfo.groupRatio * settings.quotaPerUnit :=
    mul_nonneg h.groupRatio h.quotaPerUnit
  have hcalls {tool : String} {price : ℚ} (hprice : 0 ≤ price)
      (hcalled : 0 < builtInToolCalls info tool) :
      0 ≤ decimalDiv (price * builtInToolCalls info tool) 1000 *
        (info.priceData.groupRatioInfo.groupRatio * settings.quotaPerUnit) := by
    have hcount : (0 : ℚ) ≤ builtInToolCalls info tool := by exact_mod_cast hcalled.le
    exact mul_nonneg (decimalDiv_nonneg (mul_nonneg hprice hcount) (by norm_num)) hunit
  unfold calculateTextToolCallSurcharge
  refine add_nonneg (add_nonneg (add_nonneg ?_ ?_) ?_) ?_
  · cases info.responsesUsageInfo with
    | some _ =>
      dsimp only
      split_ifs with hcalled
      · exact hcalls (h.toolPriceForModel _ _) hcalled
      · exact le_refl 0
    | none =>
      dsimp only
      split_ifs
      · exact mul_nonneg (decimalDiv_nonneg (h.toolPriceForModel _ _) (by norm_num)) hunit
      · exact le_refl 0
  · split_ifs with hcalled
    · have hcount : (0 : ℚ) ≤ ctx.claudeWebSearchRequests := by exact_mod_cast hcalled.le
      exact mul_nonneg (mul_nonneg (decimalDiv_nonneg (h.toolPrice _) (by norm_num)) hunit) hcount
    · exact le_refl 0
  · split_ifs with hcalled
    · exact hcalls (h.toolPrice _) hcalled
    · exact le_refl 0
  · split_ifs
    · exact mul_nonneg (h.imageCall _ _) hunit
    · exact le_refl 0

theorem foldl_mul (l : List (String × ℚ)) (x : ℚ) :
    l.foldl (fun quota named ↦ quota * named.2) x = x * (l.map (·.2)).prod := by
  induction l generalizing x with
  | nil => rw [List.foldl_nil, List.map_nil, List.prod_nil, mul_one]
  | cons named l ih => rw [List.foldl_cons, ih, List.map_cons, List.prod_cons, mul_assoc]

theorem otherRatios_nonneg (h : NonnegPrices settings info) :
    0 ≤ (info.priceData.otherRatios.rows.map (·.2)).prod := by
  apply List.prod_nonneg
  intro x hx
  obtain ⟨named, hnamed, rfl⟩ := List.mem_map.mp hx
  exact h.otherRatios named hnamed

theorem withOtherRatios_mono (h : NonnegPrices settings info) : Monotone (withOtherRatios info) := by
  intro x y hxy
  unfold withOtherRatios
  rw [foldl_mul, foldl_mul]
  exact mul_le_mul_of_nonneg_right hxy (otherRatios_nonneg h)

theorem withOtherRatios_nonneg (h : NonnegPrices settings info) {x : ℚ} (hx : 0 ≤ x) :
    0 ≤ withOtherRatios info x := by
  unfold withOtherRatios
  rw [foldl_mul]
  exact mul_nonneg hx (otherRatios_nonneg h)

end Prices

section Amounts

variable {settings : Settings} {ctx : Context} {info : RelayInfo} {usage : Usage}
  {s : TextQuotaSummary}

theorem created_rate (h5m : 0 ≤ s.cacheCreationTokens5m) (h1h : 0 ≤ s.cacheCreationTokens1h)
    (creation creation5m creation1h : ℚ) :
    (if s.cacheCreationTokens = 0 ∧ s.cacheCreationTokens5m ≤ 0 ∧ s.cacheCreationTokens1h ≤ 0
      then 0
    else
      (max 0 (s.cacheCreationTokens - s.cacheCreationTokens5m - s.cacheCreationTokens1h) : ℤ) *
          creation +
        s.cacheCreationTokens5m * creation5m + s.cacheCreationTokens1h * creation1h) =
    (max 0 (s.cacheCreationTokens - s.cacheCreationTokens5m - s.cacheCreationTokens1h) : ℤ) *
        creation +
      s.cacheCreationTokens5m * creation5m + s.cacheCreationTokens1h * creation1h := by
  by_cases hnone :
      s.cacheCreationTokens = 0 ∧ s.cacheCreationTokens5m ≤ 0 ∧ s.cacheCreationTokens1h ≤ 0
  · have hno5m : s.cacheCreationTokens5m = 0 := le_antisymm hnone.2.1 h5m
    have hno1h : s.cacheCreationTokens1h = 0 := le_antisymm hnone.2.2 h1h
    rw [if_pos hnone, hnone.1, hno5m, hno1h]
    simp
  · rw [if_neg hnone]

/-- Each category of tokens at its own rate makes up the quota of a model that has a ratio. -/
theorem ratioQuota_eq (h5m : 0 ≤ s.cacheCreationTokens5m) (h1h : 0 ≤ s.cacheCreationTokens1h) :
    ratioQuota settings info usage s =
      if ratio info ≠ 0 ∧ amount settings info usage s ≤ 0 then 1
      else amount settings info usage s := by
  have hof {x y : ℚ} (hxy : x = y) :
      (if ratio info ≠ 0 ∧ withOtherRatios info x ≤ 0 then 1 else withOtherRatios info x) =
        if ratio info ≠ 0 ∧ withOtherRatios info y ≤ 0 then 1 else withOtherRatios info y := by
    rw [hxy]
  refine hof ?_
  rw [sum_categories]
  rw [created_rate h5m h1h]
  have hpriced : (if 0 < (if s.audioTokens = 0 then 0
        else settings.geminiInputAudioPricePerMillionTokens s.modelName) then s.audioTokens else 0) =
      pricedAudio settings s := by
    unfold pricedAudio
    by_cases haudio : s.audioTokens = 0
    · simp [haudio]
    · simp [haudio]
  have hquota : (if 0 < (if s.audioTokens = 0 then 0
        else settings.geminiInputAudioPricePerMillionTokens s.modelName) then
      decimalDiv (if s.audioTokens = 0 then 0
        else settings.geminiInputAudioPricePerMillionTokens s.modelName) 1000000 * s.audioTokens *
        info.priceData.groupRatioInfo.groupRatio * settings.quotaPerUnit else 0) =
      pricedAudio settings s * rate settings info s.modelName .audio := by
    unfold pricedAudio rate
    by_cases haudio : s.audioTokens = 0
    · simp [haudio]
    · by_cases hprice : 0 < settings.geminiInputAudioPricePerMillionTokens s.modelName
      · simp only [haudio, hprice, if_true, if_false, ne_eq, not_false_eq_true, and_self]
        ring
      · simp [haudio, hprice]
  rw [hpriced, hquota]
  have hratio : info.priceData.modelRatio * info.priceData.groupRatioInfo.groupRatio = ratio info :=
    rfl
  rw [hratio]
  by_cases hinclusive : inclusive info usage s
  · have hapart := hinclusive
    unfold inclusive at hapart
    simp only [tokens, rate, hinclusive, hapart, if_true]
    push_cast
    ring
  · have hapart := hinclusive
    unfold inclusive at hapart
    simp only [tokens, rate, hinclusive, hapart]
    push_cast
    ring

/-- An amount in whole quota; a model that has a ratio costs at least one. -/
def charged (info : RelayInfo) (x : ℚ) : ℤ :=
  if ratio info = 0 then roundHalfAway x else max 1 (roundHalfAway x)

theorem charged_mono : Monotone (charged info) := by
  intro x y hxy
  unfold charged
  by_cases hratio : ratio info = 0
  · rw [if_pos hratio, if_pos hratio]
    exact roundHalfAway_mono hxy
  · rw [if_neg hratio, if_neg hratio]
    exact max_le_max (le_refl 1) (roundHalfAway_mono hxy)

theorem charged_nonneg {x : ℚ} (hx : ratio info = 0 → 0 ≤ x) : 0 ≤ charged info x := by
  unfold charged
  by_cases hratio : ratio info = 0
  · rw [if_pos hratio]
    exact roundHalfAway_nonneg (hx hratio)
  · rw [if_neg hratio]
    exact zero_le_one.trans (le_max_left 1 _)

theorem one_le_charged (h : ratio info ≠ 0) (x : ℚ) : 1 ≤ charged info x := by
  rw [charged, if_neg h]
  exact le_max_left 1 _

/-- The least quota of one is given twice: to an amount that is not positive, and to one that
rounds to zero. -/
theorem charged_ratio (x : ℚ) :
    (if ratio info ≠ 0 ∧ roundHalfAway (if ratio info ≠ 0 ∧ x ≤ 0 then 1 else x) = 0 then 1
      else roundHalfAway (if ratio info ≠ 0 ∧ x ≤ 0 then 1 else x)) = charged info x := by
  unfold charged
  have hone : roundHalfAway 1 = 1 := by decide +kernel
  by_cases hratio : ratio info = 0
  · simp [hratio]
  · by_cases hx : x ≤ 0
    · have hround := roundHalfAway_mono hx
      rw [roundHalfAway_zero] at hround
      simp only [ne_eq, hratio, not_false_eq_true, hx, and_self, if_true, hone, if_false]
      omega
    · have hround := roundHalfAway_nonneg (not_le.mp hx).le
      simp only [ne_eq, hratio, not_false_eq_true, hx, and_false, true_and, if_false]
      split_ifs with hzero <;> omega

theorem charged_price {x : ℚ} (hx : 0 ≤ x) :
    (if ratio info ≠ 0 ∧ roundHalfAway x = 0 then 1 else roundHalfAway x) = charged info x := by
  unfold charged
  have hround := roundHalfAway_nonneg hx
  by_cases hratio : ratio info = 0
  · simp [hratio]
  · simp only [ne_eq, hratio, not_false_eq_true, true_and, if_false]
    split_ifs with hzero <;> omega

end Amounts

section Summaries

variable (settings : Settings) (ctx : Context) (info : RelayInfo) (now : ℤ) (semantic : String)
  {usage : Usage}

/-- The tokens written to the cache are taken from what the request has cost. -/
def CreatedFromCost (usage : Usage) : Prop :=
  info.channelType = channelTypeOpenRouter ∧
  usageSemanticFromUsage info (some usage) = "anthropic" ∧
  usage.promptTokensDetails.cachedCreationTokens = 0 ∧
  info.priceData.cacheCreationRatio ≠ 1 ∧
  usage.cost ≠ .int 0 ∧
  info.priceData.usePrice = false ∧
  hasCustomModelRatio settings info.originModelName info.priceData.modelRatio = false

theorem summaryTokens_kept (usage : Usage) :
    let s := summaryTokens settings ctx info now semantic usage
    s.completionTokens = usage.completionTokens ∧
    s.cacheTokens = usage.promptTokensDetails.cachedTokens ∧
    s.cacheCreationTokens5m = usage.claudeCacheCreation5mTokens ∧
    s.cacheCreationTokens1h = usage.claudeCacheCreation1hTokens ∧
    s.imageTokens = usage.promptTokensDetails.imageTokens ∧
    s.audioTokens = usage.promptTokensDetails.audioTokens := by
  unfold summaryTokens
  dsimp only
  split_ifs <;> exact ⟨rfl, rfl, rfl, rfl, rfl, rfl⟩

theorem summaryTokens_prompt (usage : Usage) :
    let s := summaryTokens settings ctx info now semantic usage
    s.promptTokens = usage.promptTokens -
      if openRouterClaude info s then s.cacheTokens + s.cacheCreationTokens else 0 := by
  intro s
  have hsemantic : s.isClaudeUsageSemantic = decide (semantic = "anthropic") :=
    summaryTokens_semantic settings ctx info now semantic usage
  rw [openRouterClaude, hsemantic]
  subst s
  unfold summaryTokens
  dsimp only
  by_cases h : info.channelType = channelTypeOpenRouter ∧ decide (semantic = "anthropic") = true
  · have hbool : (decide (info.channelType = channelTypeOpenRouter) &&
        decide (semantic = "anthropic")) = true := by
      simpa using h
    simp only [if_pos h, hbool, if_true]
    omega
  · have hbool : (decide (info.channelType = channelTypeOpenRouter) &&
        decide (semantic = "anthropic")) = false := by
      simpa using h
    simp only [if_neg h, hbool]
    simp

theorem summaryTokens_created (hcounts : Counts usage) :
    0 ≤ (summaryTokens settings ctx info now semantic usage).cacheCreationTokens := by
  unfold summaryTokens
  dsimp only
  split_ifs with hrouter hcost
  · exact hcost.2.2.2.2.1
  · exact hcounts.created
  · exact hcounts.created

/-- Without the cost, only the counts of the completion follow the completion. -/
theorem summaryTokens_completion (h : ¬ CreatedFromCost settings info usage) (n : ℤ) :
    summaryTokens settings ctx info now (usageSemanticFromUsage info (some usage))
      { usage with completionTokens := n } =
    { summaryTokens settings ctx info now (usageSemanticFromUsage info (some usage)) usage with
      completionTokens := n
      totalTokens := usage.promptTokens + n } := by
  unfold summaryTokens
  dsimp only
  by_cases hrouter : info.channelType = channelTypeOpenRouter ∧
      decide (usageSemanticFromUsage info (some usage) = "anthropic") = true
  · have hno (u : Usage) (prompt : ℤ) : ¬ (usage.promptTokensDetails.cachedCreationTokens = 0 ∧
        info.priceData.cacheCreationRatio ≠ 1 ∧ usage.cost ≠ .int 0 ∧
        (!(info.priceData.usePrice ||
          hasCustomModelRatio settings info.originModelName info.priceData.modelRatio)) = true ∧
        0 ≤ calcOpenRouterCacheCreateTokens settings u info.priceData ∧
        calcOpenRouterCacheCreateTokens settings u info.priceData ≤ prompt) := by
      intro ⟨hcreated, hratio, hcost, hcustom, _⟩
      rw [Bool.not_eq_true', Bool.or_eq_false_iff] at hcustom
      exact h ⟨hrouter.1, of_decide_eq_true hrouter.2, hcreated, hratio, hcost, hcustom⟩
    simp only [if_pos hrouter, if_neg (hno _ _)]
  · simp only [if_neg hrouter]

end Summaries

section Sound

variable (settings : Settings) (ctx : Context) (info : RelayInfo) (now : ℤ)

def quotaOf (usage : Option Usage) : ℤ := (calculateTextQuotaSummary settings ctx info now usage).quota

def tokensOf (usage : Option Usage) : TextQuotaSummary :=
  summaryTokens settings ctx info now (usageSemanticFromUsage info usage) (usageOrEstimate info usage)

def amountOf (usage : Option Usage) : ℚ :=
  if info.priceData.usePrice then priceQuota settings info (tokensOf settings ctx info now usage)
  else amount settings info (usageOrEstimate info usage) (tokensOf settings ctx info now usage)

/-- Every input token is in one category, and the quota is what the categories cost. -/
structure BilledOnce (usage : Option Usage) : Prop where
  counted : ∀ c, 0 ≤ tokens settings info (usageOrEstimate info usage)
    (tokensOf settings ctx info now usage) c
  total : ∑ c, tokens settings info (usageOrEstimate info usage)
    (tokensOf settings ctx info now usage) c =
      inputTokens info (usageOrEstimate info usage) (tokensOf settings ctx info now usage)
  quota : quotaOf settings ctx info now usage = if totalTokens info usage = 0 then 0
    else charged info
      (amount settings info (usageOrEstimate info usage) (tokensOf settings ctx info now usage))

variable {settings ctx info now} {usage : Option Usage}

theorem priceQuota_nonneg (h : NonnegPrices settings info) :
    0 ≤ priceQuota settings info (tokensOf settings ctx info now usage) := by
  apply withOtherRatios_nonneg h
  have hsurcharge : (tokensOf settings ctx info now usage).toolCallSurchargeQuota =
      calculateTextToolCallSurcharge settings ctx info :=
    summaryTokens_surcharge settings ctx info now _ _
  rw [hsurcharge]
  exact add_nonneg (mul_nonneg (mul_nonneg h.modelPrice h.quotaPerUnit) h.groupRatio)
    (surcharge_nonneg h)

theorem quota_eq (h : NonnegPrices settings info) (hcounts : Counts (usageOrEstimate info usage)) :
    quotaOf settings ctx info now usage = if totalTokens info usage = 0 then 0
      else charged info (amountOf settings ctx info now usage) := by
  obtain ⟨-, -, h5m, h1h, -, -⟩ := summaryTokens_kept settings ctx info now
    (usageSemanticFromUsage info usage) (usageOrEstimate info usage)
  have htotal := summaryTokens_total settings ctx info now (usageSemanticFromUsage info usage)
    (usageOrEstimate info usage)
  unfold quotaOf calculateTextQuotaSummary
  dsimp only
  rw [htotal]
  refine if_congr Iff.rfl rfl ?_
  unfold amountOf tokensOf
  cases info.priceData.usePrice with
  | true => exact charged_price (priceQuota_nonneg h)
  | false =>
    simp only [Bool.false_eq_true, if_false]
    rw [ratioQuota_eq (by rw [h5m]; exact hcounts.created5m) (by rw [h1h]; exact hcounts.created1h)]
    exact charged_ratio _

/-- Only priced audio and the tools cost anything where the model has no ratio. -/
theorem amount_of_no_ratio (h : NonnegPrices settings info) {u : Usage} {s : TextQuotaSummary}
    (haudio : 0 ≤ s.audioTokens) (hsurcharge : 0 ≤ s.toolCallSurchargeQuota)
    (hratio : ratio info = 0) : 0 ≤ amount settings info u s := by
  apply withOtherRatios_nonneg h
  have hnone (c : Category) (hc : c ≠ .audio) : rate settings info s.modelName c = 0 := by
    cases c with
    | audio => exact absurd rfl hc
    | _ => simp [rate, hratio]
  have hsum : ∑ c, (tokens settings info u s c : ℚ) * rate settings info s.modelName c =
      pricedAudio settings s * rate settings info s.modelName .audio := by
    refine Fintype.sum_eq_single Category.audio fun c hc ↦ ?_
    rw [hnone c hc, mul_zero]
  rw [hsum, hratio, mul_zero, add_zero]
  refine add_nonneg ?_ hsurcharge
  unfold pricedAudio rate
  by_cases hpriced : s.audioTokens ≠ 0 ∧
      0 < settings.geminiInputAudioPricePerMillionTokens s.modelName
  · rw [if_pos hpriced]
    have hcount : (0 : ℚ) ≤ s.audioTokens := by exact_mod_cast haudio
    exact mul_nonneg hcount (mul_nonneg (mul_nonneg
      (decimalDiv_nonneg hpriced.2.le (by norm_num)) h.groupRatio) h.quotaPerUnit)
  · rw [if_neg hpriced, Int.cast_zero, zero_mul]

theorem amountOf_nonneg (h : NonnegPrices settings info)
    (hcounts : Counts (usageOrEstimate info usage)) (hratio : ratio info = 0) :
    0 ≤ amountOf settings ctx info now usage := by
  unfold amountOf
  cases info.priceData.usePrice with
  | true => exact priceQuota_nonneg h
  | false =>
    obtain ⟨-, -, -, -, -, haudio⟩ := summaryTokens_kept settings ctx info now
      (usageSemanticFromUsage info usage) (usageOrEstimate info usage)
    have hsurcharge := summaryTokens_surcharge settings ctx info now
      (usageSemanticFromUsage info usage) (usageOrEstimate info usage)
    refine amount_of_no_ratio h ?_ ?_ hratio
    · exact haudio.symm ▸ hcounts.audio
    · exact hsurcharge.symm ▸ surcharge_nonneg h

theorem quota_nonneg (h : NonnegPrices settings info)
    (hcounts : Counts (usageOrEstimate info usage)) : 0 ≤ quotaOf settings ctx info now usage := by
  rw [quota_eq h hcounts]
  by_cases htotal : totalTokens info usage = 0
  · rw [if_pos htotal]
  · rw [if_neg htotal]
    exact charged_nonneg (amountOf_nonneg h hcounts)

theorem one_le_quota (h : NonnegPrices settings info)
    (hcounts : Counts (usageOrEstimate info usage)) (hratio : ratio info ≠ 0)
    (htotal : totalTokens info usage ≠ 0) : 1 ≤ quotaOf settings ctx info now usage := by
  rw [quota_eq h hcounts, if_neg htotal]
  exact one_le_charged hratio _

theorem amount_completion (h : NonnegPrices settings info) (u : Usage) (s : TextQuotaSummary)
    {n : ℤ} (total : ℤ) (hn : s.completionTokens ≤ n) :
    amount settings info u s ≤ amount settings info { u with completionTokens := n }
      { s with completionTokens := n, totalTokens := total } := by
  apply withOtherRatios_mono h
  have hcategories (c : Category) : tokens settings info { u with completionTokens := n }
      { s with completionTokens := n, totalTokens := total } c = tokens settings info u s c := by
    cases c <;> rfl
  simp only [hcategories]
  have hcount : (s.completionTokens : ℚ) ≤ n := by exact_mod_cast hn
  have hcost := mul_le_mul_of_nonneg_right
    (mul_le_mul_of_nonneg_right hcount h.completionRatio) (ratio_nonneg h)
  linarith

theorem quota_completion (h : NonnegPrices settings info) {u : Usage} (hcounts : Counts u)
    (hcost : ¬ CreatedFromCost settings info u) {n : ℤ} (hn : u.completionTokens ≤ n) :
    quotaOf settings ctx info now (some u) ≤
      quotaOf settings ctx info now (some { u with completionTokens := n }) := by
  have hcounts' : Counts { u with completionTokens := n } :=
    { hcounts with completion := hcounts.completion.trans hn }
  have hquota : quotaOf settings ctx info now (some u) = _ := quota_eq h hcounts
  have hquota' : quotaOf settings ctx info now (some { u with completionTokens := n }) = _ :=
    quota_eq h hcounts'
  by_cases htotal : totalTokens info (some u) = 0
  · rw [hquota, if_pos htotal]
    exact quota_nonneg h hcounts'
  · have hprompt := hcounts.prompt
    have hcompletion := hcounts.completion
    have htotal' : totalTokens info (some { u with completionTokens := n }) ≠ 0 := by
      unfold totalTokens usageOrEstimate at htotal ⊢
      dsimp only [Option.getD_some] at htotal ⊢
      omega
    rw [hquota, hquota', if_neg htotal, if_neg htotal']
    apply charged_mono
    have htokens : tokensOf settings ctx info now (some { u with completionTokens := n }) =
        { tokensOf settings ctx info now (some u) with
          completionTokens := n
          totalTokens := u.promptTokens + n } :=
      summaryTokens_completion settings ctx info now hcost n
    unfold amountOf
    rw [htokens]
    cases info.priceData.usePrice with
    | true => exact le_refl _
    | false =>
      refine amount_completion h u _ _ ?_
      obtain ⟨hkept, -⟩ :=
        summaryTokens_kept settings ctx info now (usageSemanticFromUsage info (some u)) u
      exact hkept.le.trans hn

/-- Counts of a summary that are not negative. -/
structure SummaryCounts (s : TextQuotaSummary) : Prop where
  cached : 0 ≤ s.cacheTokens
  created : 0 ≤ s.cacheCreationTokens
  created5m : 0 ≤ s.cacheCreationTokens5m
  created1h : 0 ≤ s.cacheCreationTokens1h
  image : 0 ≤ s.imageTokens
  audio : 0 ≤ s.audioTokens

theorem tokensOf_counts (hcounts : Counts (usageOrEstimate info usage)) :
    SummaryCounts (tokensOf settings ctx info now usage) := by
  obtain ⟨-, hcached, h5m, h1h, himage, haudio⟩ := summaryTokens_kept settings ctx info now
    (usageSemanticFromUsage info usage) (usageOrEstimate info usage)
  exact {
    cached := hcached.symm ▸ hcounts.cached
    created := summaryTokens_created settings ctx info now _ hcounts
    created5m := h5m.symm ▸ hcounts.created5m
    created1h := h1h.symm ▸ hcounts.created1h
    image := himage.symm ▸ hcounts.image
    audio := haudio.symm ▸ hcounts.audio }

theorem pricedAudio_nonneg {s : TextQuotaSummary} (h : 0 ≤ s.audioTokens) :
    0 ≤ pricedAudio settings s := by
  unfold pricedAudio
  split_ifs
  · exact h
  · exact le_refl 0

/-- OpenRouter's Claude usages count as Claude's: what is cached is not subtracted again. -/
theorem not_inclusive_of_router {u : Usage} {s : TextQuotaSummary}
    (h : openRouterClaude info s = true) : inclusive info u s = false := by
  rw [openRouterClaude, Bool.and_eq_true] at h
  rw [inclusive, h.2]
  rfl

theorem tokens_counted {u : Usage} {s : TextQuotaSummary} (hcounts : SummaryCounts s)
    (hprompt : s.promptTokens = u.promptTokens -
      if openRouterClaude info s then s.cacheTokens + s.cacheCreationTokens else 0)
    (hfits : Fits settings info u s) (c : Category) : 0 ≤ tokens settings info u s c := by
  have hcached := hcounts.cached
  cases c with
  | text =>
    have hroom := hfits.1
    unfold tokens
    rw [hprompt]
    cases hrouter : openRouterClaude info s with
    | true =>
      simp only [hrouter, not_inclusive_of_router hrouter, true_or, if_true, Bool.false_eq_true,
        if_false] at hroom ⊢
      omega
    | false =>
      simp only [hrouter, Bool.false_eq_true, false_or, if_false] at hroom ⊢
      omega
  | cacheRead => exact hcounts.cached
  | cacheWrite =>
    unfold tokens
    split_ifs
    · exact hcounts.created
    · exact le_max_left 0 _
  | cacheWrite5m =>
    unfold tokens
    split_ifs
    · exact le_refl 0
    · exact hcounts.created5m
  | cacheWrite1h =>
    unfold tokens
    split_ifs
    · exact le_refl 0
    · exact hcounts.created1h
  | image => exact hcounts.image
  | audio => exact pricedAudio_nonneg hcounts.audio

theorem cacheWriteTokensTotal_eq {s : TextQuotaSummary} (hcounts : SummaryCounts s) :
    cacheWriteTokensTotal s =
      max 0 (s.cacheCreationTokens - s.cacheCreationTokens5m - s.cacheCreationTokens1h) +
        s.cacheCreationTokens5m + s.cacheCreationTokens1h := by
  have hcreated := hcounts.created
  have h5m := hcounts.created5m
  have h1h := hcounts.created1h
  unfold cacheWriteTokensTotal
  dsimp only
  split_ifs <;> omega

theorem sum_tokens {u : Usage} {s : TextQuotaSummary} (hcounts : SummaryCounts s)
    (hprompt : s.promptTokens = u.promptTokens -
      if openRouterClaude info s then s.cacheTokens + s.cacheCreationTokens else 0)
    (hfits : Fits settings info u s) : ∑ c, tokens settings info u s c = inputTokens info u s := by
  rw [sum_categories]
  simp only [tokens]
  unfold inputTokens
  rw [hprompt]
  cases hrouter : openRouterClaude info s with
  | true =>
    have hsplit := hfits.2 hrouter
    simp only [not_inclusive_of_router hrouter, true_or, if_true, Bool.false_eq_true, if_false]
    omega
  | false =>
    cases hinclusive : inclusive info u s with
    | true =>
      simp only [Bool.false_eq_true, or_true, if_true, if_false]
      omega
    | false =>
      simp only [Bool.false_eq_true, or_self, if_false, cacheWriteTokensTotal_eq hcounts]
      omega

theorem billed_once (h : NonnegPrices settings info)
    (hcounts : Counts (usageOrEstimate info usage)) (hprice : info.priceData.usePrice = false)
    (hfits : Fits settings info (usageOrEstimate info usage) (tokensOf settings ctx info now usage)) :
    BilledOnce settings ctx info now usage := by
  have hsummary : SummaryCounts (tokensOf settings ctx info now usage) := tokensOf_counts hcounts
  have hprompt := summaryTokens_prompt settings ctx info now
    (usageSemanticFromUsage info usage) (usageOrEstimate info usage)
  refine ⟨tokens_counted hsummary hprompt hfits, sum_tokens hsummary hprompt hfits, ?_⟩
  rw [quota_eq h hcounts, amountOf, hprice]
  rfl

variable (settings ctx info now usage)

end Sound

section Examples

/-- A model whose ratio of ten is the default. -/
def plainPrices : Settings where
  quotaPerUnit := 1
  toolPriceForModel _ _ := 0
  toolPrice _ := 0
  gptImage1PriceOnceCall _ _ := 0
  geminiInputAudioPricePerMillionTokens _ := 0
  defaultModelRatio _ := some 10
  logConsumeEnabled := true
  floats := ⟨fun x ↦ x⟩
  engine := ⟨fun _ _ ↦ false, fun _ _ _ _ ↦ .ok (0, "base")⟩

def chatRequest (channelType : ℤ) (format : RelayFormat) : RelayInfo where
  userId := 1
  channelId := 2
  channelType := channelType
  tokenId := 3
  originModelName := "claude-sonnet-4"
  usingGroup := "default"
  isStream := false
  startTime := 0
  relayFormat := format
  estimatePromptTokens := 1000
  priceData := {
    modelRatio := 10
    completionRatio := 1 / 10
    cacheRatio := 1 / 10
    cacheCreationRatio := 5 / 4
    imageRatio := 2
    groupRatioInfo := { groupRatio := 1 } }
  finalPreConsumedQuota := 0

theorem chatRequest_prices (channelType : ℤ) (format : RelayFormat) :
    NonnegPrices plainPrices (chatRequest channelType format) where
  quotaPerUnit := by decide +kernel
  toolPriceForModel _ _ := le_refl 0
  toolPrice _ := le_refl 0
  imageCall _ _ := le_refl 0
  modelPrice := le_refl 0
  modelRatio := by
    change (0 : ℚ) ≤ 10
    norm_num
  groupRatio := zero_le_one
  completionRatio := by
    change (0 : ℚ) ≤ 1 / 10
    norm_num
  otherRatios _ h := absurd h List.not_mem_nil

def cachedChat : Usage :=
  { promptTokens := 1000, completionTokens := 20, promptTokensDetails := { cachedTokens := 600 } }

/-- What OpenRouter reports of a Claude request with its cost. -/
def routedChat (completion : ℤ) : Usage :=
  { promptTokens := 1000, completionTokens := completion, cost := .float 10250 }

/-- Images that are cached are in two parts of the prompt. -/
def cachedImages : Usage where
  promptTokens := 1000
  completionTokens := 20
  promptTokensDetails := { cachedTokens := 900, imageTokens := 500 }

end Examples

end AllAiTools.NewApi.Service.TextQuotaSound
