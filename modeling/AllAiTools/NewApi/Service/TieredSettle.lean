import AllAiTools.Foundation.Rounding

namespace AllAiTools.NewApi.Service.TieredSettle

open Foundation.Rounding

structure InputTokenDetails where
  cachedTokens : ℤ := 0
  cachedCreationTokens : ℤ := 0
  audioTokens : ℤ := 0
  imageTokens : ℤ := 0

structure OutputTokenDetails where
  audioTokens : ℤ := 0
  imageTokens : ℤ := 0

/-- The dynamic value of a field that takes any. -/
inductive AnyCost
  | absent
  | int (n : ℤ)
  | float (x : ℚ)
  | other
  deriving DecidableEq

structure Usage where
  promptTokens : ℤ
  completionTokens : ℤ
  usageSemantic : String := ""
  usageSource : String := ""
  promptTokensDetails : InputTokenDetails := {}
  completionTokenDetails : OutputTokenDetails := {}
  claudeCacheCreation5mTokens : ℤ := 0
  claudeCacheCreation1hTokens : ℤ := 0
  cost : AnyCost := .absent

structure TokenParams where
  p : ℚ
  c : ℚ
  len : ℚ
  cr : ℚ
  cc : ℚ
  cc1h : ℚ
  img : ℚ
  imgO : ℚ
  ai : ℚ
  ao : ℚ

structure RequestInput where
  headers : List (String × String) := []
  body : String := ""

structure BillingSnapshot where
  billingMode : String
  exprString : String
  exprHash : String
  groupRatio : ℚ
  estimatedQuotaAfterGroup : ℤ
  estimatedTier : String
  quotaPerUnit : ℚ

structure TieredResult where
  actualQuotaBeforeGroup : ℚ
  actualQuotaAfterGroup : ℤ
  matchedTier : String
  crossedTier : Bool

/-- The expression language: what an expression uses, what it costs and the tier it matched. -/
structure ExprEngine where
  usedVars : String → String → Bool
  runExprByHashWithRequest :
    String → String → TokenParams → RequestInput → Except String (ℚ × String)

def buildTieredTokenParams (usage : Usage) (isClaudeUsageSemantic : Bool)
    (usedVars : String → Bool) : TokenParams :=
  let cr := usage.promptTokensDetails.cachedTokens
  let cc5m := if usage.usageSemantic = "anthropic" then usage.claudeCacheCreation5mTokens
    else usage.promptTokensDetails.cachedCreationTokens
  let cc1h := if usage.usageSemantic = "anthropic" then usage.claudeCacheCreation1hTokens else 0
  let img := usage.promptTokensDetails.imageTokens
  let ai := usage.promptTokensDetails.audioTokens
  let imgO := usage.completionTokenDetails.imageTokens
  let ao := usage.completionTokenDetails.audioTokens
  let inputLen := if isClaudeUsageSemantic then usage.promptTokens + cr + cc5m + cc1h
    else usage.promptTokens
  let taken (var : String) (tokens : ℤ) : ℤ :=
    if !isClaudeUsageSemantic && usedVars var then tokens else 0
  let p := usage.promptTokens - taken "cr" cr - taken "cc" cc5m - taken "cc1h" cc1h -
    taken "img" img - taken "ai" ai
  let c := usage.completionTokens - taken "img_o" imgO - taken "ao" ao
  { p := max p 0, c := max c 0, len := inputLen, cr, cc := cc5m, cc1h, img, imgO, ai, ao }

variable (floats : Floats) (engine : ExprEngine)

def quotaConversion (exprOutput : ℚ) (snap : BillingSnapshot) : ℚ :=
  floats.nearest (floats.nearest (exprOutput / 1000000) * snap.quotaPerUnit)

def quotaRound (f : ℚ) : ℤ := roundHalfAway f

def computeTieredQuotaWithRequest (snap : BillingSnapshot) (params : TokenParams)
    (request : RequestInput) : Except String TieredResult :=
  match engine.runExprByHashWithRequest snap.exprString snap.exprHash params request with
  | .error e => .error e
  | .ok (cost, matchedTier) =>
    let quotaBeforeGroup := quotaConversion floats cost snap
    .ok {
      actualQuotaBeforeGroup := quotaBeforeGroup
      actualQuotaAfterGroup := quotaRound (floats.nearest (quotaBeforeGroup * snap.groupRatio))
      matchedTier
      crossedTier := matchedTier ≠ snap.estimatedTier }

/-- None where the request is not billed by tiers; an expression that fails leaves the amount
of the pre-consume. -/
def tryTieredSettle (snapshot : Option BillingSnapshot) (requestInput : Option RequestInput)
    (finalPreConsumedQuota : ℤ) (params : TokenParams) : Option (ℤ × Option TieredResult) :=
  match snapshot with
  | none => none
  | some snap =>
    if snap.billingMode ≠ "tiered_expr" then none
    else match computeTieredQuotaWithRequest floats engine snap params (requestInput.getD {}) with
      | .error _ => some (if finalPreConsumedQuota ≤ 0 then snap.estimatedQuotaAfterGroup
          else finalPreConsumedQuota, none)
      | .ok tr => some (tr.actualQuotaAfterGroup, some tr)

end AllAiTools.NewApi.Service.TieredSettle
