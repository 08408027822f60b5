import AllAiTools.Foundation.Result
import AllAiTools.NewApi.Controller.RelayBilling
import AllAiTools.NewApi.Service.ChargedRecorded

namespace AllAiTools.NewApi.Controller.ServingGroup

open Foundation Foundation.Rounding Result Types.Price Relay.ModelPrice Relay.HelperPrice
open Service.TieredSettle RelayRetry RelayBilling Model.CachedChannels
open Service.ChannelSelect (RetryParam Selected tryGroups cacheGetRandomSatisfiedChannel
  getUserAutoGroup)
open Service.TextQuota (postTextConsumeQuota billedSummary calculateTextQuotaSummary
  calculateTextToolCallSurcharge composeTieredTextQuota)
open Service.ChargedRecorded (settled sum_settled tieredParams summary_params
  summaryTokens_surcharge)

variable (settings : Relay.HelperPrice.Settings) (models : ModelSettings)
  (select : Service.ChannelSelect.Settings) (cache : ChannelCache) (rules : RetryRules)
  (world : World) (pricing : Pricing)

section Selection

variable {select cache}

/-- A channel that is found among groups is one of the group that the context then names. -/
theorem tryGroups_group (draws : ℕ → ℕ) (param : RetryParam) (ctx : Service.ChannelSelect.Context)
    (moved : Bool) (i : ℕ) (groups : List String) {channel : Model.Channels.Channel}
    (h : (tryGroups select cache draws param ctx moved i groups).channel = .ok (some channel)) :
    ∃ k group, groups[k]? = some group ∧
      (tryGroups select cache draws param ctx moved i groups).place = i + k ∧
      (tryGroups select cache draws param ctx moved i groups).ctx.autoGroup = some group ∧
      (tryGroups select cache draws param ctx moved i groups).ctx.userGroup = ctx.userGroup ∧
      (tryGroups select cache draws param ctx moved i groups).param.tokenGroup =
        param.tokenGroup := by
  induction groups generalizing i param ctx moved with
  | nil => simp [tryGroups] at h
  | cons group groups ih =>
    rw [tryGroups] at h ⊢
    cases hfound : ((getRandomSatisfiedChannel cache group param.modelName
        (if moved then 0 else param.getRetry)).outcome (draws i)).toOption.join with
    | none =>
      simp only [hfound] at h ⊢
      obtain ⟨k, found, hk, hplace, hgroup, huser, htoken⟩ := ih _ _ _ _ h
      exact ⟨k + 1, found, hk, by rw [hplace]; omega, hgroup, huser, htoken⟩
    | some other =>
      simp only [hfound] at h ⊢
      refine ⟨0, group, rfl, ?_⟩
      by_cases hlast : ctx.tokenCrossGroupRetry ∧
          select.retryTimes ≤ ((if moved then 0 else param.getRetry : ℕ) : ℤ)
      · rw [if_pos hlast]
        exact ⟨rfl, rfl, rfl, rfl⟩
      · rw [if_neg hlast]
        exact ⟨rfl, rfl, rfl, rfl⟩

theorem select_group (draws : ℕ → ℕ) {param : RetryParam} (ctx : Service.ChannelSelect.Context)
    (hauto : param.tokenGroup = "auto") {channel : Model.Channels.Channel}
    (h : (cacheGetRandomSatisfiedChannel select cache draws param ctx).channel =
      .ok (some channel)) :
    let selected := cacheGetRandomSatisfiedChannel select cache draws param ctx
    (∃ group, (getUserAutoGroup select ctx.userGroup)[selected.place]? = some group ∧
      selected.ctx.autoGroup = some group) ∧
    selected.ctx.userGroup = ctx.userGroup ∧ selected.param.tokenGroup = "auto" := by
  rw [cacheGetRandomSatisfiedChannel, if_pos hauto] at h ⊢
  by_cases hnone : select.autoGroups = []
  · rw [if_pos hnone] at h
    cases h
  · rw [if_neg hnone] at h ⊢
    obtain ⟨k, group, hk, hplace, hgroup, huser, htoken⟩ := tryGroups_group _ _ _ _ _ _ h
    refine ⟨⟨group, ?_, hgroup⟩, huser, htoken.trans hauto⟩
    rw [List.getElem?_drop] at hk
    simpa only [hplace] using hk

end Selection

section Serving

/-- The ratio of a group, as the price data carry it. -/
def ratioOf (group : String) : GroupRatioInfo :=
  (handleGroupRatio settings { pricing.ctx with autoGroup := some group } pricing.info).1

/-- Price data with the ratio of another group; what was frozen at first stays. -/
def regrouped (group : String) (priced : Priced) : Priced :=
  { priced with
    info := { priced.info with
      usingGroup := group
      priceData := { priced.info.priceData with groupRatioInfo := ratioOf settings pricing group } } }

theorem handleGroupRatio_auto (group : String) {info : Relay.HelperPrice.RelayInfo}
    (huser : info.userGroup = pricing.info.userGroup) :
    handleGroupRatio settings { pricing.ctx with autoGroup := some group } info =
      (ratioOf settings pricing group, { info with usingGroup := group }) := by
  simp only [ratioOf, handleGroupRatio, huser, Option.getD_some]
  cases settings.groupGroupRatio pricing.info.userGroup group <;> rfl

variable {select cache world}

/-- The channel in hand is one of the group whose ratio the price data carry. -/
structure Grouped (groups : List String) (priced : Priced) (attempt : Attempt) (s : Relaying) :
    Prop where
  auto : s.param.tokenGroup = "auto"
  usable : getUserAutoGroup select s.ctx.userGroup = groups
  serving : ∃ group, groups[attempt.place]? = some group ∧
    s.priced = regrouped settings pricing group priced

theorem getChannel_grouped {groups : List String} {priced : Priced} {n : ℕ}
    {attempt last : Attempt} {s s' : Relaying}
    (hgrouped : @Grouped settings select pricing groups priced last s)
    (huser : priced.info.userGroup = pricing.info.userGroup)
    (h : getChannel settings select cache world pricing n none s = (.ok attempt, s')) :
    @Grouped settings select pricing groups priced attempt s' ∧
      s'.finalPreConsumedQuota = s.finalPreConsumedQuota := by
  obtain ⟨before, _, hlast⟩ := hgrouped.serving
  have hratio (group : String) := @handleGroupRatio_auto settings pricing group s.priced.info
    (by rw [hlast]; exact huser)
  simp only [RelayBilling.getChannel, RelayRetry.getChannel] at h
  cases hchannel : (cacheGetRandomSatisfiedChannel select cache (world.draws n) s.param
    s.ctx).channel with
  | error e => simp [hchannel] at h
  | ok found =>
    cases found with
    | none => simp [hchannel] at h
    | some channel =>
      obtain ⟨⟨group, hplace, hgroup⟩, husergroup, htoken⟩ :=
        select_group (world.draws n) s.ctx hgrouped.auto hchannel
      cases hsetup : world.setupContext channel with
      | some e => simp [hchannel, hsetup] at h
      | none =>
        simp only [hchannel, hsetup, hgroup, hratio] at h
        cases h
        refine ⟨⟨htoken, ?_, group, ?_, ?_⟩, rfl⟩
        · rw [← hgrouped.usable, ← husergroup]
        · rw [← hgrouped.usable]
          exact hplace
        · rw [hlast]
          rfl

theorem attempt_grouped {groups : List String} {priced : Priced} {n : ℕ}
    {attempt last : Attempt} {s s' : Relaying} {inContext : Option Attempt}
    (hcontext : ∀ first ∈ inContext, first = last)
    (hgrouped : @Grouped settings select pricing groups priced last s)
    (huser : priced.info.userGroup = pricing.info.userGroup)
    (h : getChannel settings select cache world pricing n inContext s = (.ok attempt, s')) :
    @Grouped settings select pricing groups priced attempt s' ∧
      s'.finalPreConsumedQuota = s.finalPreConsumedQuota := by
  cases inContext with
  | none => exact getChannel_grouped settings pricing hgrouped huser h
  | some first =>
    obtain rfl := hcontext first rfl
    simp only [RelayBilling.getChannel, RelayRetry.getChannel] at h
    cases h
    exact ⟨hgrouped, rfl⟩

theorem serve_grouped {groups : List String} {priced : Priced}
    (huser : priced.info.userGroup = pricing.info.userGroup) (failures : List NewAPIError)
    {n : ℕ} {last attempt : Attempt} {s s' : Relaying} {inContext : Option Attempt}
    (hcontext : ∀ first ∈ inContext, first = last)
    (hgrouped : @Grouped settings select pricing groups priced last s)
    (h : serve settings select cache rules world pricing failures n inContext s =
      some (attempt, s')) :
    @Grouped settings select pricing groups priced attempt s' ∧
      s'.finalPreConsumedQuota = s.finalPreConsumedQuota := by
  induction failures generalizing n last s inContext with
  | nil =>
    rw [serve] at h
    split_ifs at h
    cases hchannel : getChannel settings select cache world pricing n inContext s with
    | mk answer next =>
      cases answer with
      | error e => simp [hchannel] at h
      | ok found =>
        simp only [hchannel, Option.some.injEq, Prod.mk.injEq] at h
        obtain ⟨rfl, rfl⟩ := h
        exact attempt_grouped settings pricing hcontext hgrouped huser hchannel
  | cons failure failures ih =>
    rw [serve] at h
    split_ifs at h
    cases hchannel : getChannel settings select cache world pricing n inContext s with
    | mk answer next =>
      cases answer with
      | error e => simp [hchannel] at h
      | ok found =>
        simp only [hchannel] at h
        split_ifs at h
        obtain ⟨hnext, hfinal⟩ :=
          attempt_grouped settings pricing hcontext hgrouped huser hchannel
        have hincreased : @Grouped settings select pricing groups priced found
            { next with param := next.param.increaseRetry } := by
          refine ⟨?_, hnext.usable, hnext.serving⟩
          rw [← hnext.auto, RetryParam.increaseRetry]
          split_ifs <;> rfl
        obtain ⟨hserved, hkept⟩ := ih (fun _ hfirst ↦ by cases hfirst) hincreased h
        exact ⟨hserved, hkept.trans hfinal⟩

end Serving

section Prices

variable {settings models pricing}

/-- The price of one request for another group. -/
structure Repriced (group : String) (priced other : Priced) : Prop where
  priceData : other.info.priceData = { priced.info.priceData with
    freeModel := other.info.priceData.freeModel
    groupRatioInfo := ratioOf settings pricing group }
  requestInput : other.billingRequestInput = priced.billingRequestInput
  snapshot : other.tieredBillingSnapshot = priced.tieredBillingSnapshot.map fun snap ↦
    { snap with
      groupRatio := (ratioOf settings pricing group).groupRatio
      estimatedQuotaAfterGroup := other.quotaToPreConsume }

theorem priceFor_eq (group : String) : priceFor settings models pricing (some group) =
    let info := { pricing.info with usingGroup := group }
    if models.billingMode info.originModelName = billingModeTieredExpr then
      modelPriceHelperTiered settings models info (ratioOf settings pricing group)
        pricing.promptTokens pricing.tokens pricing.requestInput
    else match settings.modelPrice info.originModelName with
      | some price => .ok
          { info := { info with priceData := (priceByModel settings
              (ratioOf settings pricing group) price pricing.tokens).1 }
            quotaToPreConsume := (priceByModel settings (ratioOf settings pricing group) price
              pricing.tokens).2 }
      | none =>
        let (modelRatio, success, matchName) := settings.modelRatio info.originModelName
        if !success ∧ !info.acceptUnsetRatioModel then
          .error (modelPriceNotConfiguredError settings matchName info.userId)
        else .ok
          { info := { info with priceData := (priceByToken settings models
              (ratioOf settings pricing group) info.originModelName modelRatio
              pricing.promptTokens pricing.tokens).1 }
            quotaToPreConsume := (priceByToken settings models (ratioOf settings pricing group)
              info.originModelName modelRatio pricing.promptTokens pricing.tokens).2 } := by
  rewrite [priceFor, modelPriceHelper, handleGroupRatio_auto settings pricing group rfl]
  rfl

theorem priceFor_repriced {group : String} {priced : Priced}
    (h : priceFor settings models pricing (some group) = .ok priced) :
    priced = regrouped settings pricing group priced ∧
    priced.info.userGroup = pricing.info.userGroup ∧
    (∀ snap ∈ priced.tieredBillingSnapshot, snap.billingMode = "tiered_expr") ∧
    ∀ group', ∃ other, priceFor settings models pricing (some group') = .ok other ∧
      @Repriced settings pricing group' priced other := by
  simp only [priceFor_eq] at h ⊢
  by_cases htiered : models.billingMode pricing.info.originModelName = billingModeTieredExpr
  · simp only [if_pos htiered] at h ⊢
    simp only [modelPriceHelperTiered] at h ⊢
    cases hexpr : models.billingExpr pricing.info.originModelName with
    | none => simp [hexpr] at h
    | some exprStr =>
      simp only [hexpr] at h ⊢
      cases hinput : pricing.requestInput with
      | error e => simp [hinput, bind_error] at h
      | ok requestInput =>
        simp only [hinput, bind_ok] at h ⊢
        obtain ⟨⟨rawCost, tier⟩, hrun, hpriced⟩ := bind_eq_ok.mp h
        cases pure_eq_ok.mp hpriced
        refine ⟨rfl, rfl, fun snap hsnap ↦ ?_, fun _ ↦ ?_⟩
        · cases hsnap
          rfl
        · exact ⟨_, bind_eq_ok.mpr ⟨(rawCost, tier), hrun, rfl⟩, rfl, rfl, rfl⟩
  · simp only [if_neg htiered] at h ⊢
    cases hprice : settings.modelPrice pricing.info.originModelName with
    | some price =>
      simp only [hprice] at h ⊢
      cases h
      exact ⟨rfl, rfl, fun snap hsnap ↦ (by cases hsnap), fun _ ↦ ⟨_, rfl, rfl, rfl, rfl⟩⟩
    | none =>
      simp only [hprice] at h ⊢
      split_ifs at h ⊢
      cases h
      exact ⟨rfl, rfl, fun snap hsnap ↦ (by cases hsnap), fun _ ↦ ⟨_, rfl, rfl, rfl, rfl⟩⟩

end Prices

section Settlement

variable (books : Service.TextQuota.Settings) (ctx : Service.TextQuota.Context)
  (base : Service.TextQuota.RelayInfo) (now : ℤ) (usage : Option Usage)

def charged (info : Service.TextQuota.RelayInfo) : ℤ :=
  ((postTextConsumeQuota books ctx info now usage).map settled).sum

/-- What is kept of the pre-consumed quota where the expression fails. -/
def kept (finalPreConsumedQuota estimated : ℤ) : ℤ :=
  if finalPreConsumedQuota ≤ 0 then estimated else finalPreConsumedQuota

/-- The charge of a tier with a group's ratio. -/
def tierCharge (info : Service.TextQuota.RelayInfo) (reported : Usage) (snap : BillingSnapshot)
    (ratio : ℚ) (kept : ℤ) : ℤ :=
  let surcharge := calculateTextToolCallSurcharge books ctx info
  match books.engine.runExprByHashWithRequest snap.exprString snap.exprHash
      (tieredParams books info reported snap) (info.billingRequestInput.getD {}) with
  | .error _ => kept + roundHalfAway surcharge
  | .ok (cost, _) =>
    let price := quotaConversion books.floats cost snap
    if surcharge = 0 then roundHalfAway (books.floats.nearest (price * ratio))
    else roundHalfAway (price * ratio + surcharge)

theorem charged_tiered {info : Service.TextQuota.RelayInfo} {reported : Usage}
    {snap : BillingSnapshot} (hsnap : info.tieredBillingSnapshot = some snap)
    (hmode : snap.billingMode = "tiered_expr") :
    charged books ctx now (some reported) info = tierCharge books ctx info reported snap
      snap.groupRatio (kept info.finalPreConsumedQuota snap.estimatedQuotaAfterGroup) := by
  have hsurcharge : (calculateTextQuotaSummary books ctx info now
      (some reported)).toolCallSurchargeQuota = calculateTextToolCallSurcharge books ctx info :=
    summaryTokens_surcharge books ctx info now _ _
  have hparams := summary_params books ctx info now reported snap
  rw [charged, sum_settled]
  simp only [billedSummary, hsnap, hparams, tryTieredSettle, hmode, ne_eq, not_true_eq_false,
    if_false, computeTieredQuotaWithRequest, tierCharge]
  cases hrun : books.engine.runExprByHashWithRequest snap.exprString snap.exprHash
      (tieredParams books info reported snap) (info.billingRequestInput.getD {}) with
  | error e =>
    simp only [composeTieredTextQuota, hsurcharge, kept]
    by_cases hzero : calculateTextToolCallSurcharge books ctx info = 0
    · rw [if_pos hzero, hzero, roundHalfAway_zero, add_zero]
    · rw [if_neg hzero]
  | ok result =>
    obtain ⟨cost, tier⟩ := result
    simp only [composeTieredTextQuota, hsurcharge, hsnap, quotaRound]

theorem charged_untiered {info : Service.TextQuota.RelayInfo}
    (h : usage = none ∨ info.tieredBillingSnapshot = none) :
    charged books ctx now usage info =
      (calculateTextQuotaSummary books ctx info now usage).quota := by
  rw [charged, sum_settled]
  rcases h with rfl | hsnap
  · rfl
  · cases usage with
    | none => rfl
    | some reported => simp only [billedSummary, hsnap, tryTieredSettle]

/-- A relay info with another group, price flag, pre-consumed quota and snapshot. -/
def repriced (info : Service.TextQuota.RelayInfo) (usingGroup : String) (freeModel : Bool)
    (finalPreConsumedQuota : ℤ) (snapshot : Option BillingSnapshot) :
    Service.TextQuota.RelayInfo :=
  { info with
    usingGroup
    priceData := { info.priceData with freeModel }
    finalPreConsumedQuota
    tieredBillingSnapshot := snapshot }

theorem surcharge_repriced (info : Service.TextQuota.RelayInfo) (usingGroup : String)
    (freeModel : Bool) (final : ℤ) (snapshot : Option BillingSnapshot) :
    calculateTextToolCallSurcharge books ctx
        (repriced info usingGroup freeModel final snapshot) =
      calculateTextToolCallSurcharge books ctx info := rfl

theorem ratioQuota_repriced (info : Service.TextQuota.RelayInfo) (usingGroup : String)
    (freeModel : Bool) (final : ℤ) (snapshot : Option BillingSnapshot) (billed : Usage)
    (summary : Service.TextQuota.TextQuotaSummary) :
    Service.TextQuota.ratioQuota books (repriced info usingGroup freeModel final snapshot) billed
      summary = Service.TextQuota.ratioQuota books info billed summary := rfl

theorem summaryTokens_repriced (info : Service.TextQuota.RelayInfo) (usingGroup : String)
    (freeModel : Bool) (final : ℤ) (snapshot : Option BillingSnapshot) (semantic : String)
    (billed : Usage) :
    Service.TextQuota.summaryTokens books ctx (repriced info usingGroup freeModel final snapshot)
        now semantic billed =
      Service.TextQuota.summaryTokens books ctx info now semantic billed := by
  rw [Service.TextQuota.summaryTokens, Service.TextQuota.summaryTokens, surcharge_repriced]
  rfl

theorem summary_repriced (info : Service.TextQuota.RelayInfo) (usingGroup : String)
    (freeModel : Bool) (final : ℤ) (snapshot : Option BillingSnapshot) :
    calculateTextQuotaSummary books ctx (repriced info usingGroup freeModel final snapshot) now
      usage = calculateTextQuotaSummary books ctx info now usage := by
  rw [calculateTextQuotaSummary, calculateTextQuotaSummary, summaryTokens_repriced,
    ratioQuota_repriced]
  rfl

theorem tieredParams_repriced (info : Service.TextQuota.RelayInfo) (usingGroup : String)
    (freeModel : Bool) (final : ℤ) (snapshot : Option BillingSnapshot) (reported : Usage)
    (snap : BillingSnapshot) :
    tieredParams books (repriced info usingGroup freeModel final snapshot) reported snap =
      tieredParams books info reported snap := rfl

end Settlement

section Claims

variable (books : Service.TextQuota.Settings) (textCtx : Service.TextQuota.Context)
  (base : Service.TextQuota.RelayInfo) (now : ℤ) (usage : Option Usage)

/-- What is charged is what the request costs at the price for the group of the channel that served
it. -/
def ChargesServing (userGroup : String) (attempt : Attempt) (s : Relaying) : Prop :=
  ∃ group priced, (getUserAutoGroup select userGroup)[attempt.place]? = some group ∧
    priceFor settings models pricing (some group) = .ok priced ∧
    charged books textCtx now usage (settleInfo base s) =
      charged books textCtx now usage (settleInfo base
        { s with priced, finalPreConsumedQuota := preConsumed pricing priced })

/-- The price that a tier comes to is the same quota with the ratio frozen at first and with that
of the serving group; where the expression fails, so is the quota kept of the pre-consume. -/
def SameTierPrice (s : Relaying) (group : String) (priced : Priced) (reported : Usage)
    (snap : BillingSnapshot) : Prop :=
  let info := settleInfo base s
  let surcharge := calculateTextToolCallSurcharge books textCtx info
  let ratio := (ratioOf settings pricing group).groupRatio
  match books.engine.runExprByHashWithRequest snap.exprString snap.exprHash
      (tieredParams books info reported snap) (info.billingRequestInput.getD {}) with
  | .error _ => kept s.finalPreConsumedQuota snap.estimatedQuotaAfterGroup =
      kept (preConsumed pricing priced) priced.quotaToPreConsume
  | .ok (cost, _) =>
    let price := quotaConversion books.floats cost snap
    if surcharge = 0 then
      roundHalfAway (books.floats.nearest (price * snap.groupRatio)) =
        roundHalfAway (books.floats.nearest (price * ratio))
    else
      roundHalfAway (price * snap.groupRatio + surcharge) =
        roundHalfAway (price * ratio + surcharge)

/-- A request that is billed by a tiered expression from a reported usage comes to the same price. -/
def SamePrice (userGroup : String) (attempt : Attempt) (s : Relaying) : Prop :=
  ∀ group priced reported snap,
    (getUserAutoGroup select userGroup)[attempt.place]? = some group →
    priceFor settings models pricing (some group) = .ok priced → usage = some reported →
    s.priced.tieredBillingSnapshot = some snap →
    SameTierPrice settings pricing books textCtx base s group priced reported snap

theorem relay_grouped {modelName : String} {ctx : Service.ChannelSelect.Context}
    {failures : List NewAPIError} {attempt : Attempt} {s : Relaying}
    (h : RelayBilling.relay settings models select cache rules world pricing modelName ctx failures =
      some (attempt, s)) :
    ∃ first priced, priceFor settings models pricing (some first) = .ok priced ∧
      @Grouped settings select pricing (getUserAutoGroup select ctx.userGroup) priced attempt s := by
  simp only [RelayBilling.relay] at h
  cases hchannel : (cacheGetRandomSatisfiedChannel select cache (world.draws 0)
    { tokenGroup := "auto", modelName, retry := some 0 } ctx).channel with
  | error e => simp [hchannel] at h
  | ok found =>
    cases found with
    | none => simp [hchannel] at h
    | some channel =>
      obtain ⟨⟨first, hplace, hgroup⟩, huser, _⟩ :=
        select_group (world.draws 0) ctx rfl hchannel
      simp only [hchannel, hgroup] at h
      cases hpriced : priceFor settings models pricing (some first) with
      | error e => simp [hpriced] at h
      | ok priced =>
        simp only [hpriced] at h
        obtain ⟨hsame, hinfo, _⟩ := priceFor_repriced hpriced
        refine ⟨first, priced, hpriced, ?_⟩
        have hstart : ∀ s : Relaying, s.param.tokenGroup = "auto" →
            s.ctx.userGroup = ctx.userGroup → s.priced = priced →
            @Grouped settings select pricing (getUserAutoGroup select ctx.userGroup) priced
              ⟨(cacheGetRandomSatisfiedChannel select cache (world.draws 0)
                { tokenGroup := "auto", modelName, retry := some 0 } ctx).place, channel⟩ s :=
          fun s hauto hsame' hpriced' ↦
            ⟨hauto, congrArg _ hsame', first, hplace, hpriced'.trans hsame⟩
        have hcontext (attempt : Attempt) : ∀ first ∈ some attempt, first = attempt :=
          fun _ hfirst ↦ (Option.some.inj hfirst).symm
        exact (serve_grouped settings rules pricing hinfo failures (hcontext _)
          (hstart _ rfl huser rfl) h).1

/-- The price for the serving group differs from what is settled in nothing but the snapshot, the
pre-consumed quota and the flag of a free model. -/
theorem settleInfo_repriced {group : String} {priced other : Priced} {s : Relaying}
    (hs : s.priced = regrouped settings pricing group priced)
    (hother : @Repriced settings pricing group priced other) (final : ℤ) :
    settleInfo base { s with priced := other, finalPreConsumedQuota := final } =
      repriced (settleInfo base s) other.info.usingGroup other.info.priceData.freeModel final
        other.tieredBillingSnapshot := by
  have hprice : other.info.priceData = { (settleInfo base s).priceData with
      freeModel := other.info.priceData.freeModel } := by
    rw [settleInfo, hs]
    exact hother.priceData
  have hinput : other.billingRequestInput = (settleInfo base s).billingRequestInput := by
    rw [settleInfo, hs]
    exact hother.requestInput
  rw [repriced, ← hprice, ← hinput]
  rfl

theorem tierCharge_eq_iff {group : String} {priced : Priced} {s : Relaying} {reported : Usage}
    {snap : BillingSnapshot} :
    tierCharge books textCtx (settleInfo base s) reported snap snap.groupRatio
        (kept s.finalPreConsumedQuota snap.estimatedQuotaAfterGroup) =
      tierCharge books textCtx (settleInfo base s) reported snap
        (ratioOf settings pricing group).groupRatio
        (kept (preConsumed pricing priced) priced.quotaToPreConsume) ↔
    SameTierPrice settings pricing books textCtx base s group priced reported snap := by
  simp only [tierCharge, SameTierPrice]
  cases books.engine.runExprByHashWithRequest snap.exprString snap.exprHash
      (tieredParams books (settleInfo base s) reported snap)
      ((settleInfo base s).billingRequestInput.getD {}) with
  | error e => exact add_left_inj _
  | ok result =>
    obtain ⟨cost, tier⟩ := result
    dsimp only
    split_ifs <;> rfl

/-- A request is charged with the ratio of the group that served it exactly where it is not billed
by tiers or the tier's price is the same with the ratio that was frozen for its first group. -/
theorem charges_serving_iff {modelName : String} {ctx : Service.ChannelSelect.Context}
    {failures : List NewAPIError} {attempt : Attempt} {s : Relaying}
    (h : RelayBilling.relay settings models select cache rules world pricing modelName ctx failures =
      some (attempt, s)) :
    ChargesServing settings models select pricing books textCtx base now usage
        ctx.userGroup attempt s ↔
      SamePrice settings models select pricing books textCtx base usage ctx.userGroup
        attempt s := by
  obtain ⟨first, atFirst, hfirst, hgrouped⟩ :=
      relay_grouped settings models select cache rules world pricing h
  obtain ⟨group, hplace, hs⟩ := hgrouped.serving
  obtain ⟨_, _, hmode, hreprice⟩ := priceFor_repriced hfirst
  obtain ⟨priced, hpriced, hother⟩ := hreprice group
  have hsnapshot : s.priced.tieredBillingSnapshot = atFirst.tieredBillingSnapshot := by
    rw [hs]
    rfl
  have hinfo := settleInfo_repriced settings pricing base hs hother (preConsumed pricing priced)
  have hproperty : ChargesServing settings models select pricing books textCtx base
      now usage ctx.userGroup attempt s ↔
        charged books textCtx now usage (settleInfo base s) =
          charged books textCtx now usage (settleInfo base
            { s with priced, finalPreConsumedQuota := preConsumed pricing priced }) := by
    refine ⟨?_, fun heq ↦ ⟨group, priced, hplace, hpriced, heq⟩⟩
    rintro ⟨group', priced', hplace', hpriced', heq⟩
    obtain rfl := Option.some.inj (hplace.symm.trans hplace')
    obtain rfl := Except.ok.inj (hpriced.symm.trans hpriced')
    exact heq
  have hcondition : SamePrice settings models select pricing books textCtx base usage
      ctx.userGroup attempt s ↔ ∀ reported snap, usage = some reported →
        atFirst.tieredBillingSnapshot = some snap →
          SameTierPrice settings pricing books textCtx base s group priced reported snap := by
    constructor
    · intro hall reported snap hreported hsnap
      exact hall group priced reported snap hplace hpriced hreported (hsnapshot.trans hsnap)
    · intro hall group' priced' reported snap hplace' hpriced' hreported hsnap
      obtain rfl := Option.some.inj (hplace.symm.trans hplace')
      obtain rfl := Except.ok.inj (hpriced.symm.trans hpriced')
      exact hall reported snap hreported (hsnapshot.symm.trans hsnap)
  rw [hproperty, hcondition, hinfo]
  cases usage with
  | none =>
    rw [charged_untiered books textCtx now none (.inl rfl),
      charged_untiered books textCtx now none (.inl rfl), summary_repriced]
    exact iff_of_true rfl fun reported snap hnone ↦ by cases hnone
  | some reported =>
    cases hsnap : atFirst.tieredBillingSnapshot with
    | none =>
      have hnone : (settleInfo base s).tieredBillingSnapshot = none := hsnapshot.trans hsnap
      have hnone' : priced.tieredBillingSnapshot = none := by rw [hother.snapshot, hsnap]; rfl
      rw [charged_untiered books textCtx now _ (.inr hnone),
        charged_untiered books textCtx now _ (.inr hnone'), summary_repriced]
      exact iff_of_true rfl fun _ snap _ hsome ↦ by cases hsome
    | some snap =>
      have hsome : (settleInfo base s).tieredBillingSnapshot = some snap := hsnapshot.trans hsnap
      have hsome' := hother.snapshot
      rw [hsnap, Option.map_some] at hsome'
      have htier := hmode snap hsnap
      have hsettled := @charged_tiered books textCtx now _ reported _ hsome htier
      have hserving := @charged_tiered books textCtx now
        (repriced (settleInfo base s) priced.info.usingGroup priced.info.priceData.freeModel
          (preConsumed pricing priced) priced.tieredBillingSnapshot) reported _ hsome' htier
      rw [hsettled, hserving]
      refine (tierCharge_eq_iff settings pricing books textCtx base).trans ?_
      constructor
      · rintro hsame _ _ ⟨⟩ ⟨⟩
        exact hsame
      · intro hall
        exact hall reported snap rfl rfl

end Claims

section Examples

/-- Two groups of one channel each. -/
def onePerGroup : ChannelCache where
  group2model2channels := fun group _ ↦
    if group = "a" then [1] else if group = "b" then [2] else []
  channelsIDM := fun id ↦ some { id }

def autoGroups : Service.ChannelSelect.Settings where
  autoGroups := ["a", "b"]
  usable := fun _ _ ↦ true
  retryTimes := 1

/-- The second group costs twice as much. -/
def dearerGroup : Relay.HelperPrice.Settings where
  floats := ⟨id⟩
  quotaPerUnit := 500000
  modelPrice := fun _ ↦ none
  defaultModelPrice := fun _ ↦ none
  modelRatio := fun name ↦ (1, true, name)
  groupGroupRatio := fun _ _ ↦ none
  groupRatio := fun group ↦ if group = "b" then 2 else 1
  enableFreeModelPreConsume := false
  taskPricePatches := []
  isAdmin := fun _ ↦ false

/-- Two dollars for a million prompt tokens. -/
def oneTier : ModelSettings where
  preConsumedQuota := 500
  completionRatio := fun _ ↦ 1
  cacheRatio := fun _ ↦ 1
  createCacheRatio := fun _ ↦ 1
  imageRatio := fun _ ↦ 1
  billingMode := fun _ ↦ billingModeTieredExpr
  billingExpr := fun _ ↦ some "tier(\"base\", p * 2)"
  exprHash := id
  runExprWithRequest := fun _ params _ ↦ .ok (params.p * 2, "base")

def tierBooks : Service.TextQuota.Settings where
  quotaPerUnit := 500000
  toolPriceForModel := fun _ _ ↦ 0
  toolPrice := fun _ ↦ 0
  gptImage1PriceOnceCall := fun _ _ ↦ 0
  geminiInputAudioPricePerMillionTokens := fun _ ↦ 0
  defaultModelRatio := fun _ ↦ none
  logConsumeEnabled := true
  floats := ⟨id⟩
  engine := {
    usedVars := fun _ _ ↦ false
    runExprByHashWithRequest := fun _ _ params _ ↦ .ok (params.p * 2, "base") }

def chatRequest : Pricing where
  ctx := { path := "/v1/chat/completions", body := .error "", channelType := 1, channelId := 1 }
  info := {
    userId := 1
    userGroup := "default"
    usingGroup := "auto"
    originModelName := "gpt-4o"
    priceData := { groupRatioInfo := { groupRatio := 1 } } }
  promptTokens := 1000
  tokens := {}
  requestInput := .ok {}
  preConsume := id

def chatInfo : Service.TextQuota.RelayInfo where
  userId := 1
  channelId := 1
  channelType := 1
  tokenId := 1
  originModelName := "gpt-4o"
  usingGroup := "auto"
  isStream := false
  startTime := 0
  relayFormat := .openAI
  estimatePromptTokens := 1000
  priceData := { groupRatioInfo := { groupRatio := 1 } }
  finalPreConsumedQuota := 0

def badGateway : World where
  draws := fun _ _ ↦ 0
  failure := fun _ ↦ { errorCode := "", skipRetry := false, statusCode := 502 }
  setupContext := fun _ ↦ none

def retryServerErrors : RetryRules where
  affinitySkipRetry := false
  specificChannel := false
  alwaysSkipRetryCode := fun _ ↦ false
  retryByStatusCode := fun code ↦ 500 ≤ code

def relayed (failures : List NewAPIError) : Option (Attempt × Relaying) :=
  RelayBilling.relay dearerGroup oneTier autoGroups onePerGroup retryServerErrors badGateway
    chatRequest "gpt-4o" ⟨"default", true, none, none⟩ failures

/-- A request that its first group serves is charged at that group's ratio. -/
theorem first_group_charged : ∃ attempt s, relayed [] = some (attempt, s) ∧
    ChargesServing dearerGroup oneTier autoGroups chatRequest tierBooks { tokenName := "" } chatInfo
      5 (some { promptTokens := 1000, completionTokens := 0 }) "default" attempt s := by
  have hplace : (relayed []).map (·.1.place) = some 0 := by decide +kernel
  have hfrozen : (relayed []).map (·.2.priced.tieredBillingSnapshot.map (·.groupRatio)) =
      some (some 1) := by decide +kernel
  obtain ⟨⟨attempt, s⟩, h, _⟩ := Option.map_eq_some_iff.mp hplace
  rw [h] at hplace hfrozen
  refine ⟨attempt, s, h, (@charges_serving_iff dearerGroup oneTier autoGroups onePerGroup
    retryServerErrors badGateway chatRequest tierBooks { tokenName := "" } chatInfo 5 _ "gpt-4o"
    ⟨"default", true, none, none⟩ [] attempt s h).mpr ?_⟩
  intro group priced reported snap hgroup _ _ hsnap
  have hfirst : attempt.place = 0 := Option.some.inj hplace
  rw [hfirst] at hgroup
  cases hgroup
  have hratio : snap.groupRatio = 1 := by simpa [hsnap] using hfrozen
  simp only [SameTierPrice, hratio]
  split
  · rename_i hrun
    cases hrun
  · split_ifs <;> rfl

/-- A request whose first group fails twice is served by the second and charged at the ratio of
the first. -/
theorem second_group_not_charged : ¬∀ (settings : Relay.HelperPrice.Settings)
    (models : ModelSettings) (select : Service.ChannelSelect.Settings) (cache : ChannelCache)
    (rules : RetryRules) (world : World) (pricing : Pricing)
    (books : Service.TextQuota.Settings) (textCtx : Service.TextQuota.Context)
    (base : Service.TextQuota.RelayInfo) (now : ℤ) (usage : Option Usage) (modelName : String)
    (ctx : Service.ChannelSelect.Context) (failures : List NewAPIError) (attempt : Attempt)
    (s : Relaying),
    RelayBilling.relay settings models select cache rules world pricing modelName ctx failures =
      some (attempt, s) →
    ChargesServing settings models select pricing books textCtx base now usage ctx.userGroup
      attempt s := by
  intro hclaim
  have hplace : (relayed [badGateway.failure 0, badGateway.failure 1]).map (·.1.place) =
      some 1 := by decide +kernel
  obtain ⟨⟨attempt, s⟩, h, _⟩ := Option.map_eq_some_iff.mp hplace
  have hcharged := hclaim dearerGroup oneTier autoGroups onePerGroup retryServerErrors badGateway
    chatRequest tierBooks { tokenName := "" } chatInfo 5
    (some { promptTokens := 1000, completionTokens := 0 }) "gpt-4o" ⟨"default", true, none, none⟩
    _ attempt s h
  have hsettled : (relayed [badGateway.failure 0, badGateway.failure 1]).map
      (fun served ↦ charged tierBooks { tokenName := "" } 5
        (some { promptTokens := 1000, completionTokens := 0 }) (settleInfo chatInfo served.2)) =
      some 1000 := by decide +kernel
  have hserving : (relayed [badGateway.failure 0, badGateway.failure 1]).bind (fun served ↦
      (priceFor dearerGroup oneTier chatRequest (some "b")).toOption.map fun priced ↦
        charged tierBooks { tokenName := "" } 5
          (some { promptTokens := 1000, completionTokens := 0 }) (settleInfo chatInfo
            { served.2 with
              priced, finalPreConsumedQuota := preConsumed chatRequest priced })) =
      some 2000 := by decide +kernel
  obtain ⟨group, priced, hgroup, hpriced, heq⟩ := hcharged
  rw [h] at hplace hsettled hserving
  have hsecond : attempt.place = 1 := Option.some.inj hplace
  rw [hsecond] at hgroup
  cases hgroup
  rw [Option.bind_some, hpriced] at hserving
  rw [Option.map_some, heq] at hsettled
  have hdiffer := hsettled.symm.trans hserving
  simp at hdiffer

end Examples

end AllAiTools.NewApi.Controller.ServingGroup
