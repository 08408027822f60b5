import AllAiTools.NewApi.Relay.RelayTask

namespace AllAiTools.NewApi.Relay.SoraAdaptor

open Foundation Common.Str Types.Price HelperPrice RelayTask

variable (env : Env)

def validateRemixRequest (ctx : Context) : Except TaskError Context :=
  match ctx.body with
  | .error e => .error (taskErrorWrapperLocal env e "invalid_request" 400)
  | .ok req =>
    if trimSpace req.prompt = "" then
      .error (taskErrorWrapperLocal env "field prompt is required" "invalid_request" 400)
    else .ok { ctx with taskRequest := some req }

def createTaskError (err code : String) : TaskError :=
  { code, message := err, statusCode := 400, localError := true }

/-- The sizes of a model, none where any will do. -/
def soraSizes (model : String) : Option (List String) :=
  if model = "sora-2" then some ["720x1280", "1280x720"]
  else if model = "sora-2-pro" then some ["720x1280", "1280x720", "1792x1024", "1024x1792"]
  else none

def validateMultipartDirect (ctx : Context) (info : RelayInfo) :
    Except TaskError (Context × RelayInfo) :=
  match ctx.body with
  | .error e => .error (createTaskError e "invalid_json")
  | .ok req =>
    let req := if req.inputReference ≠ "" then { req with images := [req.inputReference] } else req
    let size := if req.size = "" then "720x1280" else req.size
    if trimSpace req.model = "" then
      .error (createTaskError "model field is required" "missing_model")
    else if trimSpace req.prompt = "" then
      .error (createTaskError "prompt is required" "invalid_request")
    else if (soraSizes req.model).any (size ∉ ·) then
      .error (createTaskError "sora-2 size is invalid" "invalid_size")
    else
      let action := if req.images = [] then "textGenerate" else "generate"
      .ok ({ ctx with taskRequest := some req }, { info with action })

def validateRequestAndSetAction (ctx : Context) (info : RelayInfo) :
    Except TaskError (Context × RelayInfo) :=
  if info.action = taskActionRemix then
    match validateRemixRequest env ctx with
    | .error e => .error e
    | .ok ctx => .ok (ctx, info)
  else validateMultipartDirect ctx info

/-- A remix is left to the ratios of its origin. -/
def estimateBilling (ctx : Context) (info : RelayInfo) : Ratios :=
  if info.action = taskActionRemix then .empty
  else match ctx.taskRequest with
    | none => .empty
    | some req =>
      let seconds := if atoi req.seconds = 0 then req.duration else atoi req.seconds
      let size := if req.size = "" then "720x1280" else req.size
      let sizeRatio : ℚ := if size = "1792x1024" ∨ size = "1024x1792" then 1.666667 else 1
      let ratios : Ratios := .empty
      (ratios.put ("seconds", if seconds ≤ 0 then 4 else seconds)).put ("size", sizeRatio)

end AllAiTools.NewApi.Relay.SoraAdaptor

namespace AllAiTools.NewApi.Relay.RemixRatios

open Foundation Types.Price HelperPrice RelayTask

section Ratios

theorem addOtherRatio_quota (p : PriceData) (key : String) (ratio : ℚ) :
    (p.addOtherRatio key ratio).quota = p.quota := by
  unfold PriceData.addOtherRatio
  split_ifs <;> rfl

theorem addOtherRatios_quota (p : PriceData) (ratios : List (String × ℚ)) :
    (addOtherRatios p ratios).quota = p.quota := by
  induction ratios generalizing p with
  | nil => rfl
  | cons ratio ratios ih => exact (ih _).trans (addOtherRatio_quota p ratio.1 ratio.2)

theorem addOtherRatio_rows {p : PriceData} {key : String} (ratio : ℚ)
    (h : key ∉ p.otherRatios.rows.map Prod.fst) :
    (p.addOtherRatio key ratio).otherRatios.rows =
      if 0 < ratio then (key, ratio) :: p.otherRatios.rows else p.otherRatios.rows := by
  by_cases hratio : ratio ≤ 0
  · rw [PriceData.addOtherRatio, if_pos hratio, if_neg (not_lt.mpr hratio)]
  · rw [PriceData.addOtherRatio, if_neg hratio, if_pos (not_le.mp hratio)]
    exact Table.put_rows h

/-- New ratios come in beside the old ones, those that are not positive left out. -/
theorem addOtherRatios_rows {p : PriceData} {ratios : List (String × ℚ)}
    (h : (ratios.map Prod.fst ++ p.otherRatios.rows.map Prod.fst).Nodup) :
    (addOtherRatios p ratios).otherRatios.rows.Perm
      (ratios.filter (0 < ·.2) ++ p.otherRatios.rows) := by
  induction ratios generalizing p with
  | nil => rfl
  | cons ratio ratios ih =>
    rw [List.map_cons, List.cons_append, List.nodup_cons, List.mem_append, not_or] at h
    obtain ⟨⟨hratios, hrows⟩, hnodup⟩ := h
    have hput := addOtherRatio_rows ratio.2 hrows
    by_cases hpos : 0 < ratio.2
    · rw [if_pos hpos] at hput
      have hnext : (ratios.map Prod.fst ++
          (p.addOtherRatio ratio.1 ratio.2).otherRatios.rows.map Prod.fst).Nodup := by
        rw [hput, List.map_cons]
        refine List.nodup_middle.mpr (List.nodup_cons.mpr ⟨?_, hnodup⟩)
        simp [hratios, hrows]
      have hperm := ih hnext
      rw [hput] at hperm
      rw [List.filter_cons_of_pos (by simpa using hpos), List.cons_append]
      exact hperm.trans List.perm_middle
    · rw [if_neg hpos] at hput
      have hnext : (ratios.map Prod.fst ++
          (p.addOtherRatio ratio.1 ratio.2).otherRatios.rows.map Prod.fst).Nodup := by
        rw [hput]
        exact hnodup
      have hperm := ih hnext
      rw [hput] at hperm
      rw [List.filter_cons_of_neg (by simpa using hpos)]
      exact hperm

end Ratios

section Submission

variable (env : Env) (order : MapOrder (String × ℚ))

/-- The base price of a request comes without other ratios, whatever the price data had before. -/
theorem modelPriceHelperPerCall_ratios {settings : Settings} {ctx : Context} {info info' : RelayInfo}
    {priceData : PriceData}
    (h : modelPriceHelperPerCall settings ctx info = .ok (priceData, info')) :
    priceData.otherRatios.rows = [] := by
  simp only [modelPriceHelperPerCall] at h
  split at h
  · cases h
    rfl
  · split at h
    · cases h
      rfl
    · split_ifs at h
      cases h
      rfl

theorem priceModel_ratios {platform : String} {ctx : Context} {info info' : RelayInfo}
    (h : priceModel env platform ctx info = .ok info') :
    info'.priceData.otherRatios.rows = [] := by
  simp only [priceModel] at h
  split at h
  · cases h
  · split at h
    · cases h
    · rename_i hprice
      cases h
      exact modelPriceHelperPerCall_ratios hprice

theorem prepare_ratios {ctx : Context} {info : RelayInfo} {p : Prepared}
    (h : prepare env ctx info = .ok p) : p.info.priceData.otherRatios.rows = [] := by
  simp only [prepare] at h
  split at h
  · cases h
  · split at h
    · cases h
    · split at h
      · cases h
      · rename_i hmodel
        cases h
        exact priceModel_ratios env hmodel

theorem estimate_rows {p : Prepared} (h : p.info.priceData.otherRatios.rows = []) :
    (estimate env order p).priceData.otherRatios.rows.Perm (p.estimated.rows.filter (0 < ·.2)) := by
  have hnodup : (p.estimated.rows.map Prod.fst ++
      p.info.priceData.otherRatios.rows.map Prod.fst).Nodup := by
    rw [h, List.map_nil, List.append_nil]
    exact p.estimated.nodup
  have hperm := addOtherRatios_rows hnodup
  rw [h, List.append_nil] at hperm
  exact hperm

/-- No adaptor adjusts the price data after the upstream's answer. -/
theorem callUpstream_priceData (p : Prepared) (info : RelayInfo) :
    (callUpstream env order p info).2.priceData = info.priceData := by
  simp only [callUpstream, adjustBillingOnSubmit, Table.empty, if_true]
  split
  · rfl
  · split
    · rfl
    · split_ifs
      · rfl
      · split <;> rfl

theorem submit_priceData {ctx : Context} {info : RelayInfo} {p : Prepared}
    (h : prepare env ctx info = .ok p) :
    (relayTaskSubmit env order ctx info).priceData = (estimate env order p).priceData := by
  simp only [relayTaskSubmit, h]
  split_ifs
  · exact callUpstream_priceData env order p _
  · split
    · rfl
    · exact callUpstream_priceData env order p _

theorem submit_preConsumed {ctx : Context} {info : RelayInfo} {p : Prepared}
    (h : prepare env ctx info = .ok p) {quota : ℤ}
    (hpre : (relayTaskSubmit env order ctx info).preConsumed = some quota) :
    quota = (estimate env order p).priceData.quota := by
  simp only [relayTaskSubmit, h] at hpre
  split_ifs at hpre
  split at hpre
  · exact (Option.some.inj hpre).symm
  · exact (Option.some.inj hpre).symm

end Submission

section Claim

/-- The price data a submission leaves has the ratios of the origin and of the adaptor, and the
amount pre-consumed is the base price times its ratios. -/
structure Carried (floats : Rounding.Floats) (origin estimated : Ratios) (base : ℤ)
    (submission : Submission) : Prop where
  origin : ∀ ratio ∈ origin.rows, ratio.2 ≠ 1 → ratio ∈ submission.priceData.otherRatios.rows
  estimated : ∀ ratio ∈ estimated.rows, 0 < ratio.2 →
    ratio ∈ submission.priceData.otherRatios.rows
  quota : ∃ ratios, ratios.Perm submission.priceData.otherRatios.rows ∧
    submission.preConsumed = some (applyOtherRatios floats ratios base)

/-- The adaptor has an estimate of its own for every ratio of the origin, the same one, and a
model whose price is taken as it is costs the same with the ratios. -/
def EstimatesAgain (settings : Settings) (origin : Ratios) (p : Prepared) : Prop :=
  (∀ ratio ∈ origin.rows, ratio.2 ≠ 1 → 0 < ratio.2 ∧ ratio ∈ p.estimated.rows) ∧
    (p.info.originModelName ∈ settings.taskPricePatches →
      ∃ ratios, ratios.Perm (p.estimated.rows.filter (0 < ·.2)) ∧
        applyOtherRatios settings.floats ratios p.info.priceData.quota = p.info.priceData.quota)

variable {env : Env} {order : MapOrder (String × ℚ)} {ctx : Context} {info : RelayInfo}
  {p : Prepared} {quota : ℤ}

theorem mem_submitted (hprep : prepare env ctx info = .ok p) (ratio : String × ℚ) :
    ratio ∈ (relayTaskSubmit env order ctx info).priceData.otherRatios.rows ↔
      0 < ratio.2 ∧ ratio ∈ p.estimated.rows := by
  have hperm := estimate_rows env order (prepare_ratios env hprep)
  rw [submit_priceData env order hprep, hperm.mem_iff, List.mem_filter, decide_eq_true_iff,
    and_comm]

theorem estimate_quota (p : Prepared) : (estimate env order p).priceData.quota =
    if p.info.originModelName ∈ env.settings.taskPricePatches then p.info.priceData.quota
    else applyOtherRatios env.settings.floats
      (order.visit (addOtherRatios p.info.priceData p.estimated.rows).otherRatios.rows)
      p.info.priceData.quota := by
  rw [estimate]
  simp only [addOtherRatios_quota]

/-- The amount is the price times the ratios, but for a model whose price is taken as it is. -/
theorem quota_iff (hprep : prepare env ctx info = .ok p)
    (hpre : (relayTaskSubmit env order ctx info).preConsumed = some quota) :
    (∃ ratios, ratios.Perm (relayTaskSubmit env order ctx info).priceData.otherRatios.rows ∧
      (relayTaskSubmit env order ctx info).preConsumed =
        some (applyOtherRatios env.settings.floats ratios p.info.priceData.quota)) ↔
    (p.info.originModelName ∈ env.settings.taskPricePatches →
      ∃ ratios, ratios.Perm (p.estimated.rows.filter (0 < ·.2)) ∧
        applyOtherRatios env.settings.floats ratios p.info.priceData.quota =
          p.info.priceData.quota) := by
  have hquota := submit_preConsumed env order hprep hpre
  have hperm := estimate_rows env order (prepare_ratios env hprep)
  rw [estimate_quota] at hquota
  rw [hpre, submit_priceData env order hprep]
  by_cases hpatch : p.info.originModelName ∈ env.settings.taskPricePatches
  · rw [if_pos hpatch] at hquota
    subst hquota
    simp only [hpatch, true_imp_iff, Option.some.injEq]
    constructor
    · rintro ⟨ratios, hratios, heq⟩
      exact ⟨ratios, hratios.trans hperm, heq.symm⟩
    · rintro ⟨ratios, hratios, heq⟩
      exact ⟨ratios, hratios.trans hperm.symm, heq.symm⟩
  · rw [if_neg hpatch] at hquota
    refine iff_of_true ⟨_, order.perm _, congrArg some hquota⟩ fun h ↦ absurd h hpatch

end Claim

section Sora

/-- The adaptor for Sora, with an upstream that takes every request. -/
def soraAdaptor (env : Env) : TaskAdaptor where
  validateRequestAndSetAction := SoraAdaptor.validateRequestAndSetAction env
  estimateBilling := SoraAdaptor.estimateBilling
  buildRequestBody _ _ := .ok ""
  doRequest _ _ _ := .ok (200, "")
  doResponse _ _ _ := .ok ("video_2", "")

def priceSettings : Settings where
  floats := ⟨fun x ↦ x⟩
  quotaPerUnit := 500000
  modelPrice _ := some 1
  defaultModelPrice _ := none
  modelRatio name := (0, false, name)
  groupGroupRatio _ _ := none
  groupRatio _ := 1
  enableFreeModelPreConsume := true
  taskPricePatches := []
  isAdmin _ := false

def withoutAdaptor (ratios : Ratios) : Env where
  settings := priceSettings
  maskSensitiveInfo e := e
  getByTaskId _ _ := .ok (some
    { channelId := 7, originModelName := "sora-2", billingContext := some ratios })
  getChannelById _ := .ok { id := 7, type := 55 }
  getNextEnabledKey _ := .ok "sk"
  generateTaskID := "task_1"
  getTaskAdaptor _ := none
  preConsumeBilling _ _ := .ok ()

/-- An origin task on Sora that was charged for a number of seconds. -/
def soraEnv (seconds : ℚ) : Env :=
  { withoutAdaptor (.single ("seconds", seconds)) with
    getTaskAdaptor := fun _ ↦ some (soraAdaptor (withoutAdaptor (.single ("seconds", seconds)))) }

def remixContext : Context where
  path := "/v1/videos/video_1/remix"
  videoId := "video_1"
  body := .ok { prompt := "again" }
  channelType := 55
  channelId := 7

def remixInfo : RelayInfo where
  userId := 1
  userGroup := "default"
  usingGroup := "default"
  originModelName := ""
  channelType := 55
  channelId := 7
  priceData := { groupRatioInfo := { groupRatio := 1 } }

def resolvedRemix (seconds : ℚ) : RelayInfo :=
  { remixInfo with
    originModelName := "sora-2"
    action := taskActionRemix
    originTaskID := "video_1"
    lockedChannel := some { id := 7, type := 55 }
    priceData := { remixInfo.priceData with otherRatios := .single ("seconds", seconds) } }

def preparedRemix (seconds : ℚ) : Prepared where
  adaptor := soraAdaptor (withoutAdaptor (.single ("seconds", seconds)))
  platform := "55"
  ctx := { remixContext with taskRequest := some { prompt := "again" } }
  info := { resolvedRemix seconds with
    publicTaskID := "task_1"
    upstreamModelName := "sora-2"
    priceData := priceByCall priceSettings { groupRatio := 1 } 1 }

def asListed : MapOrder (String × ℚ) := .asListed

end Sora

end AllAiTools.NewApi.Relay.RemixRatios
