import AllAiTools.Foundation.ReadCommitted
import AllAiTools.NewApi.Service.Quota

namespace AllAiTools.NewApi.Model.MidjourneyTask

open Foundation.CompareAndSet

structure Midjourney where
  code : ℤ
  action : String
  mjId : String
  prompt : String
  promptEn : String := ""
  description : String
  state : String := ""
  submitTime : ℤ
  startTime : ℤ := 0
  finishTime : ℤ := 0
  imageUrl : String := ""
  videoUrl : String := ""
  videoUrls : String := ""
  status : String := ""
  progress : String := "0%"
  failReason : String := ""
  channelId : ℤ
  quota : ℤ
  buttons : String := ""
  properties : String := ""
  deriving DecidableEq

/-- The filter of `GetAllUnFinishTasks`. -/
def Midjourney.unfinished (t : Midjourney) : Bool := t.progress ≠ "100%"

/-- `Save`. -/
def Midjourney.update (t : Midjourney) (failed : Bool) (row : Midjourney) :
    Except Unit Unit × Midjourney :=
  save t failed row

def Midjourney.updateWithStatus (t : Midjourney) (fromStatus : String) (failed : Bool)
    (row : Midjourney) : Except Unit Bool × Midjourney :=
  compareAndSet Midjourney.status t fromStatus failed row

/-- `MjBulkUpdate` and `MjBulkUpdateByTaskIds` on one of their rows. -/
def mjBulkUpdate (failReason : Option String) (failed : Bool) (row : Midjourney) : Midjourney :=
  if failed then row
  else
    { row with
      status := "FAILURE"
      progress := "100%"
      failReason := failReason.getD row.failReason }

/-- No update changes what the row was charged for. -/
theorem mjBulkUpdate_quota (failReason : Option String) (failed : Bool) (row : Midjourney) :
    (mjBulkUpdate failReason failed row).quota = row.quota := by
  unfold mjBulkUpdate
  split_ifs <;> rfl

end AllAiTools.NewApi.Model.MidjourneyTask

namespace AllAiTools.NewApi.Relay.MjproxyHandler

open Model.MidjourneyTask Service.Funding Service.Session Service.Quota

inductive RelayMode
  | imagine | describe | edits | shorten | blend | upload
  | change | simpleChange | modal | video | action
  deriving DecidableEq, Repr

structure MjError where
  code : ℤ
  description : String
  deriving DecidableEq

/-- `MidjourneyErrorWrapper` of a request error. -/
def requestError (description : String) : MjError := ⟨4, description⟩

/-- A submitted request; `plusAction` and `simpleChange` are what its custom id and its
content parse to. -/
structure MidjourneyRequest where
  mode : RelayMode
  prompt : String := ""
  taskId : String := ""
  action : String := ""
  index : ℤ := 0
  content : String := ""
  plusAction : Except MjError (String × ℤ) := .error (requestError "custom_id_is_required")
  simpleChange : Option (String × String) := none

/-- What the relay looks up for a request: the user's tasks, and whether a channel is
there and enabled. -/
structure Lookups where
  actionCheckSuccess : Bool
  task : String → Option Midjourney
  channel : ℤ → Option Bool

/-- The task an action is applied to, in a state that allows it. -/
def originTask (db : Lookups) (mode : RelayMode) (mjId : String) : Except MjError Midjourney :=
  match db.task mjId with
  | none => .error (requestError "task_not_found")
  | some t =>
    if db.actionCheckSuccess && t.status ≠ "SUCCESS" && mode ≠ .modal then
      .error (requestError "task_status_not_success")
    else match db.channel t.channelId with
      | none => .error (requestError "get_channel_info_failed")
      | some false => .error (requestError "该任务所属渠道已被禁用")
      | some true => .ok t

/-- The id of the origin task and the action of a request that names a task. -/
def actionOn (r : MidjourneyRequest) : RelayMode → Except MjError (String × String)
  | .change =>
    if r.action = "" then .error (requestError "action_is_required")
    else if r.index = 0 then .error (requestError "index_is_required")
    else .ok (r.taskId, r.action)
  | .simpleChange =>
    if r.content = "" then .error (requestError "content_is_required")
    else match r.simpleChange with
      | none => .error (requestError "content_parse_failed")
      | some params => .ok params
  | .modal => .ok (r.taskId, "MODAL")
  | .video => .ok (r.taskId, "VIDEO")
  | _ => .ok ("", r.action)

/-- The action, the prompt and the channel a request comes to. -/
def prepare (db : Lookups) (channelId : ℤ) (r : MidjourneyRequest) :
    Except MjError (String × String × ℤ) := do
  let r ← match r.mode with
    | .action => r.plusAction.map fun (action, index) ↦ { r with mode := .change, action, index }
    | .video => .ok { r with action := "VIDEO" }
    | _ => .ok r
  match r.mode with
  | .imagine =>
    if r.prompt = "" then .error (requestError "prompt_is_required")
    else .ok ("IMAGINE", r.prompt, channelId)
  | .describe => .ok ("DESCRIBE", r.prompt, channelId)
  | .edits => .ok ("EDITS", r.prompt, channelId)
  | .shorten => .ok ("SHORTEN", r.prompt, channelId)
  | .blend => .ok ("BLEND", r.prompt, channelId)
  | .upload => .ok ("UPLOAD", r.prompt, channelId)
  | mode =>
    if r.taskId = "" then .ok (r.action, r.prompt, channelId)
    else do
      let (mjId, action) ← actionOn r mode
      let origin ← originTask db mode mjId
      .ok (action, origin.prompt, origin.channelId)

/-- The answer of the upstream; the image and the status are the texts its properties
hold under these names. -/
structure MidjourneyResponse where
  code : ℤ
  description : String := ""
  result : String := ""
  imageUrl : Option String := none
  status : Option String := none

/-- What a submission meets after its request has been accepted. -/
structure SubmitContext where
  price : Except MjError ℤ
  userQuota : Except MjError ℤ
  upstream : Except MjError (ℤ × MidjourneyResponse)
  channelFound : Bool
  now : ℤ
  insertFails : Bool
  isPlayground : Bool
  faults : ConsumeFaults

inductive Outcome
  | refused (e : MjError)
  | panicked
  | answered
  deriving DecidableEq

/-- `GenRelayInfo` for a Midjourney request: no billing source is chosen. -/
def genRelayInfo (isPlayground : Bool) : RelayInfo where
  userId := 0
  requestId := ""
  billingPreference := ""
  isPlayground := isPlayground
  tokenUnlimited := false
  forcePreConsume := false
  userQuota := 0

/-- Submitted, already there, or queued: the other codes are errors. -/
def MidjourneyResponse.accepted (response : MidjourneyResponse) : Bool :=
  response.code = 1 || response.code = 21 || response.code = 22

def freeAction (action : String) : Bool := action = "INPAINT" || action = "CUSTOM_ZOOM"

/-- The image and the status of a task that is already there. -/
def MidjourneyResponse.existing (response : MidjourneyResponse) : Option (String × String) :=
  if response.code = 21 then
    match response.imageUrl, response.status with
    | some imageUrl, some status => some (imageUrl, status)
    | _, _ => none
  else none

/-- A task that is there and has succeeded turns the code of the answer into 1. -/
def MidjourneyResponse.succeeded (response : MidjourneyResponse) : Bool :=
  response.existing.any fun found ↦ found.2 = "SUCCESS"

def MidjourneyResponse.uploaded (response : MidjourneyResponse) (action : String) : Bool :=
  (response.code = 1 || response.succeeded) && action = "UPLOAD"

/-- The row that is inserted for an answer. -/
def submittedTask (action prompt : String) (channelId quota now : ℤ)
    (response : MidjourneyResponse) : Midjourney where
  code := response.code
  action := action
  mjId := response.result
  prompt := prompt
  description := response.description
  submitTime := now
  startTime := if response.succeeded then now else 0
  finishTime := if response.succeeded then now else 0
  imageUrl := (response.existing.map (·.1)).getD ""
  status := if response.uploaded action then "SUCCESS" else (response.existing.map (·.2)).getD ""
  progress := if response.succeeded || response.uploaded action then "100%" else "0%"
  failReason := if response.accepted then "" else response.description
  channelId := channelId
  quota := quota

/-- `RelayMidjourneySubmit`: the charge is deferred, so it is made on every way out
after the upstream has answered. -/
def relayMidjourneySubmit (db : Lookups) (channelId : ℤ) (r : MidjourneyRequest)
    (c : SubmitContext) (w : World) : Outcome × Option Midjourney × World :=
  match prepare db channelId r with
  | .error e => (.refused e, none, w)
  | .ok (action, prompt, channelId) =>
    match c.price with
    | .error e => (.refused e, none, w)
    | .ok quota =>
      match c.userQuota with
      | .error e => (.refused e, none, w)
      | .ok userQuota =>
        if !freeAction action && userQuota - quota < 0 then
          (.refused (requestError "quota_not_enough"), none, w)
        else match c.upstream with
          | .error e => (.refused e, none, w)
          | .ok (statusCode, response) =>
            let deferred (consumeQuota : Bool) : World :=
              if consumeQuota && statusCode = 200 then
                (postConsumeQuota c.faults (genRelayInfo c.isPlayground) quota w).2.2
              else w
            if response.code = 3 && !c.channelFound then
              (.panicked, none, deferred (!freeAction action))
            else
              let w := deferred (!freeAction action && response.accepted)
              if c.insertFails then
                (.refused (requestError "insert_midjourney_task_failed"), none, w)
              else
                (.answered, some (submittedTask action prompt channelId quota c.now response), w)

/-- A task as an upstream reports it; its video urls, buttons and properties are left
out when it does not name them. -/
structure MidjourneyDto where
  mjId : String
  promptEn : String := ""
  state : String := ""
  submitTime : ℤ := 0
  startTime : ℤ := 0
  finishTime : ℤ := 0
  imageUrl : String := ""
  videoUrl : String := ""
  videoUrls : Option (List String) := none
  status : String := ""
  progress : String := ""
  failReason : String := ""
  buttons : Option String := none
  properties : Option String := none

/-- The row a notification saves; `marshal` encodes its video urls. -/
def MidjourneyDto.notified (marshal : Option (List String) → String) (req : MidjourneyDto)
    (t : Midjourney) : Midjourney :=
  { t with
    progress := req.progress
    promptEn := req.promptEn
    state := req.state
    submitTime := req.submitTime
    startTime := req.startTime
    finishTime := req.finishTime
    imageUrl := req.imageUrl
    videoUrl := req.videoUrl
    videoUrls := marshal req.videoUrls
    status := req.status
    failReason := req.failReason }

/-- A row that is finished when it is inserted has succeeded. -/
theorem submittedTask_finished {action prompt : String} {channelId quota now : ℤ}
    {response : MidjourneyResponse}
    (h : (submittedTask action prompt channelId quota now response).progress = "100%") :
    (submittedTask action prompt channelId quota now response).status = "SUCCESS" := by
  dsimp only [submittedTask] at h ⊢
  by_cases hu : response.uploaded action = true
  · rw [if_pos hu]
  · rw [if_neg hu]
    by_cases hs : response.succeeded = true
    · unfold MidjourneyResponse.succeeded at hs
      cases he : response.existing with
      | none => simp [he] at hs
      | some found => simpa [he] using hs
    · simp [hu, hs] at h

/-- A submission that inserts its task has charged it, or has charged nothing. -/
theorem relayMidjourneySubmit_inserted {db : Lookups} {channelId : ℤ} {r : MidjourneyRequest}
    {c : SubmitContext} {w w' : World} {outcome : Outcome} {task : Midjourney}
    (h : relayMidjourneySubmit db channelId r c w = (outcome, some task, w')) :
    ∃ action prompt channelId' quota response,
      task = submittedTask action prompt channelId' quota c.now response ∧
        (w' = w ∨ w' = (postConsumeQuota c.faults (genRelayInfo c.isPlayground) quota w).2.2) := by
  unfold relayMidjourneySubmit at h
  split at h
  · cases h
  · rename_i action prompt channelId' hprepare
    split at h
    · cases h
    · rename_i quota hprice
      split at h
      · cases h
      · split at h
        · cases h
        · split at h
          · cases h
          · rename_i statusCode response hupstream
            dsimp only at h
            split at h
            · cases h
            · split at h
              · cases h
              · obtain ⟨-, htask, hworld⟩ := by simpa only [Prod.mk.injEq] using h
                refine ⟨action, prompt, channelId', quota, response,
                  (Option.some.inj htask).symm, ?_⟩
                rw [← hworld]
                split_ifs
                · exact .inr rfl
                · exact .inl rfl

/-- The user pays the quota the task stores, or nothing, and a task that is finished
at once has succeeded. -/
theorem relayMidjourneySubmit_charge {db : Lookups} {channelId : ℤ} {r : MidjourneyRequest}
    {c : SubmitContext} {w w' : World} {outcome : Outcome} {task : Midjourney}
    (h : relayMidjourneySubmit db channelId r c w = (outcome, some task, w')) :
    (task.progress = "100%" → task.status = "SUCCESS") ∧
      (w'.userQuota = w.userQuota ∨ w'.userQuota = w.userQuota - task.quota) := by
  obtain ⟨action, prompt, channelId', quota, response, rfl, hw⟩ := relayMidjourneySubmit_inserted h
  refine ⟨submittedTask_finished, ?_⟩
  rcases hw with rfl | rfl
  · exact .inl rfl
  · exact postConsumeQuota_wallet (by intro hs; cases hs) c.faults quota w

end AllAiTools.NewApi.Relay.MjproxyHandler
