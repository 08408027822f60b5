import AllAiTools.Foundation.Compensation
import AllAiTools.NewApi.Service.TaskBilling

namespace AllAiTools.NewApi.Service.TaskPolling

open Foundation Foundation.Run Model.AsyncTask Funding TaskBilling

/-- What the server's settings answer, and the JSON encoder. -/
structure Env where
  serverAddress : String
  taskTimeoutMinutes : ℤ
  marshal : String → String

def Env.buildProxyURL (env : Env) (taskID : String) : String :=
  env.serverAddress ++ "/v1/videos/" ++ taskID ++ "/content"

def legacyTaskCutoff : ℤ := 1740182400

def isLegacy (t : Task) : Bool := 0 < t.submitTime && t.submitTime < legacyTaskCutoff

def sweptTask (env : Env) (now : ℤ) (t : Task) : Task :=
  { t with
    status := taskStatusFailure
    progress := "100%"
    finishTime := now
    failReason :=
      if isLegacy t then "任务超时（旧系统遗留任务，不进行退款，请联系管理员）"
      else "任务超时（" ++ toString env.taskTimeoutMinutes ++ "分钟）" }

structure SunoDataResponse where
  status : TaskStatus
  failReason : String
  submitTime : ℤ
  startTime : ℤ
  finishTime : ℤ
  data : String

/-- The data differ when their sorted bytes do. -/
def taskNeedsUpdate (env : Env) (oldTask : Task) (newTask : SunoDataResponse) : Bool :=
  oldTask.submitTime ≠ newTask.submitTime ||
  oldTask.startTime ≠ newTask.startTime ||
  oldTask.finishTime ≠ newTask.finishTime ||
  oldTask.status ≠ newTask.status ||
  oldTask.failReason ≠ newTask.failReason ||
  ((oldTask.status = taskStatusFailure || oldTask.status = taskStatusSuccess) &&
    oldTask.progress ≠ "100%") ||
  !(env.marshal oldTask.data).toUTF8.toList.isPerm (env.marshal newTask.data).toUTF8.toList

/-- The copy as it is when the item is tested for failure. -/
def SunoDataResponse.fill (item : SunoDataResponse) (t : Task) : Task :=
  { t with
    status := if item.status ≠ "" then item.status else t.status
    failReason := if item.failReason ≠ "" then item.failReason else t.failReason
    submitTime := if item.submitTime ≠ 0 then item.submitTime else t.submitTime
    startTime := if item.startTime ≠ 0 then item.startTime else t.startTime
    finishTime := if item.finishTime ≠ 0 then item.finishTime else t.finishTime }

def SunoDataResponse.fails (item : SunoDataResponse) (t : Task) : Bool :=
  item.failReason ≠ "" || (item.fill t).status = taskStatusFailure

/-- The copy as it is saved. -/
def SunoDataResponse.apply (item : SunoDataResponse) (t : Task) : Task :=
  { item.fill t with
    progress := if item.fails t || item.status = taskStatusSuccess then "100%" else t.progress
    data := item.data }

structure TaskInfo where
  status : TaskStatus
  reason : String := ""
  url : String := ""
  progress : String := ""
  totalTokens : ℤ := 0

def failTaskInfo (reason : String) : TaskInfo := { status := taskStatusFailure, reason }

/-- How a body reads as an error when it gives no status. -/
inductive ErrorBody
  | notJson | unrecognized | openAI (code : String)

/-- A fetched body: what is kept of it, the adaptor's reading, and its reading as an error. -/
structure Answer where
  data : String
  taskResult : TaskInfo
  errorBody : ErrorBody := .notJson

/-- Nothing when the upstream asks to wait. -/
def Answer.result (a : Answer) : Option TaskInfo :=
  if a.taskResult.status = "" then
    match a.errorBody with
    | .notJson => some a.taskResult
    | .unrecognized => some (failTaskInfo "upstream returned unrecognized message")
    | .openAI code => if code = "429" then none else some (failTaskInfo "upstream returned error")
  else some a.taskResult

def isDataURI (url : String) : Bool := "data:".toList.isPrefixOf url.toList

def TaskInfo.resultURL (info : TaskInfo) (env : Env) (t : Task) : String :=
  if isDataURI info.url then env.buildProxyURL t.taskID
  else if info.url ≠ "" then info.url
  else env.buildProxyURL t.taskID

/-- The copy after the answer's status, or nothing for a status it does not know. -/
def TaskInfo.apply (info : TaskInfo) (env : Env) (now : ℤ) (t : Task) : Option Task :=
  let advance (progress : String) (t : Task) : Task :=
    { t with
      status := info.status
      progress := if info.progress ≠ "" then info.progress else progress }
  if info.status = taskStatusSubmitted then some (advance "10%" t)
  else if info.status = taskStatusQueued then some (advance "20%" t)
  else if info.status = taskStatusInProgress then
    some (advance "30%" { t with startTime := if t.startTime = 0 then now else t.startTime })
  else if info.status = taskStatusSuccess then
    some (advance "100%"
      { t with
        finishTime := if t.finishTime = 0 then now else t.finishTime
        privateData := { t.privateData with resultURL := info.resultURL env t } })
  else if info.status = taskStatusFailure then
    some { t with
      status := taskStatusFailure
      progress := "100%"
      finishTime := if t.finishTime = 0 then now else t.finishTime
      failReason := info.reason }
  else none

/-- The copy after a realtime answer. -/
def TaskInfo.fetched (info : TaskInfo) (env : Env) (t : Task) : Task :=
  let status := if info.status ≠ "" then info.status else t.status
  { t with
    status
    progress := if info.progress ≠ "" then info.progress else t.progress
    privateData :=
      { t.privateData with
        resultURL :=
          if isDataURI info.url then t.privateData.resultURL
          else if info.url ≠ "" then info.url
          else if status = taskStatusSuccess then env.buildProxyURL t.taskID
          else t.privateData.resultURL } }

/-- Why tasks are failed in bulk, without a look at their rows. -/
inductive BulkCause
  | nullTaskID
  | sunoChannel (channelId : ℤ)
  | videoChannel (channelId : ℤ)

def BulkCause.failReason : BulkCause → Option String
  | .nullTaskID => none
  | .sunoChannel channelId =>
    some ("获取渠道信息失败，请联系管理员，渠道ID：" ++ toString channelId)
  | .videoChannel channelId =>
    some ("Failed to get channel info, channel ID: " ++ toString channelId)

def BulkCause.applies (t : Task) : BulkCause → Bool
  | .nullTaskID => t.getUpstreamTaskID = ""
  | _ => t.getUpstreamTaskID ≠ ""

/-- Where a process is: the copy of the task it holds and the statement it is about
to run on it. -/
inductive Phase
  | idle
  | polling (t : Task)
  | sweeping (t : Task)
  | fetching (t : Task)
  | settling (t : Task) (totalTokens : ℤ)
  | refunding (t : Task) (poller : Bool)
  | saving (t : Task) (refunded : Bool)

/-- Between two steps a process may load another copy. -/
def Phase.free : Phase → Bool
  | .idle | .polling _ | .sweeping _ | .fetching _ => true
  | _ => false

/-- What a poller does once its update has gone through. -/
def billing (t : Task) (totalTokens : ℤ) : Phase :=
  if t.status = taskStatusSuccess then .settling t totalTokens
  else if t.status = taskStatusFailure ∧ t.quota ≠ 0 then .refunding t true
  else .polling t

/-- The task's row, the money of its user, the refunds paid so far and where each
process is. -/
structure System where
  row : Task
  world : World
  refunds : List ℤ
  phase : ℕ → Phase

namespace System

def start (row : Task) (world : World) : System := ⟨row, world, [], fun _ ↦ .idle⟩

def enter (s : System) (p : ℕ) (ph : Phase) : System :=
  { s with phase := Function.update s.phase p ph }

/-- `RefundTaskQuota`: the refund is counted when it gets as far as its log. -/
def refund (s : System) (f : BillingFaults) (t : Task) : System :=
  let answer := refundTaskQuota f t s.world
  { s with
    world := answer.2
    refunds := if answer.1 then t.quota :: s.refunds else s.refunds }

/-- One task of `sweepTimedOutTasks`. -/
def sweep (env : Env) (s : System) (p : ℕ) (now : ℤ) (failed : Bool) (t : Task) : System :=
  let t' := sweptTask env now t
  match t'.updateWithStatus t.status failed s.row with
  | (.ok true, row) =>
    { s with row }.enter p
      (if isLegacy t = false ∧ t.quota ≠ 0 then .refunding t' false else .idle)
  | (_, row) => { s with row }.enter p .idle

/-- One item of `updateSunoTasks`, up to its save. -/
def sunoItem (env : Env) (s : System) (p : ℕ) (item : SunoDataResponse) (f : BillingFaults)
    (t : Task) : System :=
  if !taskNeedsUpdate env t item then s
  else if item.fails t then
    (s.refund f (item.fill t)).enter p
      (.saving (item.apply t) (refundTaskQuota f (item.fill t) s.world).1)
  else s.enter p (.saving (item.apply t) false)

/-- `updateVideoSingleTask`, up to its billing. -/
def video (env : Env) (s : System) (p : ℕ) (answer : Option Answer) (now : ℤ) (failed : Bool)
    (t : Task) : System :=
  match answer with
  | none => s
  | some a =>
    let t₁ := { t with data := a.data }
    match a.result with
    | none => s.enter p (.polling t₁)
    | some info =>
      match info.apply env now t₁ with
      | none => s.enter p (.polling { t₁ with status := info.status })
      | some t' =>
        if (t'.status = taskStatusSuccess ∨ t'.status = taskStatusFailure) ∧
            t.status ≠ t'.status then
          match t'.updateWithStatus t.status failed s.row with
          | (.ok true, row) => { s with row }.enter p (billing t' info.totalTokens)
          | (_, row) => { s with row }.enter p (.polling t')
        else if t.snapshot ≠ t'.snapshot then
          { s with row := (t'.updateWithStatus t.status failed s.row).2 }.enter p
            (billing t' info.totalTokens)
        else s.enter p (billing t' info.totalTokens)

/-- `tryRealtimeFetch` from its answer on. -/
def realtime (env : Env) (s : System) (p : ℕ) (answer : Option TaskInfo) (failed : Bool)
    (t : Task) : System :=
  match answer with
  | none => s.enter p .idle
  | some info =>
    let t' := info.fetched env t
    if t.snapshot ≠ t'.snapshot then
      { s with row := (t'.updateWithStatus t.status failed s.row).2 }.enter p .idle
    else s.enter p .idle

end System

/-- The statements of the processes, with what each meets from outside. -/
inductive Event
  | load (p : ℕ)
  | loadTimedOut (p : ℕ) (now : ℤ)
  | loadFetch (p : ℕ)
  | sweep (p : ℕ) (now : ℤ) (failed : Bool)
  | sunoItem (p : ℕ) (item : SunoDataResponse) (f : BillingFaults)
  | sunoSave (p : ℕ) (failed : Bool)
  | video (p : ℕ) (answer : Option Answer) (now : ℤ) (failed : Bool)
  | settle (p : ℕ) (f : BillingFaults) (bill : CompletionBill)
  | refund (p : ℕ) (f : BillingFaults)
  | realtime (p : ℕ) (answer : Option TaskInfo) (failed : Bool)
  | bulkFail (p : ℕ) (cause : BulkCause) (failed : Bool)

/-- An event of a process that is not where the event starts from does nothing. -/
def step (env : Env) (s : System) : Event → System
  | .load p =>
    if (s.phase p).free && s.row.unfinished then s.enter p (.polling s.row) else s
  | .loadTimedOut p now =>
    if (s.phase p).free && 0 < env.taskTimeoutMinutes &&
        s.row.timedOut (now - env.taskTimeoutMinutes * 60) then
      s.enter p (.sweeping s.row)
    else s
  | .loadFetch p => if (s.phase p).free then s.enter p (.fetching s.row) else s
  | .sweep p now failed =>
    match s.phase p with
    | .sweeping t => s.sweep env p now failed t
    | _ => s
  | .sunoItem p item f =>
    match s.phase p with
    | .polling t => s.sunoItem env p item f t
    | _ => s
  | .sunoSave p failed =>
    match s.phase p with
    | .saving t _ => { s with row := (t.update failed s.row).2 }.enter p (.polling t)
    | _ => s
  | .video p answer now failed =>
    match s.phase p with
    | .polling t => s.video env p answer now failed t
    | _ => s
  | .settle p f bill =>
    match s.phase p with
    | .settling t totalTokens =>
      match settleTaskBillingOnComplete f bill totalTokens t s.world with
      | (t, world) => { s with world }.enter p (.polling t)
    | _ => s
  | .refund p f =>
    match s.phase p with
    | .refunding t poller => (s.refund f t).enter p (if poller then .polling t else .idle)
    | _ => s
  | .realtime p answer failed =>
    match s.phase p with
    | .fetching t => s.realtime env p answer failed t
    | _ => s
  | .bulkFail p cause failed =>
    match s.phase p with
    | .polling t =>
      if cause.applies t then
        { s with row := taskBulkUpdateByID cause.failReason failed s.row }
      else s
    | _ => s

def Event.process : Event → ℕ
  | .load p | .loadTimedOut p _ | .loadFetch p | .sweep p _ _ | .sunoItem p _ _ | .sunoSave p _
  | .video p _ _ _ | .settle p _ _ | .refund p _ | .realtime p _ _ | .bulkFail p _ _ => p

theorem enter_phase_of_ne {s : System} {p q : ℕ} (hq : q ≠ p) (ph : Phase) :
    (s.enter p ph).phase q = s.phase q := by
  change Function.update s.phase p ph q = s.phase q
  exact Function.update_of_ne hq ph s.phase

theorem sweep_phase_of_ne (env : Env) (s : System) {p q : ℕ} (hq : q ≠ p) (now : ℤ)
    (failed : Bool) (t : Task) : (s.sweep env p now failed t).phase q = s.phase q := by
  unfold System.sweep
  dsimp only
  split <;> exact enter_phase_of_ne hq _

theorem sunoItem_phase_of_ne (env : Env) (s : System) {p q : ℕ} (hq : q ≠ p)
    (item : SunoDataResponse) (f : BillingFaults) (t : Task) :
    (s.sunoItem env p item f t).phase q = s.phase q := by
  unfold System.sunoItem
  split_ifs
  · rfl
  · exact enter_phase_of_ne hq _
  · exact enter_phase_of_ne hq _

theorem video_phase_of_ne (env : Env) (s : System) {p q : ℕ} (hq : q ≠ p)
    (answer : Option Answer) (now : ℤ) (failed : Bool) (t : Task) :
    (s.video env p answer now failed t).phase q = s.phase q := by
  unfold System.video
  cases answer with
  | none => rfl
  | some a =>
    dsimp only
    split
    · exact enter_phase_of_ne hq _
    · split
      · exact enter_phase_of_ne hq _
      · split_ifs
        · split <;> exact enter_phase_of_ne hq _
        · exact enter_phase_of_ne hq _
        · exact enter_phase_of_ne hq _

theorem realtime_phase_of_ne (env : Env) (s : System) {p q : ℕ} (hq : q ≠ p)
    (answer : Option TaskInfo) (failed : Bool) (t : Task) :
    (s.realtime env p answer failed t).phase q = s.phase q := by
  unfold System.realtime
  cases answer with
  | none => exact enter_phase_of_ne hq _
  | some info =>
    dsimp only
    split_ifs <;> exact enter_phase_of_ne hq _

/-- A statement of one process leaves the others where they are. -/
theorem step_phase_of_ne (env : Env) (s : System) {e : Event} {q : ℕ} (hq : q ≠ e.process) :
    (step env s e).phase q = s.phase q := by
  cases e with
  | load p | loadTimedOut p now | loadFetch p =>
    dsimp only [step]
    split_ifs
    · exact enter_phase_of_ne hq _
    · rfl
  | sweep p now failed =>
    dsimp only [step]
    split
    · exact sweep_phase_of_ne env s hq now failed _
    · rfl
  | sunoItem p item f =>
    dsimp only [step]
    split
    · exact sunoItem_phase_of_ne env s hq item f _
    · rfl
  | video p answer now failed =>
    dsimp only [step]
    split
    · exact video_phase_of_ne env s hq answer now failed _
    · rfl
  | realtime p answer failed =>
    dsimp only [step]
    split
    · exact realtime_phase_of_ne env s hq answer failed _
    · rfl
  | sunoSave p failed | settle p f bill | refund p f =>
    dsimp only [step]
    split
    · exact enter_phase_of_ne hq _
    · rfl
  | bulkFail p cause failed =>
    dsimp only [step]
    split
    · split_ifs <;> rfl
    · rfl

theorem run_phase_of_ne (env : Env) {trace : List Event} {q : ℕ}
    (hq : ∀ e ∈ trace, q ≠ e.process) (s : System) :
    (run (step env) s trace).phase q = s.phase q := by
  induction trace generalizing s with
  | nil => rfl
  | cons e trace ih =>
    have hrest : ∀ e ∈ trace, q ≠ e.process := fun e he ↦ hq e (List.mem_cons_of_mem _ he)
    exact (ih hrest (step env s e)).trans (step_phase_of_ne env s (hq e List.mem_cons_self))

end AllAiTools.NewApi.Service.TaskPolling
