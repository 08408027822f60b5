import AllAiTools.Foundation.Compensation
import AllAiTools.NewApi.Relay.MjproxyHandler

namespace AllAiTools.NewApi.Controller.Midjourney

open Foundation.Run Model.MidjourneyTask Service.Funding Relay.MjproxyHandler

/-- What a task comes to when it has been in progress for over an hour. -/
def timedOut (now : ℤ) (t : Midjourney) (item : MidjourneyDto) : MidjourneyDto :=
  if now - t.submitTime > 3600000 && t.progress ≠ "100%" then
    { item with failReason := "上游任务超时（超过1小时）", status := "FAILURE" }
  else item

/-- The text stored for the video urls: nothing when there are none. -/
def videoUrlsText (marshal : Option (List String) → String) (item : MidjourneyDto) : String :=
  match item.videoUrls with
  | some (url :: urls) => marshal (some (url :: urls))
  | _ => ""

def checkMjTaskNeedUpdate (marshal : Option (List String) → String) (oldTask : Midjourney)
    (newTask : MidjourneyDto) : Bool :=
  oldTask.code ≠ 1 ||
  oldTask.progress ≠ newTask.progress ||
  oldTask.promptEn ≠ newTask.promptEn ||
  oldTask.state ≠ newTask.state ||
  oldTask.submitTime ≠ newTask.submitTime ||
  oldTask.startTime ≠ newTask.startTime ||
  oldTask.finishTime ≠ newTask.finishTime ||
  oldTask.imageUrl ≠ newTask.imageUrl ||
  oldTask.status ≠ newTask.status ||
  oldTask.failReason ≠ newTask.failReason ||
  (oldTask.progress ≠ "100%" && newTask.failReason ≠ "") ||
  oldTask.videoUrl ≠ newTask.videoUrl ||
  oldTask.videoUrls ≠ videoUrlsText marshal newTask

def failsTask (item : MidjourneyDto) : Bool :=
  (item.progress ≠ "100%" && item.failReason ≠ "") ||
    (item.progress = "100%" && item.status = "FAILURE")

/-- The copy after an item. -/
def updatedTask (marshal : Option (List String) → String) (item : MidjourneyDto)
    (t : Midjourney) : Midjourney :=
  { t with
    code := 1
    progress := if failsTask item then "100%" else item.progress
    promptEn := item.promptEn
    state := item.state
    submitTime := item.submitTime
    startTime := item.startTime
    finishTime := item.finishTime
    imageUrl := item.imageUrl
    status := item.status
    failReason := item.failReason
    properties := item.properties.getD t.properties
    buttons := item.buttons.getD t.buttons
    videoUrl := item.videoUrl
    videoUrls := videoUrlsText marshal item }

/-- Why tasks are failed in bulk. -/
inductive BulkCause
  | nullTaskId
  | channelMissing (channelId : ℤ)

def BulkCause.failReason : BulkCause → Option String
  | .nullTaskId => none
  | .channelMissing channelId =>
    some ("获取渠道信息失败，请联系管理员，渠道ID：" ++ toString channelId)

/-- Where a process is. A poller holds the task, when it has loaded it, and the upstream
ids of the others it has loaded; a notification holds the task it has found. -/
inductive Phase
  | idle
  | polling (task : Option Midjourney) (known : List String)
  | refunding (task : Midjourney) (known : List String)
  | notifying (task : Midjourney) (req : MidjourneyDto)

def Phase.free : Phase → Bool
  | .refunding _ _ => false
  | _ => true

/-- Whether a poller finds the task under an upstream id. -/
def holds (task : Option Midjourney) (mjId : String) : Bool :=
  task.any fun t ↦ t.mjId ≠ "" && t.mjId = mjId

/-- Whether a bulk failure of a poller reaches the row: by its id when it has none
upstream, else by one of the upstream ids of the channel. -/
def BulkCause.reaches (task : Option Midjourney) (known : List String) (row : Midjourney) :
    BulkCause → Bool
  | .nullTaskId => task.any fun t ↦ t.mjId = ""
  | .channelMissing _ => row.mjId ≠ "" && (holds task row.mjId || row.mjId ∈ known)

/-- An inserted task, the money of its user, the refunds paid so far and where each
process is; a poller that follows a nil task takes the program down. -/
structure System where
  row : Midjourney
  world : World
  refunds : List ℤ
  crashed : Bool
  phase : ℕ → Phase

namespace System

def start (row : Midjourney) (world : World) : System := ⟨row, world, [], false, fun _ ↦ .idle⟩

def enter (s : System) (p : ℕ) (ph : Phase) : System :=
  { s with phase := Function.update s.phase p ph }

/-- An item of the upstream's list that is about the task. -/
def pollTask (marshal : Option (List String) → String) (s : System) (p : ℕ) (known : List String)
    (item : MidjourneyDto) (failed : Bool) (t : Midjourney) : System :=
  if !checkMjTaskNeedUpdate marshal t item then s
  else
    let t' := updatedTask marshal item t
    match t'.updateWithStatus t.status failed s.row with
    | (.ok true, row) =>
      { s with row }.enter p
        (if failsTask item ∧ t.quota ≠ 0 then .refunding t' known else .polling (some t') known)
    | (_, row) => { s with row }.enter p (.polling (some t') known)

/-- One item of the upstream's list. -/
def pollItem (marshal : Option (List String) → String) (s : System) (p : ℕ)
    (task : Option Midjourney) (known : List String) (item : MidjourneyDto) (now : ℤ)
    (failed : Bool) : System :=
  if holds task item.mjId then
    match task with
    | some t => s.pollTask marshal p known (timedOut now t item) failed t
    | none => s
  else if item.mjId ∈ known then s
  else { s with crashed := true }

end System

inductive Event
  | load (p : ℕ) (known : List String) (shadowed : Bool)
  | item (p : ℕ) (item : MidjourneyDto) (now : ℤ) (failed : Bool)
  | refund (p : ℕ) (failed : Bool)
  | bulkFail (p : ℕ) (cause : BulkCause) (failed : Bool)
  | notifyLoad (p : ℕ) (req : MidjourneyDto)
  | notifySave (p : ℕ) (failed : Bool)

/-- What a poller loads of the task: nothing when it is finished, or when another row
with its upstream id takes its place. -/
def loaded (row : Midjourney) (known : List String) (shadowed : Bool) : Option Midjourney :=
  if row.unfinished && !(shadowed && row.mjId ∈ known) then some row else none

/-- One statement of `UpdateMidjourneyTaskBulk` or of `RelayMidjourneyNotify`. -/
def act (marshal : Option (List String) → String) (s : System) : Event → System
  | .load p known shadowed =>
    if (s.phase p).free then s.enter p (.polling (loaded s.row known shadowed) known) else s
  | .item p item now failed =>
    match s.phase p with
    | .polling task known => s.pollItem marshal p task known item now failed
    | _ => s
  | .refund p failed =>
    match s.phase p with
    | .refunding t known =>
      match increaseUserQuota failed t.quota s.world with
      | (.ok (), world) =>
        { s with world, refunds := t.quota :: s.refunds }.enter p (.polling (some t) known)
      | (.error _, world) => { s with world }.enter p (.polling (some t) known)
    | _ => s
  | .bulkFail p cause failed =>
    match s.phase p with
    | .polling task known =>
      if cause.reaches task known s.row then
        { s with row := mjBulkUpdate cause.failReason failed s.row }
      else s
    | _ => s
  | .notifyLoad p req =>
    if (s.phase p).free && s.row.mjId = req.mjId then s.enter p (.notifying s.row req) else s
  | .notifySave p failed =>
    match s.phase p with
    | .notifying t req =>
      { s with row := ((req.notified marshal t).update failed s.row).2 }.enter p .idle
    | _ => s

def step (marshal : Option (List String) → String) (s : System) (e : Event) : System :=
  if s.crashed then s else act marshal s e

end AllAiTools.NewApi.Controller.Midjourney
