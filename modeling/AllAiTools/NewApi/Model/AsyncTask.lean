import AllAiTools.Foundation.ReadCommitted

namespace AllAiTools.NewApi.Model.AsyncTask

open Foundation.CompareAndSet

/-- A status is a text, as the upstream may send any. -/
abbrev TaskStatus := String

def taskStatusNotStart : TaskStatus := "NOT_START"
def taskStatusSubmitted : TaskStatus := "SUBMITTED"
def taskStatusQueued : TaskStatus := "QUEUED"
def taskStatusInProgress : TaskStatus := "IN_PROGRESS"
def taskStatusFailure : TaskStatus := "FAILURE"
def taskStatusSuccess : TaskStatus := "SUCCESS"

structure TaskPrivateData where
  upstreamTaskID : String := ""
  resultURL : String := ""
  billingSource : String := ""
  subscriptionId : ℤ := 0
  tokenId : ℤ := 0
  perCallBilling : Bool := false
  deriving DecidableEq

structure Task where
  taskID : String
  quota : ℤ
  status : TaskStatus
  failReason : String
  submitTime : ℤ
  startTime : ℤ
  finishTime : ℤ
  progress : String
  privateData : TaskPrivateData
  data : String
  deriving DecidableEq

def Task.getUpstreamTaskID (t : Task) : String :=
  if t.privateData.upstreamTaskID ≠ "" then t.privateData.upstreamTaskID else t.taskID

structure TaskSnapshot where
  status : TaskStatus
  progress : String
  startTime : ℤ
  finishTime : ℤ
  failReason : String
  resultURL : String
  data : String
  deriving DecidableEq

def Task.snapshot (t : Task) : TaskSnapshot where
  status := t.status
  progress := t.progress
  startTime := t.startTime
  finishTime := t.finishTime
  failReason := t.failReason
  resultURL := t.privateData.resultURL
  data := t.data

/-- The filter of `GetAllUnFinishSyncTasks`. -/
def Task.unfinished (t : Task) : Bool :=
  t.progress ≠ "100%" && t.status ≠ taskStatusFailure && t.status ≠ taskStatusSuccess

/-- The filter of `GetTimedOutUnfinishedTasks`. -/
def Task.timedOut (cutoffUnix : ℤ) (t : Task) : Bool :=
  t.unfinished && t.submitTime < cutoffUnix

/-- `Save`. -/
def Task.update (t : Task) (failed : Bool) (row : Task) : Except Unit Unit × Task :=
  save t failed row

def Task.updateWithStatus (t : Task) (fromStatus : TaskStatus) (failed : Bool) (row : Task) :
    Except Unit Bool × Task :=
  compareAndSet Task.status t fromStatus failed row

def taskBulkUpdateByID (failReason : Option String) (failed : Bool) (row : Task) : Task :=
  if failed then row
  else
    { row with
      status := taskStatusFailure
      progress := "100%"
      failReason := failReason.getD row.failReason }

theorem unfinished_status {t : Task} (h : t.unfinished = true) :
    t.status ≠ taskStatusFailure ∧ t.status ≠ taskStatusSuccess := by
  simp only [Task.unfinished, Bool.and_eq_true, decide_eq_true_eq] at h
  exact ⟨h.1.2, h.2⟩

theorem timedOut_unfinished {t : Task} {cutoffUnix : ℤ} (h : t.timedOut cutoffUnix = true) :
    t.unfinished = true := by
  simp only [Task.timedOut, Bool.and_eq_true] at h
  exact h.1

end AllAiTools.NewApi.Model.AsyncTask
