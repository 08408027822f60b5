import AllAiTools.Foundation.Dict
import AllAiTools.Foundation.Sorting
import AllAiTools.ChatGpt2Api.Text

namespace AllAiTools.ChatGpt2Api.Services.ImageTaskService

open Text
open Foundation (Dict)

inductive Status
  | queued
  | running
  | success
  | error
  deriving DecidableEq

/-- `TERMINAL_STATUSES`. -/
def Status.terminal : Status → Bool
  | success | error => true
  | queued | running => false

inductive Mode
  | generate
  | edit
  deriving DecidableEq

/-- An image task, with items of type `ι` and a usage of type `υ`. The object it is has the number
`ref`, which nothing reads. -/
structure Task (ι υ : Type) where
  ref : ℕ
  id : Str
  ownerId : Str
  status : Status
  mode : Mode
  model : Str
  size : Str
  quality : Str
  createdAt : ℤ
  updatedAt : ℤ
  data : Option (List ι)
  usage : Option υ
  error : Str

/-- What `_public_task` shows. -/
structure PublicTask (ι υ : Type) where
  id : Str
  status : Status
  mode : Mode
  model : Str
  size : Str
  quality : Str
  createdAt : ℤ
  updatedAt : ℤ
  data : Option (List ι)
  usage : Option υ
  error : Option Str

structure Payload where
  model : Option Str
  size : Option Str
  quality : Option Str

/-- What the handler does: it returns a dictionary, with the list under `data` if there is one, or
something else, or it raises an `Exception` with a text, or what is no `Exception`, which nothing
in the thread catches. -/
inductive Outcome (ι υ : Type)
  | returned (data : Option (List ι)) (usage : Option υ) (message : Option Str)
  | streamed
  | raised (text : Str)
  | exited

/-- Where the thread of a submission stands: not started yet, before its first update, in the
handler, before the update with the images, before the update with an error, in `_log_call` and at
its end. -/
inductive Phase (ι υ : Type)
  | created
  | starting
  | handling
  | succeeding (data : List ι) (usage : Option υ)
  | failing (message : Str)
  | logging
  | ended

/-- A thread. The object that is stored under its key when it starts and whether its handler
returned images are only for saying what is true of it. -/
structure Worker (ι υ : Type) where
  key : Str
  mode : Mode
  phase : Phase ι υ
  task : Option ℕ
  images : Bool

/-- The table, what the file holds, and the threads of all submissions. -/
structure State (ι υ : Type) where
  tasks : Dict Str (Task ι υ)
  file : List (Task ι υ)
  refs : ℕ
  workers : List (Worker ι υ)

/-- What a submission raises. -/
inductive Raised
  | clientTaskIdRequired
  | save (text : Str)
  deriving DecidableEq

/-- `value or default`. -/
def orElse (value : Option Str) (default : Str) : Str :=
  match value with
  | some (c :: s) => c :: s
  | _ => default

def clean (value : Option Str) (default : Str) : Str := strip (orElse value default)

def ownerId (id : Option Str) : Str := orElse (some (clean id [])) "anonymous".toList

def taskKey (ownerId taskId : Str) : Str := ownerId ++ ':' :: taskId

def defaultModel : Str := "gpt-image-2".toList

variable {ι υ : Type}

def publicTask (task : Task ι υ) : PublicTask ι υ where
  id := task.id
  status := task.status
  mode := task.mode
  model := task.model
  size := task.size
  quality := task.quality
  createdAt := task.createdAt
  updatedAt := task.updatedAt
  data := task.data
  usage := task.usage
  error := if task.error = [] then none else some task.error

/-- The latest first. -/
def byUpdate (tasks : List (Task ι υ)) : List (Task ι υ) :=
  Foundation.Sorting.stable.sort Task.updatedAt tasks

section Storage

/-- A getter that raises leaves thirty days. -/
def retentionDays (getter : Option ℤ) : ℤ :=
  match getter with
  | some days => max 1 days
  | none => 30

def expired (now : ℤ) (getter : Option ℤ) (task : Task ι υ) : Bool :=
  task.status.terminal && decide (task.updatedAt < now - retentionDays getter * 86400)

/-- `_cleanup_locked`, with what it returns. -/
def cleanup (tasks : Dict Str (Task ι υ)) (now : ℤ) (getter : Option ℤ) :
    Dict Str (Task ι υ) × Bool :=
  (tasks.filter fun item ↦ !expired now getter item.2,
    tasks.items.any fun item ↦ expired now getter item.2)

/-- `_recover_unfinished_locked`. -/
def recover (now : ℤ) (task : Task ι υ) : Task ι υ :=
  if task.status.terminal then task
  else { task with status := .error, error := "服务已重启，未完成的图片任务已中断".toList, updatedAt := now }

variable (s : State ι υ)

/-- `_save_locked`, which leaves the file as it is where it raises. -/
def saveLocked (save : Option Str) : State ι υ :=
  match save with
  | none => { s with file := byUpdate (s.tasks.items.map Prod.snd) }
  | some _ => s

/-- `_update_task`, with what it raises. -/
def updateTask (key : Str) (updates : Task ι υ → Task ι υ) (now : ℤ) (save : Option Str) :
    State ι υ × Option Str :=
  match s.tasks.get key with
  | none => (s, none)
  | some task =>
    (saveLocked { s with tasks := s.tasks.set key { updates task with updatedAt := now } } save, save)

/-- `_load_locked`, for what the file holds. -/
def load (stored : List (Task ι υ)) : Dict Str (Task ι υ) :=
  stored.zipIdx.foldl (fun tasks item ↦
    tasks.set (taskKey item.1.ownerId item.1.id) { item.1 with ref := item.2 }) Dict.empty

/-- The service as it is made. -/
def create (stored : List (Task ι υ)) (now : ℤ) (getter : Option ℤ) : State ι υ :=
  let loaded := load stored
  let changed := loaded.items.any fun item ↦ !item.2.status.terminal
  let (tasks, cleaned) := cleanup (loaded.map (recover now)) now getter
  let s := { tasks, file := stored, refs := stored.length, workers := [] }
  if changed || cleaned then saveLocked s none else s

end Storage

section Requests

variable (s : State ι υ) (identity : Option Str) (now : ℤ) (getter : Option ℤ) (save : Option Str)

def newTask (taskId : Str) (mode : Mode) (payload : Payload) : Task ι υ where
  ref := s.refs
  id := taskId
  ownerId := ownerId identity
  status := .queued
  mode := mode
  model := clean payload.model defaultModel
  size := clean payload.size []
  quality := clean payload.quality "auto".toList
  createdAt := now
  updatedAt := now
  data := none
  usage := none
  error := []

/-- `_submit`. The thread of a task that is stored is created where the save does not raise. -/
def submit (clientTaskId : Option Str) (mode : Mode) (payload : Payload) :
    State ι υ × Except Raised (PublicTask ι υ) :=
  let taskId := clean clientTaskId []
  if taskId = [] then (s, .error .clientTaskIdRequired)
  else
    let key := taskKey (ownerId identity) taskId
    let (tasks, cleaned) := cleanup s.tasks now getter
    match tasks.get key with
    | some task =>
      let s := { s with tasks }
      if cleaned then
        match save with
        | none => (saveLocked s none, .ok (publicTask task))
        | some text => (s, .error (.save text))
      else (s, .ok (publicTask task))
    | none =>
      let task := newTask s identity now taskId mode payload
      let s := { s with tasks := tasks.set key task, refs := s.refs + 1 }
      match save with
      | none =>
        ({ saveLocked s none with workers := s.workers ++ [⟨key, mode, .created, none, false⟩] },
          .ok (publicTask task))
      | some text => (s, .error (.save text))

/-- `list_tasks`, with the tasks it shows and the ids it misses. -/
def listTasks (taskIds : List Str) : State ι υ × Except Raised (List (PublicTask ι υ) × List Str) :=
  let owner := ownerId identity
  let requestedIds := (taskIds.map fun id ↦ clean (some id) []).filter (· ≠ [])
  let (tasks, cleaned) := cleanup s.tasks now getter
  let answer :=
    if requestedIds = [] then
      (((byUpdate ((tasks.items.map Prod.snd).filter fun task ↦ task.ownerId = owner)).map publicTask), [])
    else
      (requestedIds.filterMap fun id ↦ (tasks.get (taskKey owner id)).map publicTask,
        requestedIds.filter fun id ↦ (tasks.get (taskKey owner id)).isNone)
  let s := { s with tasks }
  if cleaned then
    match save with
    | none => (saveLocked s none, .ok answer)
    | some text => (s, .error (.save text))
  else (s, .ok answer)

end Requests

section Worker

/-- The update that `_run_task` makes next. -/
def Phase.updates : Phase ι υ → Option (Task ι υ → Task ι υ)
  | .starting => some fun task ↦ { task with status := .running, error := [] }
  | .succeeding data usage =>
    some fun task ↦ { task with status := .success, data := some data, usage := usage, error := [] }
  | .failing message => some fun task ↦ { task with status := .error, error := message, data := some [] }
  | .created | .handling | .logging | .ended => none

/-- What follows the update. What the first update raises is not caught, what the update with the
images raises is an error of the task, and what the update with an error raises is not caught. -/
def Phase.next : Phase ι υ → Option Str → Phase ι υ
  | .starting, none => .handling
  | .starting, some _ => .ended
  | .succeeding .., none => .logging
  | .succeeding .., some text => .failing (orElse (some text) "image task failed".toList)
  | .failing _, none => .logging
  | .failing _, some _ => .ended
  | .logging, _ => .ended
  | phase, _ => phase

def noAccount : Str :=
  "号池中没有可用账号或所有账号均被限流，请检查号池状态（账号额度、是否被封禁、是否到达生图上限）".toList

/-- What `_run_task` makes of what the handler does. -/
def Outcome.phase : Outcome ι υ → Phase ι υ
  | .returned (some (item :: items)) usage _ => .succeeding (item :: items) usage
  | .returned _ _ message => .failing (orElse (some (clean message [])) noAccount)
  | .streamed => .failing "image task returned streaming result unexpectedly".toList
  | .raised text => .failing (orElse (some text) "image task failed".toList)
  | .exited => .ended

def Outcome.images : Outcome ι υ → Bool
  | .returned (some (_ :: _)) _ _ => true
  | _ => false

variable (s : State ι υ) (i : ℕ)

/-- `thread.start()`. -/
def start : State ι υ :=
  match s.workers[i]? with
  | some worker =>
    match worker.phase with
    | .created =>
      { s with
        workers := s.workers.set i
          { worker with phase := .starting, task := (s.tasks.get worker.key).map Task.ref } }
    | _ => s
  | none => s

/-- The handler ends. -/
def handle (outcome : Outcome ι υ) : State ι υ :=
  match s.workers[i]? with
  | some worker =>
    match worker.phase with
    | .handling =>
      { s with workers := s.workers.set i { worker with phase := outcome.phase, images := outcome.images } }
    | _ => s
  | none => s

/-- The thread goes on with its next update, or with the end of `_log_call`. -/
def proceed (now : ℤ) (save : Option Str) : State ι υ :=
  match s.workers[i]? with
  | some worker =>
    let (s, raised) :=
      match worker.phase.updates with
      | some updates => updateTask s worker.key updates now save
      | none => (s, none)
    { s with workers := s.workers.set i { worker with phase := worker.phase.next raised } }
  | none => s

end Worker

inductive Action (ι υ : Type)
  | submit (identity clientTaskId : Option Str) (mode : Mode) (payload : Payload) (now : ℤ)
    (getter : Option ℤ) (save : Option Str)
  | start (i : ℕ)
  | handle (i : ℕ) (outcome : Outcome ι υ)
  | proceed (i : ℕ) (now : ℤ) (save : Option Str)
  | listTasks (identity : Option Str) (taskIds : List Str) (now : ℤ) (getter : Option ℤ)
    (save : Option Str)

/-- Every part under the lock is one step. What cannot go on now is a step that changes nothing. -/
def step (s : State ι υ) : Action ι υ → State ι υ
  | .submit identity clientTaskId mode payload now getter save =>
    (submit s identity now getter save clientTaskId mode payload).1
  | .start i => start s i
  | .handle i outcome => handle s i outcome
  | .proceed i now save => proceed s i now save
  | .listTasks identity taskIds now getter save => (listTasks s identity now getter save taskIds).1

end AllAiTools.ChatGpt2Api.Services.ImageTaskService
