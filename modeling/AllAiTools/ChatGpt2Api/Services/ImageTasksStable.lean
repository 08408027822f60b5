import AllAiTools.ChatGpt2Api.Services.ImageTaskService
import AllAiTools.Foundation.Run

namespace AllAiTools.ChatGpt2Api.Services.ImageTasksStable

open Text Foundation Foundation.Run ImageTaskService

variable {ι υ : Type}

section Property

/-- The thread was started when the object was stored under the key. -/
def StartedFor (worker : Worker ι υ) (key : Str) (task : Task ι υ) : Prop :=
  worker.key = key ∧ worker.task = some task.ref

/-- For a stored task at most one thread was started. It is no error if its handler returned images,
and it is a success, or else terminal, at the end of the thread. -/
structure Stable (s : State ι υ) : Prop where
  once : ∀ key task, s.tasks.get key = some task → ∀ (i j : ℕ) (worker worker' : Worker ι υ),
    s.workers[i]? = some worker → s.workers[j]? = some worker' → StartedFor worker key task →
      StartedFor worker' key task → i = j
  images : ∀ key task, s.tasks.get key = some task → ∀ (i : ℕ) (worker : Worker ι υ),
    s.workers[i]? = some worker → StartedFor worker key task → worker.images = true →
      task.status ≠ .error ∧ (worker.phase = .ended → task.status = .success)
  ended : ∀ key task, s.tasks.get key = some task → ∀ (i : ℕ) (worker : Worker ι υ),
    s.workers[i]? = some worker → StartedFor worker key task → worker.phase = .ended →
      task.status.terminal = true

/-- A submission raises because the save failed. -/
def Raises (s : State ι υ) : Action ι υ → Prop
  | .submit identity clientTaskId mode payload now getter save =>
    ∃ text, (submit s identity now getter save clientTaskId mode payload).2 = .error (.save text)
  | _ => False

/-- A step changes no terminal status, and a submission that raises leaves no task that was not there. -/
structure Undisturbed (s : State ι υ) (action : Action ι υ) : Prop where
  terminal : ∀ key task task', s.tasks.get key = some task → task.status.terminal = true →
    (step s action).tasks.get key = some task' → task'.ref = task.ref → task'.status = task.status
  raised : Raises s action → ∀ key task, (step s action).tasks.get key = some task →
    s.tasks.get key = some task

/-- No save fails where a submission stores a task, nor in the first update of a thread or the update
with the images, and nothing but an `Exception` is raised by the handler. -/
def Saved (s : State ι υ) : Action ι υ → Prop
  | .submit identity clientTaskId _ _ now getter save =>
    clean clientTaskId [] ≠ [] →
      (cleanup s.tasks now getter).1.get (taskKey (ownerId identity) (clean clientTaskId [])) = none →
        save = none
  | .proceed i _ save => ∀ worker, s.workers[i]? = some worker →
    worker.phase = .starting ∨ (∃ data usage, worker.phase = .succeeding data usage) → save = none
  | .handle i outcome => ∀ worker, s.workers[i]? = some worker →
    worker.phase = .handling → outcome ≠ .exited
  | .start _ | .listTasks .. => True

end Property

section Invariant

/-- What is stored for a thread. -/
def Agrees (tasks : Dict Str (Task ι υ)) (worker : Worker ι υ) : Prop :=
  match worker.phase with
  | .created => worker.images = false ∧
    ∃ task, tasks.get worker.key = some task ∧ task.status = .queued
  | .starting => worker.images = false ∧
    ∃ task, tasks.get worker.key = some task ∧ worker.task = some task.ref ∧ task.status = .queued
  | .handling | .failing _ => worker.images = false ∧
    ∃ task, tasks.get worker.key = some task ∧ worker.task = some task.ref ∧ task.status = .running
  | .succeeding .. =>
    ∃ task, tasks.get worker.key = some task ∧ worker.task = some task.ref ∧ task.status = .running
  | .logging | .ended => ∀ task, tasks.get worker.key = some task → worker.task = some task.ref →
    task.status.terminal = true ∧ (worker.images = true → task.status = .success)

/-- A thread that is not started yet is the only one for what is stored under its key. -/
structure Inv (s : State ι υ) : Prop where
  stored : ∀ key task, s.tasks.get key = some task → task.ref < s.refs
  started : ∀ (i : ℕ) (worker : Worker ι υ) (ref : ℕ), s.workers[i]? = some worker →
    worker.task = some ref → ref < s.refs
  agrees : ∀ (i : ℕ) (worker : Worker ι υ), s.workers[i]? = some worker → Agrees s.tasks worker
  apart : ∀ (i j : ℕ) (worker worker' : Worker ι υ) (ref : ℕ), s.workers[i]? = some worker →
    s.workers[j]? = some worker' → worker.key = worker'.key → worker.task = some ref →
      worker'.task = some ref → i = j
  pending : ∀ (i j : ℕ) (worker worker' : Worker ι υ) (task : Task ι υ), s.workers[i]? = some worker →
    s.workers[j]? = some worker' → i ≠ j → worker.phase = .created → worker'.key = worker.key →
      s.tasks.get worker.key = some task →
      worker'.phase ≠ .created ∧ worker'.task ≠ some task.ref

theorem Inv.stable {s : State ι υ} (h : Inv s) : Stable s := by
  constructor
  · intro key task hget i j worker worker' hi hj hfor hfor'
    exact h.apart i j worker worker' task.ref hi hj (hfor.1.trans hfor'.1.symm) hfor.2 hfor'.2
  · intro key task hget i worker hi hfor himages
    obtain ⟨rfl, htask⟩ := hfor
    have hagrees := h.agrees i worker hi
    rw [Agrees] at hagrees
    cases hphase : worker.phase with
    | succeeding data usage =>
      rw [hphase] at hagrees
      obtain ⟨task', hget', -, hstatus⟩ := hagrees
      obtain rfl := Option.some.inj (hget.symm.trans hget')
      rw [hstatus]
      exact ⟨by decide, fun hended ↦ by cases hended⟩
    | logging | ended =>
      rw [hphase] at hagrees
      have hstatus := (hagrees task hget htask).2 himages
      rw [hstatus]
      exact ⟨by decide, fun _ ↦ rfl⟩
    | created | starting | handling | failing message =>
      rw [hphase] at hagrees
      rw [hagrees.1] at himages
      cases himages
  · intro key task hget i worker hi hfor hended
    obtain ⟨rfl, htask⟩ := hfor
    have hagrees := h.agrees i worker hi
    rw [Agrees, hended] at hagrees
    exact (hagrees task hget htask).1

end Invariant

section Cleanup

variable {tasks : Dict Str (Task ι υ)} {now : ℤ} {getter : Option ℤ}

theorem get_cleanup {key : Str} {task : Task ι υ} :
    (cleanup tasks now getter).1.get key = some task ↔
      tasks.get key = some task ∧ expired now getter task = false := by
  rw [cleanup, Dict.get_filter_eq_some_iff, Bool.not_eq_true']

theorem get_of_cleanup {key : Str} {task : Task ι υ}
    (h : (cleanup tasks now getter).1.get key = some task) : tasks.get key = some task :=
  (get_cleanup.mp h).1

/-- What is not terminal stays. -/
theorem get_cleanup_of_unfinished {key : Str} {task : Task ι υ} (h : tasks.get key = some task)
    (hstatus : task.status.terminal = false) : (cleanup tasks now getter).1.get key = some task :=
  get_cleanup.mpr ⟨h, by rw [expired, hstatus, Bool.false_and]⟩

theorem Agrees.cleaned {worker : Worker ι υ} (h : Agrees tasks worker) :
    Agrees (cleanup tasks now getter).1 worker := by
  rw [Agrees] at h ⊢
  cases hphase : worker.phase with
  | created =>
    rw [hphase] at h
    obtain ⟨himages, task, hget, hstatus⟩ := h
    exact ⟨himages, task, get_cleanup_of_unfinished hget (by rw [hstatus]; rfl), hstatus⟩
  | starting | handling | failing message =>
    rw [hphase] at h
    obtain ⟨himages, task, hget, htask, hstatus⟩ := h
    exact ⟨himages, task, get_cleanup_of_unfinished hget (by rw [hstatus]; rfl), htask, hstatus⟩
  | succeeding data usage =>
    rw [hphase] at h
    obtain ⟨task, hget, htask, hstatus⟩ := h
    exact ⟨task, get_cleanup_of_unfinished hget (by rw [hstatus]; rfl), htask, hstatus⟩
  | logging | ended =>
    rw [hphase] at h
    exact fun task hget ↦ h task (get_of_cleanup hget)

theorem Inv.cleaned {s : State ι υ} (h : Inv s) (file : List (Task ι υ)) (now : ℤ) (getter : Option ℤ) :
    Inv ⟨(cleanup s.tasks now getter).1, file, s.refs, s.workers⟩ where
  stored key task hget := h.stored key task (get_of_cleanup hget)
  started := h.started
  agrees i worker hi := (h.agrees i worker hi).cleaned
  apart := h.apart
  pending i j worker worker' task hi hj hne hphase hkey hget :=
    h.pending i j worker worker' task hi hj hne hphase hkey (get_of_cleanup hget)

end Cleanup

section Threads

variable {s : State ι υ} {i : ℕ} {worker : Worker ι υ}

/-- A task that is set changes nothing for the threads that were not started for it. -/
theorem Agrees.set {tasks : Dict Str (Task ι υ)} {key : Str} {task' : Task ι υ} (h : Agrees tasks worker)
    (hother : worker.key = key → worker.phase ≠ .created ∧ worker.task ≠ some task'.ref ∧
      ∀ task, tasks.get key = some task → worker.task ≠ some task.ref) :
    Agrees (tasks.set key task') worker := by
  by_cases hkey : worker.key = key
  · obtain ⟨hcreated, hnew, hold⟩ := hother hkey
    rw [Agrees] at h ⊢
    cases hphase : worker.phase with
    | created => exact absurd hphase hcreated
    | starting | handling | failing message =>
      rw [hphase, hkey] at h
      obtain ⟨-, task, hget, htask, -⟩ := h
      exact absurd htask (hold task hget)
    | succeeding data usage =>
      rw [hphase, hkey] at h
      obtain ⟨task, hget, htask, -⟩ := h
      exact absurd htask (hold task hget)
    | logging | ended =>
      intro task hget htask
      rw [hkey, Dict.get_set, Function.update_self] at hget
      obtain rfl := Option.some.inj hget
      exact absurd htask hnew
  · have hget : (tasks.set key task').get worker.key = tasks.get worker.key := by
      rw [Dict.get_set, Function.update_of_ne hkey]
    rw [Agrees, hget]
    exact h

/-- Another thread. -/
theorem getElem?_set_of {worker' x : Worker ι υ} {j : ℕ} (h : (s.workers.set i worker')[j]? = some x) :
    (i = j ∧ x = worker') ∨ (i ≠ j ∧ s.workers[j]? = some x) := by
  rw [List.getElem?_set] at h
  split at h
  · rename_i hij
    split at h
    · exact .inl ⟨hij, (Option.some.inj h).symm⟩
    · cases h
  · rename_i hij
    exact .inr ⟨hij, h⟩

/-- A started thread goes on, and what is stored keeps the objects that it is. -/
theorem Inv.goOn (h : Inv s) (hi : s.workers[i]? = some worker) {worker' : Worker ι υ}
    (hkey : worker'.key = worker.key) (htask : worker'.task = worker.task)
    (hphase : worker'.phase ≠ .created) {tasks : Dict Str (Task ι υ)}
    (hrefs : ∀ key task', tasks.get key = some task' →
      ∃ task, s.tasks.get key = some task ∧ task.ref = task'.ref)
    (hagrees : Agrees tasks worker')
    (hothers : ∀ (j : ℕ) (x : Worker ι υ), i ≠ j → s.workers[j]? = some x → Agrees tasks x)
    (file : List (Task ι υ)) :
    Inv ⟨tasks, file, s.refs, s.workers.set i worker'⟩ := by
  have hold : ∀ (j : ℕ) (x : Worker ι υ), (s.workers.set i worker')[j]? = some x →
      ∃ y, s.workers[j]? = some y ∧ x.key = y.key ∧ x.task = y.task := by
    intro j x hj
    obtain ⟨rfl, rfl⟩ | ⟨-, hj⟩ := getElem?_set_of hj
    · exact ⟨worker, hi, hkey, htask⟩
    · exact ⟨x, hj, rfl, rfl⟩
  constructor
  · intro key task' hget
    obtain ⟨task, hget, href⟩ := hrefs key task' hget
    exact href ▸ h.stored key task hget
  · intro j x ref hj href
    obtain ⟨y, hj, -, htask⟩ := hold j x hj
    exact h.started j y ref hj (htask ▸ href)
  · intro j x hj
    obtain ⟨rfl, rfl⟩ | ⟨hne, hj⟩ := getElem?_set_of hj
    · exact hagrees
    · exact hothers j x hne hj
  · intro j k x x' ref hj hk hkeys href href'
    obtain ⟨y, hj, hykey, hytask⟩ := hold j x hj
    obtain ⟨y', hk, hykey', hytask'⟩ := hold k x' hk
    exact h.apart j k y y' ref hj hk (hykey ▸ hykey' ▸ hkeys) (hytask ▸ href) (hytask' ▸ href')
  · intro j k x x' task' hj hk hne hcreated hkeys hget'
    obtain ⟨task, hget, href⟩ := hrefs x.key task' hget'
    obtain ⟨rfl, rfl⟩ | ⟨hij, hj'⟩ := getElem?_set_of hj
    · exact absurd hcreated hphase
    obtain ⟨rfl, rfl⟩ | ⟨hik, hk'⟩ := getElem?_set_of hk
    · have hpending := h.pending j i x worker task hj' hi hne hcreated (hkey ▸ hkeys) hget
      rw [htask, ← href]
      exact ⟨hphase, hpending.2⟩
    · rw [← href]
      exact h.pending j k x x' task hj' hk' hne hcreated hkeys hget

end Threads

section Submissions

variable {s : State ι υ} {identity clientTaskId : Option Str} {mode : Mode} {payload : Payload} {now : ℤ}
  {getter : Option ℤ} {save : Option Str}

/-- Nothing happens, what is expired goes, or also a task is stored and its thread created. -/
theorem submit_spec (hsaved : Saved s (.submit identity clientTaskId mode payload now getter save)) :
    submit s identity now getter save clientTaskId mode payload = (s, .error .clientTaskIdRequired) ∨
    (∃ file result, submit s identity now getter save clientTaskId mode payload =
      (⟨(cleanup s.tasks now getter).1, file, s.refs, s.workers⟩, result)) ∨
    ∃ key task file answer, (cleanup s.tasks now getter).1.get key = none ∧ task.ref = s.refs ∧
      task.status = .queued ∧ submit s identity now getter save clientTaskId mode payload =
        (⟨(cleanup s.tasks now getter).1.set key task, file, s.refs + 1,
          s.workers ++ [⟨key, mode, .created, none, false⟩]⟩, .ok answer) := by
  rw [submit]
  by_cases hid : clean clientTaskId [] = []
  · exact .inl (if_pos hid)
  rw [if_neg hid]
  cases hget : (cleanup s.tasks now getter).1.get (taskKey (ownerId identity) (clean clientTaskId [])) with
  | none =>
    obtain rfl := hsaved hid hget
    refine .inr (.inr ⟨taskKey (ownerId identity) (clean clientTaskId []),
      newTask s identity now (clean clientTaskId []) mode payload,
      byUpdate (((cleanup s.tasks now getter).1.set (taskKey (ownerId identity) (clean clientTaskId []))
        (newTask s identity now (clean clientTaskId []) mode payload)).items.map Prod.snd),
      publicTask (newTask s identity now (clean clientTaskId []) mode payload), hget, rfl, rfl, ?_⟩)
    simp only [hget]
    rfl
  | some task =>
    refine .inr (.inl ?_)
    simp only [hget]
    cases (cleanup s.tasks now getter).2 with
    | false => exact ⟨_, _, rfl⟩
    | true =>
      cases save with
      | none => exact ⟨_, _, rfl⟩
      | some text => exact ⟨_, _, rfl⟩

/-- A task is stored under a key where there is none, with the only thread that can be started for
it. -/
theorem Inv.store (h : Inv s) {key : Str} {task : Task ι υ} (hget : s.tasks.get key = none)
    (href : task.ref = s.refs) (hstatus : task.status = .queued) (file : List (Task ι υ)) (mode : Mode) :
    Inv ⟨s.tasks.set key task, file, s.refs + 1, s.workers ++ [⟨key, mode, .created, none, false⟩]⟩ := by
  have hworkers : ∀ (i : ℕ) (worker : Worker ι υ),
      (s.workers ++ [(⟨key, mode, .created, none, false⟩ : Worker ι υ)])[i]? = some worker →
      s.workers[i]? = some worker ∨
        (s.workers.length = i ∧ worker = ⟨key, mode, .created, none, false⟩) := by
    intro i worker hi
    rw [List.getElem?_append] at hi
    split at hi
    · exact .inl hi
    · rename_i hlt
      rw [List.getElem?_singleton] at hi
      split at hi
      · exact .inr ⟨by omega, (Option.some.inj hi).symm⟩
      · cases hi
  -- No thread was started for the new object, or is about to be started under its key.
  have hother : ∀ (i : ℕ) (worker : Worker ι υ), s.workers[i]? = some worker →
      worker.key = key → worker.phase ≠ .created ∧ worker.task ≠ some task.ref := by
    intro i worker hi hkey
    constructor
    · intro hcreated
      have hagrees := h.agrees i worker hi
      rw [Agrees, hcreated, hkey] at hagrees
      obtain ⟨-, old, hold, -⟩ := hagrees
      rw [hget] at hold
      cases hold
    · intro htask
      have hlt := h.started i worker task.ref hi htask
      omega
  constructor
  · intro key' task' hget'
    rw [Dict.get_set, Function.update_apply] at hget'
    split at hget'
    · obtain rfl := Option.some.inj hget'
      rw [href]
      exact Nat.lt_succ_self s.refs
    · exact (h.stored key' task' hget').trans (Nat.lt_succ_self s.refs)
  · intro i worker ref hi hworker
    obtain hi | ⟨-, rfl⟩ := hworkers i worker hi
    · exact (h.started i worker ref hi hworker).trans (Nat.lt_succ_self s.refs)
    · cases hworker
  · intro i worker hi
    obtain hi | ⟨-, rfl⟩ := hworkers i worker hi
    · refine (h.agrees i worker hi).set fun hkey ↦ ?_
      refine ⟨(hother i worker hi hkey).1, (hother i worker hi hkey).2, fun old hold ↦ ?_⟩
      rw [hget] at hold
      cases hold
    · refine ⟨rfl, task, ?_, hstatus⟩
      rw [Dict.get_set, Function.update_self]
  · intro i j worker worker' ref hi hj hkeys hworker hworker'
    obtain hi | ⟨-, rfl⟩ := hworkers i worker hi
    · obtain hj | ⟨-, rfl⟩ := hworkers j worker' hj
      · exact h.apart i j worker worker' ref hi hj hkeys hworker hworker'
      · cases hworker'
    · cases hworker
  · intro i j worker worker' task' hi hj hne hcreated hkeys hget'
    obtain hi | ⟨hlast, rfl⟩ := hworkers i worker hi
    · obtain hj | ⟨-, rfl⟩ := hworkers j worker' hj
      · have hkey : worker.key ≠ key := fun hkey ↦ (hother i worker hi hkey).1 hcreated
        rw [Dict.get_set, Function.update_of_ne hkey] at hget'
        exact h.pending i j worker worker' task' hi hj hne hcreated hkeys hget'
      · exact absurd hcreated (hother i worker hi hkeys.symm).1
    · rw [Dict.get_set, Function.update_self] at hget'
      obtain rfl := Option.some.inj hget'
      obtain hj | ⟨hlast', -⟩ := hworkers j worker' hj
      · exact hother j worker' hj hkeys
      · exact absurd (hlast.symm.trans hlast') hne

theorem inv_submit (h : Inv s)
    (hsaved : Saved s (.submit identity clientTaskId mode payload now getter save)) :
    Inv (submit s identity now getter save clientTaskId mode payload).1 := by
  obtain heq | ⟨file, result, heq⟩ | ⟨key, task, file, answer, hget, href, hstatus, heq⟩ := submit_spec hsaved
  · rw [heq]
    exact h
  · rw [heq]
    exact h.cleaned file now getter
  · rw [heq]
    exact (h.cleaned file now getter).store hget href hstatus file mode

end Submissions

section Workers

variable {s : State ι υ} {i : ℕ} {worker : Worker ι υ} {now : ℤ} {save : Option Str}

theorem proceed_update (now : ℤ) (save : Option Str) (hi : s.workers[i]? = some worker)
    {updates : Task ι υ → Task ι υ}
    (hupdates : worker.phase.updates = some updates) {task : Task ι υ}
    (hget : s.tasks.get worker.key = some task) :
    ∃ file, proceed s i now save =
      ⟨s.tasks.set worker.key { updates task with updatedAt := now }, file, s.refs,
        s.workers.set i { worker with phase := worker.phase.next save }⟩ := by
  rw [proceed]
  simp only [hi, hupdates, updateTask, hget]
  cases save with
  | none => exact ⟨_, rfl⟩
  | some text => exact ⟨_, rfl⟩

theorem proceed_still (hi : s.workers[i]? = some worker) (hupdates : worker.phase.updates = none) :
    proceed s i now save =
      { s with workers := s.workers.set i { worker with phase := worker.phase.next none } } := by
  rw [proceed]
  simp only [hi, hupdates]

/-- The thread that a stored task was started for updates it. -/
theorem Inv.update (h : Inv s) (hi : s.workers[i]? = some worker) {updates : Task ι υ → Task ι υ}
    (hupdates : worker.phase.updates = some updates) {task : Task ι υ}
    (hget : s.tasks.get worker.key = some task) (htask : worker.task = some task.ref)
    (href : (updates task).ref = task.ref) (phase : Phase ι υ) (hnext : worker.phase.next save = phase)
    (hphase : phase ≠ .created)
    (hagrees : Agrees (s.tasks.set worker.key { updates task with updatedAt := now })
      { worker with phase }) :
    Inv (proceed s i now save) := by
  obtain ⟨file, heq⟩ := proceed_update now save hi hupdates hget
  rw [heq, hnext]
  have hkey : ({ worker with phase } : Worker ι υ).key = worker.key := rfl
  refine h.goOn hi hkey rfl hphase (fun key x hx ↦ ?_) hagrees (fun j x hne hj ↦ ?_) file
  · rw [Dict.get_set, Function.update_apply] at hx
    split at hx
    · rename_i hkey
      obtain rfl := Option.some.inj hx
      exact ⟨task, hkey ▸ hget, href.symm⟩
    · exact ⟨x, hx, rfl⟩
  · refine (h.agrees j x hj).set fun hkey ↦ ?_
    have happart : x.task ≠ some task.ref := fun hx ↦
      hne (h.apart i j worker x task.ref hi hj hkey.symm htask hx)
    have hnew : x.task ≠ some (updates task).ref := href ▸ happart
    refine ⟨fun hcreated ↦ ?_, hnew, fun old hold ↦ ?_⟩
    · exact (h.pending j i x worker task hj hi (Ne.symm hne) hcreated hkey.symm (hkey ▸ hget)).2 htask
    · obtain rfl := Option.some.inj (hget.symm.trans hold)
      exact happart

theorem set_getElem?_self (hi : s.workers[i]? = some worker) : s.workers.set i worker = s.workers := by
  obtain ⟨hlt, rfl⟩ := List.getElem?_eq_some_iff.mp hi
  exact List.set_getElem_self hlt

theorem inv_proceed (h : Inv s) (hsaved : Saved s (.proceed i now save)) : Inv (proceed s i now save) := by
  cases hi : s.workers[i]? with
  | none =>
    rw [proceed, hi]
    exact h
  | some worker =>
    have hagrees := h.agrees i worker hi
    rw [Agrees] at hagrees
    cases hphase : worker.phase with
    | created | handling | ended =>
      have hnext : worker.phase.next none = worker.phase := by
        rw [hphase]
        rfl
      rw [proceed_still hi (by rw [hphase]; rfl), hnext, set_getElem?_self hi]
      exact h
    | logging =>
      have hnext : worker.phase.next none = .ended := by
        rw [hphase]
        rfl
      rw [proceed_still hi (by rw [hphase]; rfl), hnext]
      rw [hphase] at hagrees
      have hkey : ({ worker with phase := .ended } : Worker ι υ).key = worker.key := rfl
      exact h.goOn hi hkey rfl (by simp) (fun key x hx ↦ ⟨x, hx, rfl⟩) hagrees
        (fun j x _ hj ↦ h.agrees j x hj) s.file
    | starting =>
      rw [hphase] at hagrees
      obtain ⟨himages, task, hget, htask, hstatus⟩ := hagrees
      obtain rfl := hsaved worker hi (.inl hphase)
      refine h.update hi (congrArg Phase.updates hphase) hget htask rfl .handling
        (congrArg (Phase.next · none) hphase) (by simp)
        ⟨himages, { task with status := .running, error := [], updatedAt := now }, ?_, htask, rfl⟩
      rw [Dict.get_set, Function.update_self]
    | succeeding data usage =>
      rw [hphase] at hagrees
      obtain ⟨task, hget, htask, hstatus⟩ := hagrees
      obtain rfl := hsaved worker hi (.inr ⟨data, usage, hphase⟩)
      refine h.update hi (congrArg Phase.updates hphase) hget htask rfl .logging
        (congrArg (Phase.next · none) hphase) (by simp) fun x hx _ ↦ ?_
      rw [Dict.get_set, Function.update_self] at hx
      obtain rfl := Option.some.inj hx
      exact ⟨rfl, fun _ ↦ rfl⟩
    | failing message =>
      rw [hphase] at hagrees
      obtain ⟨himages, task, hget, htask, hstatus⟩ := hagrees
      -- A save that fails here ends the thread, but the task in the table is an error.
      have hend : ∀ x, (s.tasks.set worker.key
          { task with
            status := .error, error := message, data := some [], updatedAt := now }).get worker.key =
            some x → x.status.terminal = true ∧ (worker.images = true → x.status = .success) := by
        intro x hx
        rw [Dict.get_set, Function.update_self] at hx
        obtain rfl := Option.some.inj hx
        exact ⟨rfl, fun h' ↦ absurd h' (by rw [himages]; decide)⟩
      cases save with
      | none =>
        exact h.update hi (congrArg Phase.updates hphase) hget htask rfl .logging
          (congrArg (Phase.next · none) hphase) (by simp) fun x hx _ ↦ hend x hx
      | some text =>
        exact h.update hi (congrArg Phase.updates hphase) hget htask rfl .ended
          (congrArg (Phase.next · (some text)) hphase) (by simp) fun x hx _ ↦ hend x hx

theorem outcome_phase {outcome : Outcome ι υ} (h : outcome ≠ .exited) :
    (∃ data usage, outcome.phase = .succeeding data usage) ∨
      ∃ message, outcome.phase = .failing message ∧ outcome.images = false := by
  cases outcome with
  | returned data usage message =>
    cases data with
    | none => exact .inr ⟨_, rfl, rfl⟩
    | some items =>
      cases items with
      | nil => exact .inr ⟨_, rfl, rfl⟩
      | cons item items => exact .inl ⟨_, _, rfl⟩
  | streamed => exact .inr ⟨_, rfl, rfl⟩
  | raised text => exact .inr ⟨_, rfl, rfl⟩
  | exited => exact absurd rfl h

theorem inv_handle (h : Inv s) {outcome : Outcome ι υ} (hsaved : Saved s (.handle i outcome)) :
    Inv (handle s i outcome) := by
  rw [handle]
  split
  · rename_i worker hi
    split
    · rename_i hphase
      have hagrees := h.agrees i worker hi
      rw [Agrees, hphase] at hagrees
      obtain ⟨-, htask⟩ := hagrees
      have hkept : Agrees s.tasks { worker with phase := outcome.phase, images := outcome.images } ∧
          outcome.phase ≠ .created := by
        obtain ⟨data, usage, hout⟩ | ⟨message, hout, himages⟩ := outcome_phase (hsaved worker hi hphase)
        · rw [Agrees, hout]
          exact ⟨htask, by simp⟩
        · rw [Agrees, hout, himages]
          exact ⟨⟨rfl, htask⟩, by simp⟩
      have hkey : ({ worker with phase := outcome.phase, images := outcome.images } : Worker ι υ).key =
          worker.key := rfl
      exact h.goOn hi hkey rfl hkept.2 (fun key x hx ↦ ⟨x, hx, rfl⟩) hkept.1
        (fun j x _ hj ↦ h.agrees j x hj) s.file
    · exact h
  · exact h

/-- The object that a thread is started for is the one that its submission stored. -/
theorem inv_start (h : Inv s) (i : ℕ) : Inv (start s i) := by
  rw [start]
  split
  · rename_i worker hi
    split
    · rename_i hphase
      have hagrees := h.agrees i worker hi
      rw [Agrees, hphase] at hagrees
      obtain ⟨himages, task, hget, hstatus⟩ := hagrees
      have hother : ∀ (j : ℕ) (x : Worker ι υ), i ≠ j → s.workers[j]? = some x → x.key = worker.key →
          x.phase ≠ .created ∧ x.task ≠ some task.ref := fun j x hne hj hkey ↦
        h.pending i j worker x task hi hj hne hphase hkey hget
      rw [hget, Option.map_some]
      constructor
      · exact h.stored
      · intro j x ref hj hx
        obtain ⟨rfl, rfl⟩ | ⟨-, hj'⟩ := getElem?_set_of hj
        · obtain rfl := Option.some.inj hx
          exact h.stored worker.key task hget
        · exact h.started j x ref hj' hx
      · intro j x hj
        obtain ⟨rfl, rfl⟩ | ⟨-, hj'⟩ := getElem?_set_of hj
        · exact ⟨himages, task, hget, rfl, hstatus⟩
        · exact h.agrees j x hj'
      · intro j k x x' ref hj hk hkeys hx hx'
        obtain ⟨rfl, rfl⟩ | ⟨hij, hj'⟩ := getElem?_set_of hj
        · obtain ⟨rfl, rfl⟩ | ⟨hik, hk'⟩ := getElem?_set_of hk
          · rfl
          · exact absurd (hx'.trans hx.symm) (hother k x' hik hk' hkeys.symm).2
        · obtain ⟨rfl, rfl⟩ | ⟨hik, hk'⟩ := getElem?_set_of hk
          · exact absurd (hx.trans hx'.symm) (hother j x hij hj' hkeys).2
          · exact h.apart j k x x' ref hj' hk' hkeys hx hx'
      · intro j k x x' task' hj hk hne hcreated hkeys hget'
        obtain ⟨rfl, rfl⟩ | ⟨hij, hj'⟩ := getElem?_set_of hj
        · cases hcreated
        obtain ⟨rfl, rfl⟩ | ⟨hik, hk'⟩ := getElem?_set_of hk
        · exact absurd hcreated (hother j x hij hj' hkeys.symm).1
        · exact h.pending j k x x' task' hj' hk' hne hcreated hkeys hget'
    · exact h
  · exact h

theorem listTasks_fst (s : State ι υ) (now : ℤ) (save : Option Str) (identity : Option Str)
    (taskIds : List Str) (getter : Option ℤ) :
    ∃ file, (listTasks s identity now getter save taskIds).1 =
      ⟨(cleanup s.tasks now getter).1, file, s.refs, s.workers⟩ := by
  rw [listTasks]
  cases hcleaned : (cleanup s.tasks now getter).2 with
  | false =>
    simp only [hcleaned]
    exact ⟨_, rfl⟩
  | true =>
    simp only [hcleaned]
    cases save with
    | none => exact ⟨_, rfl⟩
    | some text => exact ⟨_, rfl⟩

end Workers

section Runs

variable {s : State ι υ}

theorem inv_step (h : Inv s) (action : Action ι υ) (hsaved : Saved s action) : Inv (step s action) := by
  cases action with
  | submit identity clientTaskId mode payload now getter save => exact inv_submit h hsaved
  | start i => exact inv_start h i
  | handle i outcome => exact inv_handle h hsaved
  | proceed i now save => exact inv_proceed h hsaved
  | listTasks identity taskIds now getter save =>
    obtain ⟨file, heq⟩ := listTasks_fst s now save identity taskIds getter
    rw [step, heq]
    exact h.cleaned file now getter

/-- A thread updates only a task that is not terminal. -/
theorem proceed_terminal (h : Inv s) {i : ℕ} {now : ℤ} {save : Option Str} {key : Str}
    {task task' : Task ι υ} (hget : s.tasks.get key = some task) (hterminal : task.status.terminal = true)
    (hget' : (proceed s i now save).tasks.get key = some task') : task' = task := by
  have hsame : s.tasks.get key = some task' → task' = task := fun hsame ↦
    (Option.some.inj (hget.symm.trans hsame)).symm
  cases hi : s.workers[i]? with
  | none =>
    rw [proceed, hi] at hget'
    exact hsame hget'
  | some worker =>
    cases hupdates : worker.phase.updates with
    | none =>
      rw [proceed_still hi hupdates] at hget'
      exact hsame hget'
    | some updates =>
      have hagrees := h.agrees i worker hi
      have hstored : ∃ old, s.tasks.get worker.key = some old ∧ old.status.terminal = false := by
        rw [Agrees] at hagrees
        cases hphase : worker.phase with
        | starting | failing message =>
          rw [hphase] at hagrees
          obtain ⟨-, old, hold, -, hstatus⟩ := hagrees
          exact ⟨old, hold, by rw [hstatus]; rfl⟩
        | succeeding data usage =>
          rw [hphase] at hagrees
          obtain ⟨old, hold, -, hstatus⟩ := hagrees
          exact ⟨old, hold, by rw [hstatus]; rfl⟩
        | created | handling | logging | ended =>
          rw [hphase] at hupdates
          cases hupdates
      obtain ⟨old, hold, hstatus⟩ := hstored
      obtain ⟨file, heq⟩ := proceed_update now save hi hupdates hold
      have hkey : key ≠ worker.key := by
        rintro rfl
        obtain rfl := Option.some.inj (hget.symm.trans hold)
        rw [hterminal] at hstatus
        cases hstatus
      rw [heq, Dict.get_set, Function.update_of_ne hkey] at hget'
      exact hsame hget'

theorem Inv.undisturbed (h : Inv s) {action : Action ι υ} (hsaved : Saved s action) :
    Undisturbed s action := by
  have hcleaned : ∀ (now : ℤ) (getter : Option ℤ) (key : Str) (task task' : Task ι υ),
      s.tasks.get key = some task → (cleanup s.tasks now getter).1.get key = some task' →
        task'.status = task.status := by
    intro now getter key task task' hget hget'
    rw [Option.some.inj (hget.symm.trans (get_of_cleanup hget'))]
  cases action with
  | submit identity clientTaskId mode payload now getter save =>
    obtain heq | ⟨file, result, heq⟩ | ⟨new, stored, file, answer, hnone, href, hstatus, heq⟩ :=
      submit_spec hsaved
    · constructor
      · intro key task task' hget _ hget' _
        rw [step, heq] at hget'
        rw [Option.some.inj (hget.symm.trans hget')]
      · intro hraises key task hget'
        rw [step, heq] at hget'
        exact hget'
    · constructor
      · intro key task task' hget _ hget' _
        rw [step, heq] at hget'
        exact hcleaned now getter key task task' hget hget'
      · intro hraises key task hget'
        rw [step, heq] at hget'
        exact get_of_cleanup hget'
    · constructor
      · intro key task task' hget _ hget' hsame
        rw [step, heq, Dict.get_set, Function.update_apply] at hget'
        split at hget'
        · obtain rfl := Option.some.inj hget'
          have hlt := h.stored key task hget
          omega
        · exact hcleaned now getter key task task' hget hget'
      · intro hraises
        obtain ⟨text, hraises⟩ := hraises
        rw [heq] at hraises
        cases hraises
  | start i =>
    have htasks : (step s (.start i)).tasks = s.tasks := by
      rw [step, start]
      split
      · split
        · rfl
        · rfl
      · rfl
    refine ⟨fun key task task' hget _ hget' _ ↦ ?_, fun hraises ↦ hraises.elim⟩
    rw [htasks] at hget'
    rw [Option.some.inj (hget.symm.trans hget')]
  | handle i outcome =>
    have htasks : (step s (.handle i outcome)).tasks = s.tasks := by
      rw [step, handle]
      split
      · split
        · rfl
        · rfl
      · rfl
    refine ⟨fun key task task' hget _ hget' _ ↦ ?_, fun hraises ↦ hraises.elim⟩
    rw [htasks] at hget'
    rw [Option.some.inj (hget.symm.trans hget')]
  | proceed i now save =>
    refine ⟨fun key task task' hget hterminal hget' _ ↦ ?_, fun hraises ↦ hraises.elim⟩
    rw [proceed_terminal h hget hterminal hget']
  | listTasks identity taskIds now getter save =>
    obtain ⟨file, heq⟩ := listTasks_fst s now save identity taskIds getter
    refine ⟨fun key task task' hget _ hget' _ ↦ ?_, fun hraises ↦ hraises.elim⟩
    rw [step, heq] at hget'
    exact hcleaned now getter key task task' hget hget'

theorem get_load_ref {stored : List (Task ι υ)} {key : Str} {task : Task ι υ}
    (h : (load stored).get key = some task) : task.ref < stored.length := by
  have hfold : ∀ (items : List (Task ι υ × ℕ)) (tasks : Dict Str (Task ι υ)),
      (∀ item ∈ items, item.2 < stored.length) →
      (∀ key task, tasks.get key = some task → task.ref < stored.length) →
      ∀ key task, (items.foldl (fun tasks item ↦ tasks.set (taskKey item.1.ownerId item.1.id)
        { item.1 with ref := item.2 }) tasks).get key = some task → task.ref < stored.length := by
    intro items
    induction items with
    | nil => exact fun tasks _ htasks ↦ htasks
    | cons item items ih =>
      intro tasks hitems htasks
      refine ih _ (fun x hx ↦ hitems x (List.mem_cons_of_mem item hx)) fun key task hget ↦ ?_
      rw [Dict.get_set, Function.update_apply] at hget
      split at hget
      · obtain rfl := Option.some.inj hget
        exact hitems item List.mem_cons_self
      · exact htasks key task hget
  refine hfold stored.zipIdx Dict.empty (fun item hitem ↦ ?_) (fun key task hget ↦ by cases hget) key task h
  have hlt := (List.mem_zipIdx hitem).2.1
  omega

theorem inv_create (stored : List (Task ι υ)) (now : ℤ) (getter : Option ℤ) :
    Inv (create stored now getter) := by
  obtain ⟨file, heq⟩ : ∃ file, create stored now getter =
      ⟨(cleanup ((load stored).map (recover now)) now getter).1, file, stored.length, []⟩ := by
    rw [create]
    cases hchanged : ((load stored).items.any fun item ↦ !item.2.status.terminal) ||
        (cleanup ((load stored).map (recover now)) now getter).2 with
    | true =>
      refine ⟨byUpdate ((cleanup ((load stored).map (recover now)) now getter).1.items.map Prod.snd), ?_⟩
      exact if_pos hchanged
    | false => exact ⟨stored, if_neg (Bool.eq_false_iff.mp hchanged)⟩
  rw [heq]
  constructor
  · intro key task hget
    obtain ⟨loaded, hloaded, rfl⟩ := Dict.get_map_eq_some_iff.mp (get_of_cleanup hget)
    have href : (recover now loaded).ref = loaded.ref := by
      rw [recover]
      split
      · rfl
      · rfl
    rw [href]
    exact get_load_ref hloaded
  · intro i worker ref hi
    cases hi
  · intro i worker hi
    cases hi
  · intro i j worker worker' ref hi
    cases hi
  · intro i j worker worker' task hi
    cases hi

theorem Inv.along (h : Inv s) {trace : List (Action ι υ)} (hsaved : Along step Saved s trace) :
    Along step (fun s action ↦ Undisturbed s action ∧ Stable (step s action)) s trace := by
  induction trace generalizing s with
  | nil => exact along_nil s
  | cons action trace ih =>
    have hstep := inv_step h action hsaved.1
    exact ⟨⟨h.undisturbed hsaved.1, hstep.stable⟩, ih hstep hsaved.2⟩

/-- Where the saves that matter do not fail, tasks run once and end in a stable state. -/
theorem tasks_stable (stored : List (Task ι υ)) (now : ℤ) (getter : Option ℤ) (trace : List (Action ι υ))
    (hsaved : Along step Saved (create stored now getter) trace) :
    Along step (fun s action ↦ Undisturbed s action ∧ Stable (step s action))
      (create stored now getter) trace :=
  (inv_create stored now getter).along hsaved

section Example

def exampleService : State Unit Unit := create [] 0 none

/-- A picture is asked for, made, and its task updated, where the last save may fail. -/
def exampleRun (save : Option Str) : List (ImageTaskService.Action Unit Unit) :=
  [.submit (some "owner-1".toList) (some "task-1".toList) .generate ⟨none, none, none⟩ 0 none none,
    .start 0, .proceed 0 1 none, .handle 0 (.returned (some [()]) none none), .proceed 0 2 save]

theorem tasks_stable_run :
    Along step (fun s action ↦ Undisturbed s action ∧ Stable (step s action))
      exampleService (exampleRun none) := by
  refine tasks_stable [] 0 none (exampleRun none) ?_
  refine ⟨fun _ _ ↦ rfl, trivial, fun _ _ _ ↦ rfl, fun worker hi hphase hexit ↦ ?_,
    fun _ _ _ ↦ rfl, trivial⟩
  cases hexit

/-- The save of the images fails, and what was a success becomes an error. -/
theorem tasks_stable_not : ¬ ∀ (stored : List (Task Unit Unit)) (now : ℤ) (getter : Option ℤ)
    (trace : List (ImageTaskService.Action Unit Unit)),
    Along step (fun s action ↦ Undisturbed s action ∧ Stable (step s action))
      (create stored now getter) trace := by
  intro h
  have halong := h [] 0 none (exampleRun (some "disk full".toList) ++ [.proceed 0 3 none])
  obtain ⟨hundisturbed, -⟩ := ((along_append _ _ _).mp halong).2.1
  have hbefore : ∃ task, (run step exampleService (exampleRun (some "disk full".toList))).tasks.get
      "owner-1:task-1".toList = some task ∧ task.ref = 0 ∧ task.status = .success := ⟨_, rfl, rfl, rfl⟩
  have hafter : ∃ task', (step (run step exampleService (exampleRun (some "disk full".toList)))
      (.proceed 0 3 none)).tasks.get "owner-1:task-1".toList = some task' ∧ task'.ref = 0 ∧
        task'.status = .error := ⟨_, rfl, rfl, rfl⟩
  obtain ⟨task, hget, href, hstatus⟩ := hbefore
  obtain ⟨task', hget', href', hstatus'⟩ := hafter
  have hsame := hundisturbed.terminal _ task task' hget (by rw [hstatus]; rfl) hget' (href'.trans href.symm)
  rw [hstatus, hstatus'] at hsame
  cases hsame

end Example

end Runs

end AllAiTools.ChatGpt2Api.Services.ImageTasksStable
