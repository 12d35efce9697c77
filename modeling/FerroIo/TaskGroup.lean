import FerroIo.EventRun
import Mathlib.Data.Finset.Basic
import Mathlib.Data.Finset.Filter

/- `_FastTaskGroup.create_task` and the `asyncio.TaskGroup` methods it works
   with. The group's own fields keep their names; around them stands what the
   methods touch of the event loop and of the parent task: the status of every
   task, the done callbacks registered on pending tasks, and the callbacks the
   loop has scheduled and not yet run.

   Correspondence (Python ↔ Lean):
     `_FastTaskGroup.create_task`       ↔ `createTask .fast`
     `TaskGroup.create_task` (3.13)     ↔ `createTask .plain`
     `TaskGroup._on_task_done`          ↔ `onTaskDone`
     `TaskGroup._abort`                 ↔ `abort`
     `TaskGroup._aexit`, up to its wait ↔ `startExit`, `wake`
     `Task.add_done_callback`           ↔ `addDoneCallback`
   A task is named by its position in the list of tasks `create_task` returned.

   With an eager task factory the coroutine runs inside the factory's call, and
   may itself call `create_task` there. A call is therefore two events, `call`
   (the checks) and `spawned` (the factory has returned a task), and anything may
   happen between them; `createTask_eq_run` says that the two events, with the
   factory's own events between them, are the source's function. -/
namespace FerroIo

abbrev TaskId := Nat

/-- How a task ended. -/
inductive Outcome (E : Type) where
  | value
  | exception (exc : E)
  | cancelled
  deriving DecidableEq, Repr

inductive TaskStatus (E : Type) where
  | pending
  | done (o : Outcome E)
  deriving DecidableEq, Repr

def TaskStatus.isPending {E : Type} : TaskStatus E → Bool
  | .pending => true
  | .done _ => false

/-- Whether the task has finished with a value. -/
def TaskStatus.isValue {E : Type} : TaskStatus E → Bool
  | .done .value => true
  | _ => false

theorem TaskStatus.eq_of_isValue {E : Type} {st : TaskStatus E} (h : st.isValue = true) :
    st = .done .value := by
  cases st with
  | pending => cases h
  | done o =>
    cases o with
    | value => rfl
    | exception exc => cases h
    | cancelled => cases h

/-- The exception of a task that failed, and was not cancelled. -/
def TaskStatus.exception {E : Type} : TaskStatus E → Option E
  | .done (.exception exc) => some exc
  | _ => none

/-- The `RuntimeError`s of `create_task`. -/
inductive CreateError where
  | notEntered
  | finished
  | shuttingDown
  deriving DecidableEq, Repr

/-- The text of the error, `group` being the group's `repr`. -/
def CreateError.message (group : String) : CreateError → String
  | .notEntered => "TaskGroup " ++ group ++ " has not been entered"
  | .finished => "TaskGroup " ++ group ++ " is finished"
  | .shuttingDown => "TaskGroup " ++ group ++ " is shutting down"

/-- What the group takes from the interpreter: whether
    `futures.future_add_to_awaited_by` exists, and which exceptions
    `_is_base_error` accepts (`SystemExit` and `KeyboardInterrupt`). -/
structure Asyncio (E : Type) where
  hasAwaitedBy : Bool
  isBaseError : E → Bool

structure GroupState (E : Type) where
  -- the group's fields
  entered : Bool := false
  exiting : Bool := false
  aborting : Bool := false
  parentCancelRequested : Bool := false
  tasks : Finset TaskId := ∅
  errors : List E := []
  baseError : Option E := none
  /-- `_on_completed_fut`, with whether its result is set -/
  onCompletedFut : Option Bool := none
  -- the tasks and the loop
  statuses : List (TaskStatus E) := []
  registered : List TaskId := []
  scheduled : List TaskId := []
  cancelled : Finset TaskId := ∅
  awaitedBy : Finset TaskId := ∅
  -- the parent task
  parentDone : Bool := false
  parentCancels : Nat := 0
  -- history
  /-- `create_task` calls whose factory has not returned yet -/
  creating : Nat := 0
  /-- what each `create_task` call's checks decided, oldest first -/
  decisions : List (Option CreateError) := []
  /-- coroutines closed by a refused call -/
  closed : Nat := 0
  /-- tasks that had finished with a value when the factory returned them -/
  eager : Finset TaskId := ∅
  /-- tasks `_on_task_done` has run on, oldest first -/
  ran : List TaskId := []
  /-- tasks reported to the loop's exception handler -/
  unhandled : List TaskId := []

namespace GroupState
variable {E : Type}

/-- `task.done()` -/
def isDone (s : GroupState E) (t : TaskId) : Bool :=
  match s.statuses[t]? with
  | some (.done _) => true
  | _ => false

/-- `task.cancelled()` -/
def isCancelled (s : GroupState E) (t : TaskId) : Bool :=
  match s.statuses[t]? with
  | some (.done .cancelled) => true
  | _ => false

/-- `task.exception()` of a task that is done and not cancelled -/
def exception (s : GroupState E) (t : TaskId) : Option E :=
  match s.statuses[t]? with
  | some (.done (.exception exc)) => some exc
  | _ => none

/-- The three checks at the top of `create_task`. -/
def refuses (s : GroupState E) : Option CreateError :=
  if !s.entered then some .notEntered
  else if s.exiting && s.tasks = ∅ then some .finished
  else if s.aborting then some .shuttingDown
  else none

/-- The checks of one call: a refused coroutine is closed, an accepted one goes
    to the loop's factory. -/
def call (s : GroupState E) : GroupState E :=
  match s.refuses with
  | some err => { s with closed := s.closed + 1, decisions := s.decisions ++ [some err] }
  | none => { s with creating := s.creating + 1, decisions := s.decisions ++ [none] }

/-- `Task.add_done_callback`: on a task that is done the callback is scheduled
    at once. -/
def addDoneCallback (s : GroupState E) (t : TaskId) : GroupState E :=
  if s.isDone t then { s with scheduled := s.scheduled ++ [t] }
  else { s with registered := s.registered ++ [t] }

/-- The bookkeeping at the end of `create_task`. -/
def track (py : Asyncio E) (s : GroupState E) (t : TaskId) : GroupState E :=
  let s := if py.hasAwaitedBy then { s with awaitedBy := insert t s.awaitedBy } else s
  { s with tasks := insert t s.tasks }.addDoneCallback t

end GroupState

/-- The fast path of this repository, and the path of the standard library. -/
inductive Path where
  | fast
  | plain
  deriving DecidableEq, Repr

namespace GroupState
variable {E : Type}

/-- Whether task `t` is done, not cancelled and without an exception. -/
def succeeded (s : GroupState E) (t : TaskId) : Bool :=
  s.isDone t && !s.isCancelled t && (s.exception t).isNone

/-- What `create_task` does with the task the factory returned. Only the fast
    path returns early. -/
def keep (path : Path) (py : Asyncio E) (s : GroupState E) (t : TaskId) : GroupState E :=
  match path with
  | .fast => if s.succeeded t then s else s.track py t
  | .plain => s.track py t

/-- The factory of the innermost open call returns a new task with status `st`. -/
def handOut (s : GroupState E) (st : TaskStatus E) : GroupState E :=
  let t := s.statuses.length
  let s := { s with creating := s.creating - 1, statuses := s.statuses ++ [st] }
  if s.succeeded t then { s with eager := insert t s.eager } else s

/-- The call goes on with the task the factory has returned. -/
def spawned (path : Path) (py : Asyncio E) (s : GroupState E) (st : TaskStatus E) :
    GroupState E :=
  (s.handOut st).keep path py s.statuses.length

/-- `create_task(coro)`. The factory may run the coroutine, and with it any
    other step, before it returns a task and the status that task has by then. -/
def createTask (path : Path) (py : Asyncio E)
    (factory : GroupState E → GroupState E × TaskStatus E) (s : GroupState E) :
    Except CreateError TaskId × GroupState E :=
  match s.refuses with
  | some err => (.error err, s.call)
  | none =>
    let (s, st) := factory s.call
    (.ok s.statuses.length, s.spawned path py st)

/-- `_abort`: cancel every member that is not done. -/
def abort (s : GroupState E) : GroupState E :=
  { s with aborting := true, cancelled := s.cancelled ∪ s.tasks.filter (fun t => !s.isDone t) }

/-- The first half of `_on_task_done`: the task leaves the group, and the exit
    wait is woken when the group has become empty. -/
def untrack (s : GroupState E) (t : TaskId) : GroupState E :=
  let s := { s with tasks := s.tasks.erase t, awaitedBy := s.awaitedBy.erase t }
  if s.onCompletedFut.isSome && s.tasks = ∅ then { s with onCompletedFut := some true } else s

/-- The first `SystemExit` or `KeyboardInterrupt` is kept to be raised by itself. -/
def noteBaseError (py : Asyncio E) (s : GroupState E) (exc : E) : GroupState E :=
  if py.isBaseError exc && s.baseError.isNone then { s with baseError := some exc } else s

/-- The end of `_on_task_done` for a failed task: the first failure aborts the
    group and cancels the parent. -/
def escalate (s : GroupState E) (t : TaskId) : GroupState E :=
  if s.parentDone then { s with unhandled := s.unhandled ++ [t] }
  else if !s.aborting && !s.parentCancelRequested then
    { s.abort with parentCancelRequested := true, parentCancels := s.parentCancels + 1 }
  else s

/-- The second half of `_on_task_done`: the exception of a failed task is
    collected. -/
def report (py : Asyncio E) (s : GroupState E) (t : TaskId) : GroupState E :=
  if s.isCancelled t then s
  else match s.exception t with
    | none => s
    | some exc => ({ s with errors := s.errors ++ [exc] }.noteBaseError py exc).escalate t

/-- `_on_task_done(task)` -/
def onTaskDone (py : Asyncio E) (s : GroupState E) (t : TaskId) : GroupState E :=
  (s.untrack t).report py t

/-- A pending task ends: its done callbacks are handed to the loop. -/
def complete (s : GroupState E) (t : TaskId) (o : Outcome E) : GroupState E :=
  match s.statuses[t]? with
  | some .pending =>
    { s with
      statuses := s.statuses.set t (.done o)
      scheduled := s.scheduled ++ s.registered.filter (· == t)
      registered := s.registered.filter (· != t) }
  | _ => s

/-- The loop runs one scheduled done callback of task `t`, if there is one. -/
def deliver (py : Asyncio E) (s : GroupState E) (t : TaskId) : GroupState E :=
  if t ∈ s.scheduled then
    { s with scheduled := s.scheduled.erase t, ran := s.ran ++ [t] }.onTaskDone py t
  else s

/-- The head of the exit wait: while there are members, wait on a future. -/
def waitForTasks (s : GroupState E) : GroupState E :=
  if s.tasks ≠ ∅ ∧ s.onCompletedFut = none then { s with onCompletedFut := some false } else s

/-- `_aexit(et, exc)` up to its wait; `exc` is the exception that leaves the
    `async with` body. -/
def startExit (py : Asyncio E) (s : GroupState E) (exc : Option E) : GroupState E :=
  let s := { s with exiting := true }
  let s := match exc with
    | some e => s.noteBaseError py e
    | none => s
  let s := if exc.isSome && !s.aborting then s.abort else s
  s.waitForTasks

/-- The parent wakes from the exit wait and looks at the members again. -/
def wake (s : GroupState E) : GroupState E :=
  if s.onCompletedFut.isSome then { s with onCompletedFut := none }.waitForTasks else s

end GroupState

/-- What can happen to a group. `abort` is the abort of a parent cancelled in
    the exit wait. -/
inductive GroupEvent (E : Type) where
  | enter
  | call
  | spawned (st : TaskStatus E)
  | complete (t : TaskId) (o : Outcome E)
  | deliver (t : TaskId)
  | startExit (exc : Option E)
  | wake
  | abort
  deriving Repr

namespace GroupState
variable {E : Type}

def step (path : Path) (py : Asyncio E) (s : GroupState E) : GroupEvent E → GroupState E
  | .enter => { s with entered := true }
  | .call => s.call
  | .spawned st => if 0 < s.creating then s.spawned path py st else s
  | .complete t o => s.complete t o
  | .deliver t => s.deliver py t
  | .startExit exc => s.startExit py exc
  | .wake => s.wake
  | .abort => s.abort

/-- A new group; `parentDone` is `_parent_task.done()`. -/
def init (E : Type) (parentDone : Bool) : GroupState E := { parentDone }

/-! What each function changes. -/

theorem track_eq (py : Asyncio E) (s : GroupState E) (t : TaskId) : s.track py t =
    { s with
      awaitedBy := if py.hasAwaitedBy then insert t s.awaitedBy else s.awaitedBy
      tasks := insert t s.tasks
      registered := if s.isDone t then s.registered else s.registered ++ [t]
      scheduled := if s.isDone t then s.scheduled ++ [t] else s.scheduled } := by
  have hdone : ∀ a, { s with awaitedBy := a, tasks := insert t s.tasks }.isDone t = s.isDone t :=
    fun _ => rfl
  cases hb : py.hasAwaitedBy <;> cases hd : s.isDone t <;>
    simp only [track, addDoneCallback, hb, hd, hdone, Bool.false_eq_true, if_false, if_true]

theorem waitForTasks_eq (s : GroupState E) :
    ∃ b, s.waitForTasks = { s with onCompletedFut := b } := by
  simp only [waitForTasks]
  split
  · exact ⟨_, rfl⟩
  · exact ⟨s.onCompletedFut, rfl⟩

theorem wake_eq (s : GroupState E) : ∃ b, s.wake = { s with onCompletedFut := b } := by
  simp only [wake]
  split
  · obtain ⟨b, hb⟩ := waitForTasks_eq { s with onCompletedFut := none }
    exact ⟨b, hb⟩
  · exact ⟨s.onCompletedFut, rfl⟩

theorem untrack_eq (s : GroupState E) (t : TaskId) : ∃ b, s.untrack t =
    { s with tasks := s.tasks.erase t, awaitedBy := s.awaitedBy.erase t, onCompletedFut := b } := by
  simp only [untrack]
  split
  · exact ⟨_, rfl⟩
  · exact ⟨s.onCompletedFut, rfl⟩

theorem deliver_eq (py : Asyncio E) {s : GroupState E} {t : TaskId} (hs : t ∈ s.scheduled) :
    ∃ b, s.deliver py t = GroupState.report py
      { s with
        tasks := s.tasks.erase t
        awaitedBy := s.awaitedBy.erase t
        onCompletedFut := b
        scheduled := s.scheduled.erase t
        ran := s.ran ++ [t] } t := by
  obtain ⟨b, hb⟩ := untrack_eq { s with scheduled := s.scheduled.erase t, ran := s.ran ++ [t] } t
  refine ⟨b, ?_⟩
  rw [deliver, if_pos hs, onTaskDone, hb]

/-- A task without an exception leaves nothing to report. -/
theorem report_of_no_exception (py : Asyncio E) (s : GroupState E) (t : TaskId)
    (h : s.exception t = none) : s.report py t = s := by
  simp only [report, h, ite_self]

/-- What the early return and `add_done_callback` see of the task the factory
    has just returned. -/
theorem status_of_last {s : GroupState E} {ss : List (TaskStatus E)} {st : TaskStatus E}
    (h : s.statuses = ss ++ [st]) :
    s.isDone ss.length = !st.isPending ∧ s.succeeded ss.length = st.isValue := by
  have hget : s.statuses[ss.length]? = some st := by rw [h]; simp
  unfold succeeded isDone isCancelled exception
  rw [hget]
  cases st with
  | pending => exact ⟨rfl, rfl⟩
  | done o => cases o <;> exact ⟨rfl, rfl⟩

theorem handOut_eq (s : GroupState E) (st : TaskStatus E) : s.handOut st =
    { s with
      creating := s.creating - 1
      statuses := s.statuses ++ [st]
      eager := if st.isValue then insert s.statuses.length s.eager else s.eager } := by
  have hst : GroupState.statuses { s with
      creating := s.creating - 1, statuses := s.statuses ++ [st] } = s.statuses ++ [st] := rfl
  simp only [handOut, (status_of_last hst).2]
  split <;> rfl

/-! `create_task` is the run of its two events. -/

/-- An accepted `create_task` whose factory does the events `es` is the run of
    the checks, these events and the factory's return. -/
theorem createTask_eq_run (path : Path) (py : Asyncio E) (s : GroupState E)
    (es : List (GroupEvent E)) (st : TaskStatus E) (hs : s.refuses = none)
    (hopen : 0 < (EventRun.run (step path py) s.call es).creating) :
    (createTask path py (fun s' => (EventRun.run (step path py) s' es, st)) s).2 =
      EventRun.run (step path py) s (.call :: es ++ [.spawned st]) := by
  have hcall : step path py s .call = s.call := rfl
  simp only [createTask, hs, List.cons_append, EventRun.run_cons, EventRun.run_append,
    EventRun.run_nil, hcall]
  rw [step, if_pos hopen]

/-- A refused `create_task` is its checks alone. -/
theorem createTask_refused (path : Path) (py : Asyncio E) (s : GroupState E)
    (factory : GroupState E → GroupState E × TaskStatus E) (err : CreateError)
    (hs : s.refuses = some err) : createTask path py factory s = (.error err, s.call) := by
  simp only [createTask, hs]

end GroupState

end FerroIo
