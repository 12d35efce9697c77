import FerroIo.TaskGroup

/- What a task group is for, as a ledger: every task handed out is pending or
   done, is a member or not, and has its one done callback registered, scheduled
   or already run. The flags of the group, its abort and its exit do not occur.

   `Ledger.Kept` is the invariant of one task's line, `Ledger.Sound` adds that
   the errors are those of the tasks the callback has run on, and
   `Ledger.step_sound` shows that every step keeps them. `ledger_step` connects
   the two levels: a step of the group is a step of its ledger or leaves the
   ledger as it is. -/
namespace FerroIo

structure Ledger (E : Type) where
  statuses : List (TaskStatus E)
  tasks : Finset TaskId
  registered : List TaskId
  scheduled : List TaskId
  ran : List TaskId
  errors : List E

namespace Ledger
variable {E : Type}

/-- The exception of task `t`, if it has failed. -/
def exception (l : Ledger E) (t : TaskId) : Option E := l.statuses[t]?.bind TaskStatus.exception

/-- A task is handed out. The fast path keeps no line for a task that has
    already finished with a value. -/
def spawned (path : Path) (l : Ledger E) (st : TaskStatus E) : Ledger E :=
  let t := l.statuses.length
  let l := { l with statuses := l.statuses ++ [st] }
  if path = .fast ∧ st.isValue then l
  else if st.isPending then { l with tasks := insert t l.tasks, registered := l.registered ++ [t] }
  else { l with tasks := insert t l.tasks, scheduled := l.scheduled ++ [t] }

def complete (l : Ledger E) (t : TaskId) (o : Outcome E) : Ledger E :=
  match l.statuses[t]? with
  | some .pending =>
    { l with
      statuses := l.statuses.set t (.done o)
      scheduled := l.scheduled ++ l.registered.filter (· == t)
      registered := l.registered.filter (· != t) }
  | _ => l

def deliver (l : Ledger E) (t : TaskId) : Ledger E :=
  if t ∈ l.scheduled then
    { l with
      tasks := l.tasks.erase t
      scheduled := l.scheduled.erase t
      ran := l.ran ++ [t]
      errors := l.errors ++ (l.exception t).toList }
  else l

def step (path : Path) (l : Ledger E) : GroupEvent E → Ledger E
  | .spawned st => l.spawned path st
  | .complete t o => l.complete t o
  | .deliver t => l.deliver t
  | _ => l

/-- The line of task `t`: a pending task is a member with one registered
    callback; a task that is done is a member with one scheduled callback, or has
    left the group when the callback ran on it once. Only a task the fast path
    found finished with a value was never a member. -/
def Kept (path : Path) (l : Ledger E) (t : TaskId) : Prop :=
  match l.statuses[t]? with
  | none => t ∉ l.tasks ∧ l.registered.count t = 0 ∧ l.scheduled.count t = 0 ∧ l.ran.count t = 0
  | some .pending =>
    t ∈ l.tasks ∧ l.registered.count t = 1 ∧ l.scheduled.count t = 0 ∧ l.ran.count t = 0
  | some (.done o) =>
    l.registered.count t = 0 ∧
      ((t ∈ l.tasks ∧ l.scheduled.count t = 1 ∧ l.ran.count t = 0) ∨
       (t ∉ l.tasks ∧ l.scheduled.count t = 0 ∧ l.ran.count t = 1) ∨
       (t ∉ l.tasks ∧ l.scheduled.count t = 0 ∧ l.ran.count t = 0 ∧ path = .fast ∧ o = .value))

structure Sound (path : Path) (l : Ledger E) : Prop where
  kept : ∀ t, l.Kept path t
  /-- no error is lost, repeated or made up -/
  errors : l.errors = l.ran.filterMap l.exception

section
variable {path : Path} {l : Ledger E} {t : TaskId}

theorem kept_of_status_none (h : l.Kept path t) (hs : l.statuses[t]? = none) :
    t ∉ l.tasks ∧ l.registered.count t = 0 ∧ l.scheduled.count t = 0 ∧ l.ran.count t = 0 := by
  unfold Kept at h; rw [hs] at h; exact h

theorem kept_of_pending (h : l.Kept path t) (hs : l.statuses[t]? = some .pending) :
    t ∈ l.tasks ∧ l.registered.count t = 1 ∧ l.scheduled.count t = 0 ∧ l.ran.count t = 0 := by
  unfold Kept at h; rw [hs] at h; exact h

/-- A task whose callback is scheduled is done, is a member, and has no other
    callback anywhere. -/
theorem kept_of_scheduled (h : l.Kept path t) (hs : t ∈ l.scheduled) :
    ∃ o, l.statuses[t]? = some (.done o) ∧ l.registered.count t = 0 ∧ t ∈ l.tasks ∧
      l.scheduled.count t = 1 ∧ l.ran.count t = 0 := by
  have hpos : 0 < l.scheduled.count t := List.count_pos_iff.mpr hs
  unfold Kept at h
  split at h
  · omega
  · omega
  · next o ho =>
    obtain ⟨hr, ⟨hm, hc, hn⟩ | ⟨_, hc, _⟩ | ⟨_, hc, _⟩⟩ := h
    · exact ⟨o, ho, hr, hm, hc, hn⟩
    · omega
    · omega

/-- The callback has only run on tasks that are done. -/
theorem done_of_ran (h : l.Kept path t) (hr : t ∈ l.ran) :
    ∃ o, l.statuses[t]? = some (.done o) := by
  have hpos : 0 < l.ran.count t := List.count_pos_iff.mpr hr
  unfold Kept at h
  split at h
  · omega
  · omega
  · next o ho => exact ⟨o, ho⟩

end

/-! ## What each step keeps -/

section
variable {path : Path} {l : Ledger E}

theorem spawned_kept (st : TaskStatus E) (h : l.Sound path) (t : TaskId) :
    (l.spawned path st).Kept path t := by
  by_cases ht : t = l.statuses.length
  · -- the new task: nothing was known of it
    subst ht
    obtain ⟨hm, hr, hs, hn⟩ := kept_of_status_none (h.kept l.statuses.length) (by simp)
    cases st with
    | pending => simp [spawned, Kept, TaskStatus.isValue, TaskStatus.isPending, hr, hs, hn]
    | done o =>
      cases path <;> cases o <;>
        simp [spawned, Kept, TaskStatus.isValue, TaskStatus.isPending, hm, hr, hs, hn]
  · have hget : (l.statuses ++ [st])[t]? = l.statuses[t]? := by
      rcases Nat.lt_or_gt_of_ne ht with hlt | hgt
      · rw [List.getElem?_append_left hlt]
      · rw [List.getElem?_eq_none (by simp; omega), List.getElem?_eq_none (by omega)]
    have hc : ∀ ts : List TaskId, (ts ++ [l.statuses.length]).count t = ts.count t := by
      intro ts
      rw [List.count_append, List.count_singleton, if_neg (by simpa using Ne.symm ht), Nat.add_zero]
    have hk := h.kept t
    unfold spawned
    dsimp only
    split
    · simpa only [Kept, hget] using hk
    · split <;> simpa only [Kept, hget, hc, Finset.mem_insert, ht, false_or] using hk

theorem complete_kept (u : TaskId) (o : Outcome E) (h : l.Sound path) (t : TaskId) :
    (l.complete u o).Kept path t := by
  unfold complete
  split
  · next hu =>
    have hlt : u < l.statuses.length := (List.getElem?_eq_some_iff.mp hu).1
    by_cases ht : t = u
    · subst ht
      obtain ⟨hm, hr, hs, hn⟩ := kept_of_pending (h.kept t) hu
      have hcount : (l.registered.filter (· == t)).count t = 1 := by
        rw [List.count_filter (by simp), hr]
      have hzero : (l.registered.filter (· != t)).count t = 0 := by
        rw [List.count_eq_zero]; simp
      simp [Kept, List.getElem?_set_self hlt, List.count_append, hm, hs, hn, hcount, hzero]
    · have hget : (l.statuses.set u (.done o))[t]? = l.statuses[t]? :=
        List.getElem?_set_ne (fun e => ht e.symm)
      have hzero : (l.registered.filter (· == u)).count t = 0 := by
        rw [List.count_eq_zero]; simp [ht]
      have hcount : (l.registered.filter (· != u)).count t = l.registered.count t :=
        List.count_filter (by simp [ht])
      have hk := h.kept t
      simpa [Kept, hget, List.count_append, hzero, hcount] using hk
  · exact h.kept t

theorem deliver_kept (u : TaskId) (h : l.Sound path) (t : TaskId) :
    (l.deliver u).Kept path t := by
  unfold deliver
  split
  · next hu =>
    by_cases ht : t = u
    · subst ht
      obtain ⟨o, ho, hr, hm, hs, hn⟩ := kept_of_scheduled (h.kept t) hu
      simp [Kept, ho, hr, hs, hn, List.count_erase_self, List.count_append]
    · have hc : ([u] : List TaskId).count t = 0 := by simp [Ne.symm ht]
      have hk := h.kept t
      simpa [Kept, ht, List.count_erase_of_ne ht, List.count_append, hc] using hk
  · exact h.kept t

/-- The errors are read off the tasks the callback ran on: they stay as they
    are while the exceptions of these tasks do. -/
theorem errors_of_congr {l' : Ledger E} (h : l.Sound path) (herr : l'.errors = l.errors)
    (hran : l'.ran = l.ran) (hexc : ∀ t ∈ l.ran, l'.exception t = l.exception t) :
    l'.errors = l'.ran.filterMap l'.exception := by
  rw [herr, hran, h.errors]
  exact List.filterMap_congr fun t ht => (hexc t ht).symm

theorem spawned_errors (st : TaskStatus E) (h : l.Sound path) :
    (l.spawned path st).errors = (l.spawned path st).ran.filterMap (l.spawned path st).exception := by
  have hstat : (l.spawned path st).statuses = l.statuses ++ [st] := by
    unfold spawned; split
    · rfl
    · split <;> rfl
  refine errors_of_congr h ?_ ?_ ?_
  · unfold spawned; split
    · rfl
    · split <;> rfl
  · unfold spawned; split
    · rfl
    · split <;> rfl
  · intro t ht
    obtain ⟨o, ho⟩ := done_of_ran (h.kept t) ht
    have hlt : t < l.statuses.length := (List.getElem?_eq_some_iff.mp ho).1
    rw [exception, exception, hstat, List.getElem?_append_left hlt]

theorem complete_errors (u : TaskId) (o : Outcome E) (h : l.Sound path) :
    (l.complete u o).errors = (l.complete u o).ran.filterMap (l.complete u o).exception := by
  cases hu : l.statuses[u]? with
  | none => simp only [complete, hu, h.errors]
  | some st =>
    cases st with
    | done o' => simp only [complete, hu, h.errors]
    | pending =>
      refine errors_of_congr h (by simp only [complete, hu]) (by simp only [complete, hu]) ?_
      intro t ht
      obtain ⟨o', ho'⟩ := done_of_ran (h.kept t) ht
      have hne : u ≠ t := by
        rintro rfl
        rw [hu] at ho'
        cases ho'
      simp only [complete, hu, exception, List.getElem?_set_ne hne]

theorem deliver_errors (u : TaskId) (h : l.Sound path) :
    (l.deliver u).errors = (l.deliver u).ran.filterMap (l.deliver u).exception := by
  unfold deliver
  split
  · show l.errors ++ (l.exception u).toList = (l.ran ++ [u]).filterMap l.exception
    rw [List.filterMap_append, ← h.errors]
    cases hx : l.exception u <;> simp [hx]
  · exact h.errors

theorem step_sound (e : GroupEvent E) (h : l.Sound path) : (l.step path e).Sound path := by
  cases e with
  | spawned st => exact ⟨spawned_kept st h, spawned_errors st h⟩
  | complete t o => exact ⟨complete_kept t o h, complete_errors t o h⟩
  | deliver t => exact ⟨deliver_kept t h, deliver_errors t h⟩
  | enter => exact h
  | call => exact h
  | startExit exc => exact h
  | wake => exact h
  | abort => exact h

end

end Ledger

/-! ## A step of the group is a step of its ledger -/

namespace GroupState
variable {E : Type}

def ledger (s : GroupState E) : Ledger E :=
  { statuses := s.statuses, tasks := s.tasks, registered := s.registered
    scheduled := s.scheduled, ran := s.ran, errors := s.errors }

theorem exception_eq_ledger (s : GroupState E) (t : TaskId) :
    s.exception t = s.ledger.exception t := by
  unfold exception Ledger.exception ledger
  dsimp only
  split
  · next exc h => rw [h]; rfl
  · next h =>
    cases hs : s.statuses[t]? with
    | none => rfl
    | some st =>
      cases st with
      | pending => rfl
      | done o =>
        cases o with
        | value => rfl
        | exception exc => exact absurd hs (h exc)
        | cancelled => rfl

@[simp] theorem ledger_abort (s : GroupState E) : s.abort.ledger = s.ledger := rfl

@[simp] theorem ledger_call (s : GroupState E) : s.call.ledger = s.ledger := by
  unfold call; split <;> rfl

@[simp] theorem ledger_waitForTasks (s : GroupState E) : s.waitForTasks.ledger = s.ledger := by
  unfold waitForTasks; split <;> rfl

@[simp] theorem ledger_wake (s : GroupState E) : s.wake.ledger = s.ledger := by
  unfold wake
  split
  · rw [ledger_waitForTasks]; rfl
  · rfl

@[simp] theorem ledger_noteBaseError (py : Asyncio E) (s : GroupState E) (exc : E) :
    (s.noteBaseError py exc).ledger = s.ledger := by
  unfold noteBaseError; split <;> rfl

@[simp] theorem ledger_escalate (s : GroupState E) (t : TaskId) :
    (s.escalate t).ledger = s.ledger := by
  unfold escalate
  split
  · rfl
  · split <;> rfl

@[simp] theorem ledger_startExit (py : Asyncio E) (s : GroupState E) (exc : Option E) :
    (s.startExit py exc).ledger = s.ledger := by
  unfold startExit
  dsimp only
  rw [ledger_waitForTasks]
  cases exc with
  | none => rfl
  | some e =>
    dsimp only
    split
    · rw [ledger_abort, ledger_noteBaseError]; rfl
    · rw [ledger_noteBaseError]; rfl

theorem ledger_untrack (s : GroupState E) (t : TaskId) :
    (s.untrack t).ledger = { s.ledger with tasks := s.tasks.erase t } := by
  unfold untrack
  dsimp only
  split <;> rfl

/-- A cancelled task has no exception. -/
theorem exception_of_cancelled {s : GroupState E} {t : TaskId} (h : s.isCancelled t = true) :
    s.exception t = none := by
  unfold isCancelled at h
  split at h
  · next hs => unfold exception; rw [hs]
  · cases h

theorem ledger_report (py : Asyncio E) (s : GroupState E) (t : TaskId) :
    (s.report py t).ledger = { s.ledger with errors := s.errors ++ (s.exception t).toList } := by
  unfold report
  split
  · next h => rw [exception_of_cancelled h]; simp [ledger]
  · split
    · next h => rw [h]; simp [ledger]
    · next exc h =>
      rw [h, ledger_escalate, ledger_noteBaseError]
      rfl

theorem ledger_deliver (py : Asyncio E) (s : GroupState E) (t : TaskId) :
    (s.deliver py t).ledger = s.ledger.deliver t := by
  unfold deliver Ledger.deliver
  split
  · next h =>
    rw [if_pos (show t ∈ s.ledger.scheduled from h)]
    unfold onTaskDone
    rw [ledger_report, exception_eq_ledger, ledger_untrack]
    have herr : ∀ s' : GroupState E, (s'.untrack t).errors = s'.errors :=
      fun s' => congrArg Ledger.errors (ledger_untrack s' t)
    rw [herr]
    rfl
  · next h => rw [if_neg (show t ∉ s.ledger.scheduled from h)]

theorem ledger_complete (s : GroupState E) (t : TaskId) (o : Outcome E) :
    (s.complete t o).ledger = s.ledger.complete t o := by
  cases h : s.statuses[t]? with
  | none => simp only [complete, Ledger.complete, ledger, h]
  | some st => cases st <;> simp only [complete, Ledger.complete, ledger, h]

theorem ledger_addDoneCallback (s : GroupState E) (t : TaskId) :
    (s.addDoneCallback t).ledger =
      if s.isDone t then { s.ledger with scheduled := s.scheduled ++ [t] }
      else { s.ledger with registered := s.registered ++ [t] } := by
  unfold addDoneCallback; split <;> rfl

theorem ledger_track (py : Asyncio E) (s : GroupState E) (t : TaskId) :
    (s.track py t).ledger =
      if s.isDone t then { s.ledger with tasks := insert t s.tasks, scheduled := s.scheduled ++ [t] }
      else { s.ledger with tasks := insert t s.tasks, registered := s.registered ++ [t] } := by
  unfold track
  rw [ledger_addDoneCallback]
  cases py.hasAwaitedBy <;> rfl

theorem ledger_keep (path : Path) (py : Asyncio E) (s : GroupState E) (t : TaskId) :
    (s.keep path py t).ledger =
      if path = .fast ∧ s.succeeded t then s.ledger else (s.track py t).ledger := by
  cases path with
  | fast => cases h : s.succeeded t <;> simp [keep, h]
  | plain => simp [keep]

theorem ledger_handOut (s : GroupState E) (st : TaskStatus E) :
    (s.handOut st).ledger = { s.ledger with statuses := s.statuses ++ [st] } := by
  unfold handOut
  dsimp only
  split <;> rfl

theorem ledger_spawned (path : Path) (py : Asyncio E) (s : GroupState E) (st : TaskStatus E) :
    (s.spawned path py st).ledger = s.ledger.spawned path st := by
  have hl := ledger_handOut s st
  obtain ⟨hdone, hsucc⟩ := status_of_last (congrArg Ledger.statuses hl)
  have htasks : (s.handOut st).tasks = s.tasks := congrArg Ledger.tasks hl
  have hreg : (s.handOut st).registered = s.registered := congrArg Ledger.registered hl
  have hsch : (s.handOut st).scheduled = s.scheduled := congrArg Ledger.scheduled hl
  unfold spawned
  rw [ledger_keep, ledger_track, hdone, hsucc, hl, htasks, hreg, hsch]
  unfold Ledger.spawned ledger
  cases hp : st.isPending <;> simp

/-- A step of the group is a step of its ledger, or leaves the ledger as it is. -/
theorem ledger_step (path : Path) (py : Asyncio E) (s : GroupState E) (e : GroupEvent E) :
    (s.step path py e).ledger = s.ledger ∨ (s.step path py e).ledger = s.ledger.step path e := by
  cases e with
  | enter => exact .inl rfl
  | call => exact .inl (ledger_call s)
  | spawned st =>
    simp only [step]
    split
    · exact .inr (ledger_spawned path py s st)
    · exact .inl rfl
  | complete t o => exact .inr (ledger_complete s t o)
  | deliver t => exact .inr (ledger_deliver py s t)
  | startExit exc => exact .inl (ledger_startExit py s exc)
  | wake => exact .inl (ledger_wake s)
  | abort => exact .inl rfl

/-- The ledger of a group stays sound through every run. -/
theorem run_sound (path : Path) (py : Asyncio E) (parentDone : Bool) (es : List (GroupEvent E)) :
    (EventRun.run (step path py) (init E parentDone) es).ledger.Sound path := by
  refine EventRun.run_inv (I := fun s : GroupState E => s.ledger.Sound path) ?_ ?_ es
  · intro s e h
    rcases ledger_step path py s e with heq | heq <;> rw [heq]
    · exact h
    · exact Ledger.step_sound e h
  · exact ⟨fun t => by simp [Ledger.Kept, ledger, init], rfl⟩

end GroupState

end FerroIo
