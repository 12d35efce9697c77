import FerroIo.GroupExit
import FerroIo.GroupPlain

/- The exit wait of the task group: `while self._tasks: await self._on_completed_fut`.

   The parent sleeps while the future's result is not set (`some false`), and a done
   callback that empties `_tasks` sets it. Nothing sets it twice, and tasks may be added
   while the group exits, so two things could go wrong: the parent sleeps on an empty
   group, or it sleeps on members whose callbacks are gone.

   Main result: `exit_wait_ends`. In no run does either happen, with the fast path as with
   the plain one: a parent that sleeps has members, and each has exactly one callback to
   come. From every state in which the wait has begun, once no more tasks are created,
   every fair schedule of tasks, callbacks and wake-ups ends the wait, with every task
   finished and every failure collected. -/
namespace FerroIo

/-- What still happens to a group in which no more tasks are created. -/
inductive DrainEvent (E : Type) where
  | complete (t : TaskId) (o : Outcome E)
  | deliver (t : TaskId)
  | wake
  deriving Repr

def DrainEvent.event {E : Type} : DrainEvent E → GroupEvent E
  | .complete t o => .complete t o
  | .deliver t => .deliver t
  | .wake => .wake

namespace GroupState
variable {E : Type}

def drain (path : Path) (py : Asyncio E) (s : GroupState E) (e : DrainEvent E) : GroupState E :=
  s.step path py e.event

/-- The parent does not sleep on an empty group. -/
def Awake (s : GroupState E) : Prop := s.onCompletedFut = some false → s.tasks ≠ ∅

/-- The wait is over: the parent has left the loop. -/
def WaitOver (s : GroupState E) : Prop := s.onCompletedFut = none ∧ s.tasks = ∅

/-! ## The future in every step -/

section
variable (py : Asyncio E) (s : GroupState E) (t : TaskId)

theorem fut_noteBaseError (exc : E) :
    (s.noteBaseError py exc).onCompletedFut = s.onCompletedFut := by
  unfold noteBaseError; split <;> rfl

theorem fut_escalate : (s.escalate t).onCompletedFut = s.onCompletedFut := by
  unfold escalate
  split
  · rfl
  · split <;> rfl

theorem fut_report : (s.report py t).onCompletedFut = s.onCompletedFut := by
  unfold report
  split
  · rfl
  · split
    · rfl
    · rw [fut_escalate, fut_noteBaseError]

theorem fut_untrack : (s.untrack t).onCompletedFut =
    if s.onCompletedFut.isSome && s.tasks.erase t = ∅ then some true else s.onCompletedFut := by
  unfold untrack
  dsimp only
  split <;> rfl

theorem fut_waitForTasks : s.waitForTasks.onCompletedFut =
    if s.tasks ≠ ∅ ∧ s.onCompletedFut = none then some false else s.onCompletedFut := by
  unfold waitForTasks
  split <;> rfl

theorem tasks_waitForTasks : s.waitForTasks.tasks = s.tasks :=
  congrArg Ledger.tasks (ledger_waitForTasks s)

end

section
variable {path : Path} {py : Asyncio E} {s : GroupState E}

theorem awake_waitForTasks (h : s.Awake) : s.waitForTasks.Awake := by
  intro hfut
  rw [fut_waitForTasks] at hfut
  rw [tasks_waitForTasks]
  split at hfut
  · next hwait => exact hwait.1
  · exact h hfut

theorem awake_of_none (h : s.onCompletedFut = none) : s.Awake := by
  intro hfut
  rw [h] at hfut
  cases hfut

theorem tasks_deliver {t : TaskId} (ht : t ∈ s.scheduled) :
    (s.deliver py t).tasks = s.tasks.erase t := by
  calc (s.deliver py t).tasks
      = (s.ledger.deliver t).tasks := congrArg Ledger.tasks (ledger_deliver py s t)
    _ = s.tasks.erase t := by
      rw [Ledger.deliver, if_pos (show t ∈ s.ledger.scheduled from ht)]
      rfl

/-- A callback that empties the group sets the result the parent waits for. -/
theorem fut_deliver {t : TaskId} (ht : t ∈ s.scheduled) : (s.deliver py t).onCompletedFut =
    if s.onCompletedFut.isSome && s.tasks.erase t = ∅ then some true else s.onCompletedFut := by
  rw [deliver, if_pos ht, onTaskDone, fut_report, fut_untrack]

theorem awake_deliver (h : s.Awake) (t : TaskId) : (s.deliver py t).Awake := by
  by_cases ht : t ∈ s.scheduled
  · intro hfut hempty
    rw [tasks_deliver ht] at hempty
    rw [fut_deliver ht, decide_eq_true hempty, Bool.and_true] at hfut
    cases hs : s.onCompletedFut <;> simp [hs] at hfut
  · rw [deliver, if_neg ht]
    exact h

theorem awake_spawned (h : s.Awake) (st : TaskStatus E) : (s.spawned path py st).Awake := by
  have hhand : (s.handOut st).Awake := by
    rw [handOut_eq]
    exact h
  unfold spawned keep
  have htrack : ((s.handOut st).track py s.statuses.length).Awake := by
    rw [track_eq]
    exact fun _ => Finset.insert_ne_empty _ _
  cases path with
  | fast =>
    dsimp only
    split
    · exact hhand
    · exact htrack
  | plain => exact htrack

theorem awake_startExit (h : s.Awake) (exc : Option E) : (s.startExit py exc).Awake := by
  unfold startExit
  apply awake_waitForTasks
  cases exc with
  | none => exact h
  | some e =>
    have hnote : ({ s with exiting := true }.noteBaseError py e).Awake := by
      intro hfut
      rw [fut_noteBaseError] at hfut
      rw [show (GroupState.noteBaseError py { s with exiting := true } e).tasks = s.tasks from
        congrArg Ledger.tasks (ledger_noteBaseError py _ e)]
      exact h hfut
    dsimp only
    split
    · exact hnote
    · exact hnote

theorem awake_wake (h : s.Awake) : s.wake.Awake := by
  unfold wake
  split
  · exact awake_waitForTasks (awake_of_none rfl)
  · exact h

theorem awake_step (h : s.Awake) (e : GroupEvent E) : (s.step path py e).Awake := by
  cases e with
  | enter => exact h
  | call =>
    simp only [step, call]
    split <;> exact h
  | spawned st =>
    simp only [step]
    split
    · exact awake_spawned h st
    · exact h
  | complete t o =>
    simp only [step, complete]
    split <;> exact h
  | deliver t => exact awake_deliver h t
  | startExit exc => exact awake_startExit h exc
  | wake => exact awake_wake h
  | abort => exact h

end

theorem awake_run (path : Path) (py : Asyncio E) (parentDone : Bool) (es : List (GroupEvent E)) :
    (EventRun.run (step path py) (init E parentDone) es).Awake :=
  EventRun.run_inv (I := Awake) (fun _ e h => awake_step h e)
    (awake_of_none (s := init E parentDone) rfl) es

/-! ## Every drain step that does something lowers a measure -/

/-- Steps still to come, at most: a pending task ends and its callback runs, and the
parent wakes. -/
def toCome (s : GroupState E) : ℕ :=
  4 * s.statuses.countP TaskStatus.isPending + 2 * s.scheduled.length +
    if s.onCompletedFut = some true then 1 else 0

section
variable {path : Path} {py : Asyncio E} {s : GroupState E} {t : TaskId}

theorem length_filter_beq (ts : List TaskId) (t : TaskId) :
    (ts.filter (· == t)).length = ts.count t := by
  rw [List.count, List.countP_eq_length_filter]

theorem toCome_complete (h : s.ledger.Sound path) (o : Outcome E)
    (ht : s.statuses[t]? = some .pending) : (s.complete t o).toCome < s.toCome := by
  obtain ⟨-, hreg, -, -⟩ := Ledger.kept_of_pending (h.kept t) ht
  have hlt : t < s.statuses.length := (List.getElem?_eq_some_iff.mp ht).1
  have hget : s.statuses[t] = .pending := (List.getElem?_eq_some_iff.mp ht).2
  have hpos : 0 < s.statuses.countP TaskStatus.isPending :=
    List.countP_pos_iff.mpr ⟨.pending, List.mem_of_getElem? ht, rfl⟩
  have hcount := List.countP_set (p := TaskStatus.isPending) (a := .done o) hlt
  simp only [hget, TaskStatus.isPending, if_true, Bool.false_eq_true, if_false] at hcount
  have hone : (s.registered.filter (· == t)).length = 1 := by
    rw [length_filter_beq]
    exact hreg
  simp only [toCome, complete, ht, List.length_append, hone]
  change 4 * (s.statuses.set t (.done o)).countP TaskStatus.isPending + _ + _ < _
  omega

theorem toCome_deliver (ht : t ∈ s.scheduled) : (s.deliver py t).toCome < s.toCome := by
  have hledger := ledger_deliver py s t
  have hstatuses : (s.deliver py t).statuses = s.statuses := by
    rw [show (s.deliver py t).statuses = (s.ledger.deliver t).statuses from
      congrArg Ledger.statuses hledger, Ledger.deliver,
      if_pos (show t ∈ s.ledger.scheduled from ht)]
    rfl
  have hscheduled : (s.deliver py t).scheduled = s.scheduled.erase t := by
    rw [show (s.deliver py t).scheduled = (s.ledger.deliver t).scheduled from
      congrArg Ledger.scheduled hledger, Ledger.deliver,
      if_pos (show t ∈ s.ledger.scheduled from ht)]
    rfl
  have hlength := List.length_erase_of_mem ht
  have hpos := List.length_pos_of_mem ht
  simp only [toCome, hstatuses, hscheduled]
  split <;> split <;> omega

theorem wake_of_some_false (hfut : s.onCompletedFut = some false) (htasks : s.tasks ≠ ∅) :
    s.wake = s := by
  obtain ⟨b, hb⟩ := wake_eq s
  have hsame : s.wake.onCompletedFut = s.onCompletedFut := by
    simp only [wake, hfut, Option.isSome_some, if_true, fut_waitForTasks]
    rw [if_pos ⟨htasks, trivial⟩]
  rw [hb] at hsame ⊢
  have hb' : b = s.onCompletedFut := hsame
  rw [hb']

theorem toCome_wake (hfut : s.onCompletedFut = some true) : s.wake.toCome < s.toCome := by
  obtain ⟨b, hb⟩ := wake_eq s
  have hnot : s.wake.onCompletedFut ≠ some true := by
    simp only [wake, hfut, Option.isSome_some, if_true, fut_waitForTasks]
    split <;> simp
  rw [hb] at hnot ⊢
  have hb' : b ≠ some true := hnot
  simp only [toCome, hfut, if_true, if_neg hb']
  omega

/-! ## The wait ends -/

/-- A group whose exit wait has begun. -/
structure Draining (path : Path) (s : GroupState E) : Prop where
  sound : s.ledger.Sound path
  awake : s.Awake
  begun : s.onCompletedFut.isSome ∨ s.tasks = ∅

theorem drain_toCome (h : s.Draining path) (e : DrainEvent E) :
    s.drain path py e = s ∨ (s.drain path py e).toCome < s.toCome := by
  cases e with
  | complete t o =>
    by_cases ht : s.statuses[t]? = some .pending
    · exact .inr (toCome_complete h.sound o ht)
    · left
      simp only [drain, DrainEvent.event, step, complete]
  | deliver t =>
    by_cases ht : t ∈ s.scheduled
    · exact .inr (toCome_deliver ht)
    · exact .inl (if_neg ht)
  | wake =>
    cases hfut : s.onCompletedFut with
    | none =>
      refine .inl ?_
      simp only [drain, DrainEvent.event, step, wake, hfut, Option.isSome_none,
        Bool.false_eq_true, if_false]
    | some b =>
      cases b with
      | true => exact .inr (toCome_wake hfut)
      | false => exact .inl (wake_of_some_false hfut (h.awake hfut))

theorem drain_keeps (h : s.Draining path) (e : DrainEvent E) :
    (s.drain path py e).Draining path := by
  refine ⟨sound_step path py h.sound e.event, awake_step h.awake e.event, ?_⟩
  cases e with
  | complete t o =>
    simp only [drain, DrainEvent.event, step, complete]
    split <;> exact h.begun
  | deliver t =>
    by_cases ht : t ∈ s.scheduled
    · simp only [drain, DrainEvent.event, step, tasks_deliver ht, fut_deliver ht]
      refine h.begun.imp (fun hfut => ?_) (fun htasks => by rw [htasks]; rfl)
      split
      · rfl
      · exact hfut
    · simp only [drain, DrainEvent.event, step, deliver, if_neg ht]
      exact h.begun
  | wake =>
    simp only [drain, DrainEvent.event, step, wake]
    split
    · rw [fut_waitForTasks, tasks_waitForTasks]
      by_cases htasks : s.tasks = ∅
      · exact .inr htasks
      · exact .inl (by simp [htasks])
    · exact h.begun

/-- Until the wait is over, a member can end, a callback can run, or the parent can wake. -/
theorem drain_progress (h : s.Draining path) (hover : ¬ s.WaitOver) :
    ∃ e, s.drain path py e ≠ s := by
  have hact : ∀ {s' : GroupState E}, s'.toCome < s.toCome → s' ≠ s := by
    rintro s' hlower rfl
    exact Nat.lt_irrefl _ hlower
  by_cases htasks : s.tasks = ∅
  · cases hfut : s.onCompletedFut with
    | none => exact absurd ⟨hfut, htasks⟩ hover
    | some b =>
      cases b with
      | false => exact absurd htasks (h.awake hfut)
      | true => exact ⟨.wake, hact (toCome_wake hfut)⟩
  · obtain ⟨t, ht⟩ := Finset.nonempty_iff_ne_empty.mpr htasks
    have hk := h.sound.kept t
    simp only [Ledger.Kept, ledger] at hk
    cases hst : s.statuses[t]? with
    | none =>
      rw [hst] at hk
      exact absurd ht hk.1
    | some st =>
      rw [hst] at hk
      cases st with
      | pending => exact ⟨.complete t .value, hact (toCome_complete h.sound .value hst)⟩
      | done o =>
        -- a member that is done has its callback scheduled
        obtain ⟨-, ⟨-, hs, -⟩ | ⟨hm, -⟩ | ⟨hm, -⟩⟩ := hk
        · have hmem : t ∈ s.scheduled := List.count_pos_iff.mp (by omega)
          exact ⟨.deliver t, hact (toCome_deliver hmem)⟩
        · exact absurd ht hm
        · exact absurd ht hm

end

/-- A parent that sleeps has members, each with one callback to come; and once no more
tasks are created, every fair schedule ends a wait that has begun, with every task
finished and every failure collected. -/
theorem exit_wait_ends (path : Path) (py : Asyncio E) (parentDone : Bool)
    (es : List (GroupEvent E)) :
    let s := EventRun.run (step path py) (init E parentDone) es
    (s.onCompletedFut = some false →
      s.tasks ≠ ∅ ∧ ∀ t ∈ s.tasks, s.callbacks t = 1 ∧ s.ran.count t = 0) ∧
    (s.onCompletedFut.isSome → ∀ schedule, EventRun.Fair (drain path py) s schedule →
      ∃ n, let s' := EventRun.after (drain path py) s schedule n
        s'.WaitOver ∧ ∀ t < s'.statuses.length,
          s'.isDone t = true ∧ ∀ exc, s'.exception t = some exc → exc ∈ s'.errors) := by
  intro s
  have hsound : s.ledger.Sound path := run_sound path py parentDone es
  have hawake : s.Awake := awake_run path py parentDone es
  refine ⟨fun hfut => ⟨hawake hfut, fun t ht => ?_⟩, fun hbegun schedule hfair => ?_⟩
  · have hk := hsound.kept t
    simp only [Ledger.Kept, ledger] at hk
    cases hst : s.statuses[t]? with
    | none =>
      rw [hst] at hk
      exact absurd ht hk.1
    | some st =>
      rw [hst] at hk
      cases st with
      | pending =>
        obtain ⟨-, hr, hs, hn⟩ := hk
        exact ⟨by simp only [callbacks]; omega, hn⟩
      | done o =>
        obtain ⟨hr, ⟨-, hs, hn⟩ | ⟨hm, -⟩ | ⟨hm, -⟩⟩ := hk
        · exact ⟨by simp only [callbacks]; omega, hn⟩
        · exact absurd ht hm
        · exact absurd ht hm
  · have hdraining : s.Draining path := ⟨hsound, hawake, .inl hbegun⟩
    obtain ⟨n, hover⟩ := EventRun.eventually_of_fair (I := Draining path) (P := WaitOver)
      (fun _ e h => drain_keeps h e) (fun _ e h => drain_toCome h e)
      (fun _ h hP => drain_progress h hP) hdraining hfair
    have hend : Draining path (EventRun.after (drain path py) s schedule n) :=
      EventRun.after_inv (I := Draining path) (fun _ e h => drain_keeps h e) hdraining schedule n
    refine ⟨n, hover, fun t ht => finished_of_not_member hend.sound ht ?_⟩
    rw [hover.2]
    exact Finset.notMem_empty t

/-- A group that exits with one pending member. -/
def exitingGroup : GroupState Nat :=
  EventRun.run (step .fast { hasAwaitedBy := true, isBaseError := fun _ => false })
    (init Nat false) [.enter, .call, .spawned .pending, .startExit none]

/-- Its wait ends under some schedule, and under every fair one. -/
theorem exit_wait_ends_pending : ∃ schedule,
    EventRun.Fair (drain .fast { hasAwaitedBy := true, isBaseError := fun _ => false })
      exitingGroup schedule ∧
    ∃ n, (EventRun.after (drain .fast { hasAwaitedBy := true, isBaseError := fun _ => false })
      exitingGroup schedule n).WaitOver := by
  have : Nonempty (DrainEvent Nat) := ⟨.wake⟩
  obtain ⟨schedule, hfair⟩ := EventRun.exists_fair
    (drain .fast { hasAwaitedBy := true, isBaseError := fun _ => false }) exitingGroup
  obtain ⟨n, hover, -⟩ := (exit_wait_ends .fast
    { hasAwaitedBy := true, isBaseError := fun _ => false } false
    [.enter, .call, .spawned .pending, .startExit none]).2 (by decide) schedule hfair
  exact ⟨schedule, hfair, n, hover⟩

end GroupState
end FerroIo
