import FerroIo.EventRun
import FerroIo.RunCoroutine
import Mathlib.Tactic.Tauto

/- The tasks of one `run` call: what `run_coroutine` does with those that are still
   pending when the main coroutine ends.

   A schedule is the list of the steps that create, cancel and end tasks, in the
   order they happen; a task that ends before `create_task` returns is a `spawn`
   followed at once by its `finish`. The result of the main task reaches the driver
   over a thread of the Tokio runtime, so the loop goes on after the end of that task,
   for any number of steps (`lag`). `loop.close()` then takes none, and the rest of
   the schedule never happens.

   Main result: `no_task_left_iff`. When `run_coroutine` has returned, no task is left
   exactly when each task spawned before the driver stopped also ended before that,
   and the program itself had cancelled those that outlasted the main coroutine.
   `run_coroutine` cancels and awaits none of them. -/
namespace FerroIo

variable {K E V : Type}

structure LoopTask (E V : Type) where
  result : Option (Except E V)
  cancelRequested : Bool

/-- A loop: its tasks, by name, and whether it has been closed. -/
structure EventLoop (K E V : Type) where
  tasks : K → Option (LoopTask E V)
  closed : Bool

/-- Who spawns or cancels a task is left open: the main task, a task it spawned, or
    a callback of the loop. -/
inductive LoopEvent (K E V : Type) where
  | spawn (task : K)
  | cancel (task : K)
  | finish (task : K) (result : Except E V)

def LoopTask.pending : LoopTask E V := { result := none, cancelRequested := false }

/-- The task exists and has not ended. -/
def EventLoop.Pending (loop : EventLoop K E V) (k : K) : Prop :=
  ∃ t, loop.tasks k = some t ∧ t.result = none

/-- A step can happen: a spawned task is a new one, and a task ends once. -/
def Enabled (loop : EventLoop K E V) : LoopEvent K E V → Prop
  | .spawn task => loop.tasks task = none
  | .cancel _ => True
  | .finish task _ => loop.Pending task

def EventLoop.resultOf (loop : EventLoop K E V) (k : K) : Option (Except E V) :=
  (loop.tasks k).bind LoopTask.result

theorem resultOf_eq_none {loop : EventLoop K E V} {k : K} (h : loop.Pending k) :
    loop.resultOf k = none := by
  obtain ⟨t, ht, hpending⟩ := h
  simp [EventLoop.resultOf, ht, hpending]

/-- Every task made on the loop has ended, those still pending when the main
    coroutine did after a cancellation. -/
structure NoTaskLeft (atEnd after : EventLoop K E V) : Prop where
  finished : ∀ k t, after.tasks k = some t → t.result ≠ none
  cancelled : ∀ k, atEnd.Pending k →
    ∃ t, after.tasks k = some t ∧ t.cancelRequested = true ∧ t.result ≠ none

/-- The task has been sent a cancellation while it was pending. -/
def EventLoop.Cancelled (loop : EventLoop K E V) (k : K) : Prop :=
  ∃ t, loop.tasks k = some t ∧ t.cancelRequested = true

theorem noTaskLeft_iff (atEnd stopped : EventLoop K E V) :
    NoTaskLeft atEnd { stopped with closed := true } ↔
      (∀ k, ¬ stopped.Pending k) ∧ ∀ k, atEnd.Pending k → stopped.Cancelled k := by
  constructor
  · intro h
    refine ⟨fun k ⟨t, ht, hpending⟩ => h.finished k t ht hpending, fun k hk => ?_⟩
    obtain ⟨t, ht, hcancel, _⟩ := h.cancelled k hk
    exact ⟨t, ht, hcancel⟩
  · intro ⟨hnone, hcancelled⟩
    refine ⟨fun k t ht hpending => hnone k ⟨t, ht, hpending⟩, fun k hk => ?_⟩
    obtain ⟨t, ht, hcancel⟩ := hcancelled k hk
    exact ⟨t, ht, hcancel, fun hpending => hnone k ⟨t, ht, hpending⟩⟩

section
variable [DecidableEq K]

def EventLoop.set (loop : EventLoop K E V) (k : K) (t : LoopTask E V) : EventLoop K E V :=
  { loop with tasks := Function.update loop.tasks k (some t) }

def EventLoop.step (loop : EventLoop K E V) : LoopEvent K E V → EventLoop K E V
  | .spawn task => loop.set task .pending
  | .cancel task => match loop.tasks task with
    | some t =>
      -- `cancel` does nothing to a task that is done
      if t.result.isNone then loop.set task { t with cancelRequested := true } else loop
    | none => loop
  | .finish task result => match loop.tasks task with
    | some t => loop.set task { t with result := some result }
    | none => loop

/-- `run_until_complete`: the loop runs until the result of `fut` is back, which takes
    it up to `lag` steps more than the task needs, and does not return if the task
    never ends. -/
def drive (lag : Nat) (fut : K) : List (LoopEvent K E V) → EventLoop K E V →
    Option (Except E V × EventLoop K E V)
  | [], loop => match loop.resultOf fut with
    | some result => some (result, loop)
    | none => none
  | e :: schedule, loop => match loop.resultOf fut with
    | some result => some (result, EventRun.run EventLoop.step loop ((e :: schedule).take lag))
    | none => drive lag fut schedule (loop.step e)

/-- A new loop with the main task on it. -/
def EventLoop.started (main : K) : EventLoop K E V :=
  EventLoop.set { tasks := fun _ => none, closed := false } main .pending

/-- The steps of `run_coroutine` on the tasks. A coroutine goes by the name of the task
    that `into_future_with_locals` makes for it, and so does its future; `close` runs no
    task. -/
def taskApi (lag : Nat) (schedule : List (LoopEvent K E V)) :
    LoopApi (StateT (EventLoop K E V) Option) Unit Unit K K E V where
  importAsyncio loop := some (.ok (), loop)
  newEventLoop _ := some (.ok (), { tasks := fun _ => none, closed := false })
  setEventLoop _ loop := some (.ok (), loop)
  copyContext _ loop := some (.ok (), loop)
  intoFuture _ coro loop := some (.ok coro, loop.set coro .pending)
  runUntilComplete _ fut loop := drive lag fut schedule loop
  close _ loop := some (.ok (), { loop with closed := true })

theorem bind_run_option {W A B : Type} (x : ExceptT E (StateT W Option) A)
    (f : A → ExceptT E (StateT W Option) B) (w : W) : (x >>= f) w = (x w).bind fun p =>
      match p with
      | (.ok a, w) => f a w
      | (.error e, w) => some (.error e, w) := by
  simp only [bind, ExceptT.bind, ExceptT.mk, StateT.bind]
  cases x w with
  | none => rfl
  | some p =>
    obtain ⟨result, w'⟩ := p
    cases result <;> rfl

theorem lift_run_option {W A : Type} (x : StateT W Option A) (w : W) :
    (ExceptT.lift x : ExceptT E (StateT W Option) A) w = (x w).map fun p => (.ok p.1, p.2) := by
  simp only [ExceptT.lift, ExceptT.mk, Functor.map, StateT.map]
  cases x w <;> rfl

/-- `run_coroutine` is the driver, and then `close`. -/
theorem runCoroutine_taskApi (lag : Nat) (main : K) (schedule : List (LoopEvent K E V))
    (before : EventLoop K E V) : runCoroutine (taskApi lag schedule) main before =
      (drive lag main schedule (.started main)).map fun p =>
        (p.1, { p.2 with closed := true }) := by
  have hfinal : ∀ (r : Except E V) (loop : EventLoop K E V),
      (ExceptT.mk (pure r) : ExceptT E (StateT (EventLoop K E V) Option) V) loop =
        some (r, loop) := fun _ _ => rfl
  simp only [runCoroutine, taskApi, bind_run_option, lift_run_option, ExceptT.run, hfinal,
    Option.bind_some, Option.map_some, EventLoop.started]
  cases drive lag main schedule (EventLoop.set { tasks := fun _ => none, closed := false } main
    .pending) <;> rfl

/-! ## What a schedule does to the tasks -/

theorem tasks_set (loop : EventLoop K E V) (k j : K) (t : LoopTask E V) :
    (loop.set k t).tasks j = if j = k then some t else loop.tasks j := by
  by_cases h : j = k
  · subst h
    simp [EventLoop.set]
  · simp [EventLoop.set, h]

/-- A task is never removed. -/
theorem exists_step {loop : EventLoop K E V} {k : K} (h : loop.tasks k ≠ none)
    (e : LoopEvent K E V) : (loop.step e).tasks k ≠ none := by
  cases e with
  | spawn task =>
    simp only [EventLoop.step, tasks_set]
    split
    · simp
    · exact h
  | cancel task =>
    simp only [EventLoop.step]
    split
    · split
      · rw [tasks_set]
        split
        · simp
        · exact h
      · exact h
    · exact h
  | finish task result =>
    simp only [EventLoop.step]
    split
    · rw [tasks_set]
      split
      · simp
      · exact h
    · exact h

/-- The names of spawned tasks are new. -/
theorem not_respawned {loop : EventLoop K E V} {k : K} (h : loop.tasks k ≠ none)
    {es : List (LoopEvent K E V)} (hes : EventRun.Meets EventLoop.step Enabled loop es) :
    .spawn k ∉ es := by
  induction es generalizing loop with
  | nil => exact List.not_mem_nil
  | cons e es ih =>
    intro hm
    rcases List.mem_cons.mp hm with heq | hm
    · rw [← heq] at hes
      exact h hes.1
    · exact ih (exists_step h e) hes.2 hm

theorem pending_set (loop : EventLoop K E V) (k j : K) (t : LoopTask E V) :
    (loop.set k t).Pending j ↔ if j = k then t.result = none else loop.Pending j := by
  simp only [EventLoop.Pending, tasks_set]
  split <;> simp

/-- Which tasks are pending after one step that can happen. -/
theorem pending_step {loop : EventLoop K E V} {e : LoopEvent K E V} (he : Enabled loop e) (k : K) :
    (loop.step e).Pending k ↔
      (loop.Pending k ∨ e = .spawn k) ∧ ∀ result, e ≠ .finish k result := by
  cases e with
  | spawn task =>
    simp only [EventLoop.step, pending_set]
    by_cases hk : k = task
    · simp [hk, LoopTask.pending]
    · simp [hk, Ne.symm hk]
  | cancel task =>
    have hstep : (loop.step (.cancel task)).Pending k ↔ loop.Pending k := by
      simp only [EventLoop.step]
      cases ht : loop.tasks task with
      | none => exact Iff.rfl
      | some t =>
        dsimp only
        split
        · rw [pending_set]
          split
          · next hk => simp [hk, EventLoop.Pending, ht]
          · exact Iff.rfl
        · exact Iff.rfl
    simp [hstep]
  | finish task result =>
    obtain ⟨t, ht, _⟩ := he
    simp only [EventLoop.step, ht, pending_set]
    by_cases hk : k = task
    · simp [hk]
    · simp [hk, Ne.symm hk]

/-- Which tasks are pending after a schedule: those it spawns, and those pending at
    its start, that it does not finish. -/
theorem pending_run {loop : EventLoop K E V} {es : List (LoopEvent K E V)}
    (hes : EventRun.Meets EventLoop.step Enabled loop es) (k : K) :
    (EventRun.run EventLoop.step loop es).Pending k ↔
      (loop.Pending k ∨ .spawn k ∈ es) ∧ ∀ result, .finish k result ∉ es := by
  induction es generalizing loop with
  | nil => simp
  | cons e es ih =>
    -- a task that ends in this step exists, so it is not spawned later
    have hlater : .spawn k ∈ es → ∀ result, e ≠ .finish k result := by
      intro hm result heq
      have hexists : loop.tasks k ≠ none := by
        have hpending : loop.Pending k := by
          have he := hes.1
          rw [heq] at he
          exact he
        obtain ⟨t, ht, _⟩ := hpending
        simp [ht]
      exact not_respawned (exists_step hexists e) hes.2 hm
    rw [EventRun.run_cons, ih hes.2, pending_step hes.1]
    simp only [List.mem_cons, not_or, forall_and]
    have hsymm : (∀ result, e ≠ .finish k result) ↔ ∀ result, ¬ LoopEvent.finish k result = e :=
      forall_congr' fun _ => not_congr eq_comm
    rw [← hsymm, eq_comm (a := LoopEvent.spawn k)]
    tauto

/-! ### Cancellations -/

/-- The program cancels the task while it is pending. -/
def CancelSent (k : K) (es : List (LoopEvent K E V)) : Prop :=
  ∃ earlier later, es = earlier ++ .cancel k :: later ∧ .spawn k ∈ earlier ∧
    ∀ result, .finish k result ∉ earlier

theorem cancelled_set (loop : EventLoop K E V) (k j : K) (t : LoopTask E V) :
    (loop.set k t).Cancelled j ↔ if j = k then t.cancelRequested = true else loop.Cancelled j := by
  simp only [EventLoop.Cancelled, tasks_set]
  split <;> simp

/-- A task is cancelled by a step that cancels it while it is pending, and stays so. -/
theorem cancelled_step {loop : EventLoop K E V} {e : LoopEvent K E V} (he : Enabled loop e)
    (k : K) :
    (loop.step e).Cancelled k ↔ loop.Cancelled k ∨ e = .cancel k ∧ loop.Pending k := by
  cases e with
  | spawn task =>
    have hnew : loop.tasks task = none := he
    simp only [EventLoop.step, cancelled_set]
    by_cases hk : k = task
    · simp [hk, EventLoop.Cancelled, hnew, LoopTask.pending]
    · simp [hk]
  | cancel task =>
    simp only [EventLoop.step]
    cases ht : loop.tasks task with
    | none =>
      by_cases hk : task = k
      · simp [EventLoop.Pending, ← hk, ht]
      · simp [hk]
    | some t =>
      cases hresult : t.result with
      | none =>
        simp only [hresult, Option.isNone_none, if_true, cancelled_set]
        by_cases hk : k = task
        · simp [hk, EventLoop.Pending, ht, hresult]
        · simp [hk, Ne.symm hk]
      | some r =>
        by_cases hk : task = k
        · simp [EventLoop.Pending, ← hk, ht, hresult]
        · simp [hk, hresult]
  | finish task result =>
    obtain ⟨t, ht, _⟩ := he
    simp only [EventLoop.step, ht, cancelled_set]
    by_cases hk : k = task
    · simp [hk, EventLoop.Cancelled, ht]
    · simp [hk]

theorem cancelled_run {loop : EventLoop K E V} {es : List (LoopEvent K E V)}
    (hes : EventRun.Meets EventLoop.step Enabled loop es) (k : K) :
    (EventRun.run EventLoop.step loop es).Cancelled k ↔ loop.Cancelled k ∨
      ∃ earlier later, es = earlier ++ .cancel k :: later ∧
        (EventRun.run EventLoop.step loop earlier).Pending k := by
  induction es generalizing loop with
  | nil => simp
  | cons e es ih =>
    rw [EventRun.run_cons, ih hes.2, cancelled_step hes.1, or_assoc]
    refine or_congr_right ⟨?_, ?_⟩
    · rintro (⟨rfl, hpending⟩ | ⟨earlier, later, rfl, hpending⟩)
      · exact ⟨[], es, rfl, hpending⟩
      · exact ⟨e :: earlier, later, rfl, hpending⟩
    · rintro ⟨earlier, later, heq, hpending⟩
      cases earlier with
      | nil =>
        obtain ⟨rfl, rfl⟩ := List.cons.inj heq
        exact .inl ⟨rfl, hpending⟩
      | cons a earlier =>
        obtain ⟨rfl, rfl⟩ := List.cons.inj heq
        exact .inr ⟨earlier, later, rfl, hpending⟩

/-! ## What is left when the driver stops -/

theorem drive_done (lag : Nat) {main : K} {loop : EventLoop K E V} {result : Except E V}
    (h : loop.resultOf main = some result) (schedule : List (LoopEvent K E V)) :
    drive lag main schedule loop =
      some (result, EventRun.run EventLoop.step loop (schedule.take lag)) := by
  cases schedule <;> simp [drive, h]

/-- The driver goes to the step that ends the main task, and up to `lag` steps on. -/
theorem drive_eq (lag : Nat) {main : K} {loop : EventLoop K E V} (hmain : loop.Pending main)
    {pre : List (LoopEvent K E V)} (hpre : EventRun.Meets EventLoop.step Enabled loop pre)
    (hnot : ∀ result, .finish main result ∉ pre) (result : Except E V)
    (post : List (LoopEvent K E V)) :
    drive lag main (pre ++ .finish main result :: post) loop = some (result,
      EventRun.run EventLoop.step loop (pre ++ .finish main result :: post.take lag)) := by
  induction pre generalizing loop with
  | nil =>
    obtain ⟨t, ht, hpending⟩ := hmain
    have hdone : (loop.step (.finish main result)).resultOf main = some result := by
      simp [EventLoop.step, EventLoop.resultOf, ht, tasks_set]
    have hnone : loop.resultOf main = none := resultOf_eq_none ⟨t, ht, hpending⟩
    simp only [List.nil_append, drive, hnone, EventRun.run_cons]
    exact drive_done lag hdone post
  | cons e pre ih =>
    have hstep : (loop.step e).Pending main := by
      rw [pending_step hpre.1]
      exact ⟨.inl hmain, fun r heq => hnot r (heq ▸ List.mem_cons_self)⟩
    simp only [List.cons_append, drive, resultOf_eq_none hmain, EventRun.run_cons]
    exact ih hstep hpre.2 fun r hm => hnot r (List.mem_cons_of_mem _ hm)

theorem started_pending (main k : K) :
    (EventLoop.started main : EventLoop K E V).Pending k ↔ k = main := by
  simp only [EventLoop.started, pending_set]
  split
  · next h => simp [h, LoopTask.pending]
  · next h => simp [h, EventLoop.Pending]

theorem started_not_cancelled (main k : K) :
    ¬ (EventLoop.started main : EventLoop K E V).Cancelled k := by
  simp only [EventLoop.started, cancelled_set]
  split
  · simp [LoopTask.pending]
  · simp [EventLoop.Cancelled]

section
variable {main k : K} {es : List (LoopEvent K E V)}

theorem spawned_ne_main (hes : EventRun.Meets EventLoop.step Enabled (.started main) es)
    (h : .spawn k ∈ es) : k ≠ main := by
  rintro rfl
  refine not_respawned ?_ hes h
  simp [EventLoop.started, tasks_set]

/-- Apart from the main task, those are pending that were spawned and did not end. -/
theorem pending_spawned (hes : EventRun.Meets EventLoop.step Enabled (.started main) es)
    (hk : k ≠ main) :
    (EventRun.run EventLoop.step (.started main) es).Pending k ↔
      .spawn k ∈ es ∧ ∀ result, .finish k result ∉ es := by
  rw [pending_run hes, started_pending]
  simp [hk]

theorem cancelled_spawned (hes : EventRun.Meets EventLoop.step Enabled (.started main) es)
    (hk : k ≠ main) :
    (EventRun.run EventLoop.step (.started main) es).Cancelled k ↔ CancelSent k es := by
  rw [cancelled_run hes, or_iff_right (started_not_cancelled main k)]
  refine exists_congr fun earlier => exists_congr fun later => and_congr_right fun heq => ?_
  rw [heq] at hes
  exact pending_spawned (EventRun.meets_append.mp hes).1 hk

/-- At the end of the main task: those that were spawned before and have not ended. -/
theorem pending_atEnd {result : Except E V}
    (hes : EventRun.Meets EventLoop.step Enabled (.started main) (es ++ [.finish main result]))
    (k : K) :
    (EventRun.run EventLoop.step (.started main) (es ++ [.finish main result])).Pending k ↔
      .spawn k ∈ es ∧ ∀ r, .finish k r ∉ es := by
  by_cases hk : k = main
  · subst hk
    have hbefore := (EventRun.meets_append.mp hes).1
    refine iff_of_false ?_ fun h => spawned_ne_main hbefore h.1 rfl
    rw [pending_run hes]
    exact fun h => h.2 result (List.mem_append_right _ List.mem_cons_self)
  · rw [pending_spawned hes hk]
    simp [hk]

end

/-- When `run_coroutine` leaves no task behind. -/
theorem no_task_left_iff (lag : Nat) (main : K) (before : EventLoop K E V)
    (pre post : List (LoopEvent K E V)) (result : Except E V)
    (hdriven : EventRun.Meets EventLoop.step Enabled (.started main)
      (pre ++ .finish main result :: post.take lag)) :
    let driven := pre ++ .finish main result :: post.take lag
    let atEnd := EventRun.run EventLoop.step (.started main) (pre ++ [.finish main result])
    ∃ after, runCoroutine (taskApi lag (pre ++ .finish main result :: post)) main before =
        some (result, after) ∧ after.closed = true ∧
      (NoTaskLeft atEnd after ↔
        (∀ k, .spawn k ∈ driven → ∃ r, .finish k r ∈ driven) ∧
        ∀ k, .spawn k ∈ pre → (∀ r, .finish k r ∉ pre) → CancelSent k driven) := by
  intro driven atEnd
  obtain ⟨hpre, hlast, hpost⟩ := EventRun.meets_append.mp hdriven
  have hstarted : (EventLoop.started main : EventLoop K E V).Pending main :=
    (started_pending main main).mpr rfl
  have hmain : ∀ r, .finish main r ∉ pre := ((pending_run hpre main).mp hlast).2
  refine ⟨{ EventRun.run EventLoop.step (.started main) driven with closed := true }, ?_, rfl, ?_⟩
  · rw [runCoroutine_taskApi, drive_eq lag hstarted hpre hmain]
    rfl
  · have hnotMain : ¬ (EventRun.run EventLoop.step (.started main) driven).Pending main := by
      rw [pending_run hdriven]
      exact fun h => h.2 result (List.mem_append_right _ List.mem_cons_self)
    have hend : EventRun.Meets EventLoop.step Enabled (.started main)
        (pre ++ [.finish main result]) := EventRun.meets_append.mpr ⟨hpre, hlast, trivial⟩
    rw [noTaskLeft_iff]
    refine and_congr ⟨fun hnone k hspawn => ?_, fun hfinished k hpending => ?_⟩
      (forall_congr' fun k => ?_)
    · have hk := spawned_ne_main hdriven hspawn
      by_contra hleft
      exact hnone k ((pending_spawned hdriven hk).mpr ⟨hspawn, not_exists.mp hleft⟩)
    · have hk : k ≠ main := by
        rintro rfl
        exact hnotMain hpending
      obtain ⟨hspawn, hnot⟩ := (pending_spawned hdriven hk).mp hpending
      obtain ⟨r, hr⟩ := hfinished k hspawn
      exact hnot r hr
    · rw [pending_atEnd hend, and_imp]
      refine forall_congr' fun hspawn => ?_
      rw [cancelled_spawned hdriven (spawned_ne_main hpre hspawn)]

/-- Main cancels the task it spawned and returns; the task ends in the step after. -/
theorem no_task_left_cancelled :
    ∃ after, runCoroutine (taskApi (E := Nat) (V := Nat) 1
        ([.spawn 1, .cancel 1] ++ .finish 0 (.ok 6) :: [.finish 1 (.error 5), .spawn 2])) 0
          (.started 0) = some (.ok 6, after) ∧
      NoTaskLeft (EventRun.run EventLoop.step (.started 0)
        ([.spawn 1, .cancel 1] ++ [.finish 0 (.ok 6)])) after := by
  have hdriven : EventRun.Meets EventLoop.step Enabled (.started 0 : EventLoop Nat Nat Nat)
      ([.spawn 1, .cancel 1] ++ .finish 0 (.ok 6) ::
        [.finish 1 (.error 5), .spawn 2].take 1) :=
    ⟨rfl, trivial, ⟨_, rfl, rfl⟩, ⟨_, rfl, rfl⟩, trivial⟩
  obtain ⟨after, hrun, -, hiff⟩ := no_task_left_iff 1 0 (.started 0) _ _ (.ok 6) hdriven
  refine ⟨after, hrun, hiff.mpr ⟨fun k hspawn => ?_, fun k hspawn _ => ?_⟩⟩
  · exact ⟨.error 5, by simp_all⟩
  · obtain rfl : k = 1 := by simpa using hspawn
    exact ⟨[.spawn 1], [.finish 0 (.ok 6), .finish 1 (.error 5)], rfl, by simp, by simp⟩

/-- Main returns while the task it spawned is suspended: the loop has nothing left to
    do, the call returns, and the task neither ends nor is cancelled. -/
theorem task_left_pending :
    ∃ after, runCoroutine (taskApi (E := Nat) (V := Nat) 3 [.spawn 1, .finish 0 (.ok 6)]) 0
        (.started 0) = some (.ok 6, after) ∧ after.closed = true ∧
      ¬ NoTaskLeft (EventRun.run EventLoop.step (.started 0) [.spawn 1, .finish 0 (.ok 6)])
        after := by
  refine ⟨_, rfl, rfl, ?_⟩
  intro h
  exact h.finished 1 _ rfl rfl

end

end FerroIo
