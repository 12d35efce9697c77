import FerroIo.RunnerGuard
import FerroIo.WithBlock

/- What the SIGINT guard does to the outcome of the run it surrounds.

   `run` is a `with` block: `guardManager` is `_SigintGuard` as a manager, and
   `run_eq_block` says that `run`, given a coroutine, is its block around
   `_runtime().run_coroutine`.

   Main result: `outcome_kept_iff`. On the main thread a run ends as its coroutine
   does, its guard is left without an exception and ends with `_installed` False,
   exactly when Python knows the handler that was in force. For any other handler
   `__exit__` passes `None` to `signal.signal`, whose TypeError it does not catch:
   it replaces the outcome, and the flag stays set (`outcome_lost_native`). -/
namespace FerroIo

open WithBlock (Manager)

variable {F C X E V : Type*}

/-- `_SigintGuard` in a `with` statement. -/
def guardManager (mainThread : Bool) : Manager (SigintGuard F) (Disposition F) (RunError E) where
  enter g sigint :=
    let after := g.enter mainThread sigint
    (after.1.mapError .signal, after.2)
  exit g sigint :=
    let after := g.exit mainThread sigint
    (after.1.mapError .signal, after.2)

/-- The body of the block: `return _runtime().run_coroutine(..)`. -/
def Host.body (host : Host C X E V (Disposition F)) (c : C) (sigint : Disposition F) :
    Except (RunError E) V × Disposition F :=
  let after := host.runCoroutine c sigint
  (after.1.mapError .raised, after.2)

/-- The block of `run`, with the guard it leaves. -/
def guardedBlock (host : Host C X E V (Disposition F)) (mainThread : Bool) (c : C)
    (sigint : Disposition F) : WithBlock.Ended (SigintGuard F) (Disposition F) (RunError E) V :=
  (guardManager mainThread).block .new (host.body c) sigint

/-- `run` is this block, with the guard thrown away. -/
theorem run_eq_block (host : Host C X E V (Disposition F)) (mainThread : Bool) (c : C)
    (sigint : Disposition F) :
    run host mainThread false (.coroutine c) sigint =
      let ended := guardedBlock host mainThread c sigint
      (ended.outcome, ended.state) := by
  simp only [run, guardedBlock, Manager.block, guardManager, Host.body]
  cases henter : SigintGuard.new.enter mainThread sigint with
  | mk entered left =>
    obtain ⟨g, sigint₁⟩ := left
    cases entered with
    | error e => rfl
    | ok u =>
      simp only [Except.mapError]
      cases hexit : g.exit mainThread (host.runCoroutine c sigint₁).2 with
      | mk exited left => cases exited <;> rfl

/-! ## On the main thread -/

/-- Leaving the guard that was entered while `H` was in force, with what the
    coroutine has left in force. -/
def leaveGuard (host : Host C X E V (Disposition F)) (c : C) (H : Disposition F) :
    Except SignalError Unit × SigintGuard F × Disposition F :=
  match SigintGuard.new.enter true H with
  | (_, g, sigint) => g.exit true (host.runCoroutine c sigint).2

/-- The guard does not touch the outcome of the coroutine. -/
structure OutcomeKept (host : Host C X E V (Disposition F)) (c : C) (H : Disposition F) :
    Prop where
  outcome : (run host true false (.coroutine c) H).1 =
    (host.runCoroutine c (.python .defaultInt)).1.mapError .raised
  quiet : (leaveGuard host c H).1 = .ok ()
  notInstalled : (guardedBlock host true c H).manager.installed = false

section
variable (host : Host C X E V (Disposition F)) (c : C)

theorem enter_guardManager (H : Disposition F) :
    (guardManager true : Manager _ _ (RunError E)).enter .new H =
      (.ok (), ⟨H.known, true⟩, .python .defaultInt) := by
  simp [guardManager, Except.mapError]

theorem exit_guardManager (H : Disposition F) :
    (guardManager true).exit ⟨H.known, true⟩ (host.body c (.python .defaultInt)).2 =
      ((leaveGuard host c H).1.mapError (.signal : SignalError → RunError E),
        (leaveGuard host c H).2) := by
  simp [guardManager, leaveGuard, Host.body]

/-- The outcome is that of the coroutine exactly when the guard is left without an
    exception: a coroutine never raises what is the guard's own. -/
theorem outcome_iff_quiet (H : Disposition F) :
    (run host true false (.coroutine c) H).1 =
        (host.runCoroutine c (.python .defaultInt)).1.mapError .raised ↔
      (leaveGuard host c H).1 = .ok () := by
  have hown : ∀ e, ((guardManager true).exit ⟨H.known, true⟩
      (host.body c (.python .defaultInt)).2).1 = .error e →
      (host.body c (.python .defaultInt)).1 ≠ .error e := by
    intro e hexit hbody
    rw [exit_guardManager] at hexit
    simp only [Host.body] at hbody
    cases hleft : (leaveGuard host c H).1 with
    | ok u => simp [hleft, Except.mapError] at hexit
    | error err =>
      cases hcoro : (host.runCoroutine c (.python .defaultInt)).1 with
      | ok v => simp [hcoro, Except.mapError] at hbody
      | error raised =>
        simp only [hleft, hcoro, Except.mapError, Except.error.injEq] at hexit hbody
        rw [← hexit] at hbody
        cases hbody
  have hblock := WithBlock.outcome_eq_iff (enter_guardManager H) hown
  rw [exit_guardManager] at hblock
  rw [run_eq_block]
  refine hblock.trans ?_
  cases (leaveGuard host c H).1 <;> simp [Except.mapError]

theorem leaveGuard_python (h : Handler F) :
    leaveGuard host c (.python h) = (.ok (), ⟨some h, false⟩, .python h) := by
  simp [leaveGuard, Disposition.known]

theorem leaveGuard_native : leaveGuard host c .native =
    (.error .typeError, ⟨none, true⟩, (host.runCoroutine c (.python .defaultInt)).2) := by
  simp [leaveGuard, Disposition.known]

/-- The guard that the block leaves is the one that `__exit__` leaves. -/
theorem guardedBlock_manager (H : Disposition F) :
    (guardedBlock host true c H).manager = (leaveGuard host c H).2.1 := by
  have henter := enter_guardManager (E := E) H
  have hexit := exit_guardManager host c H
  cases hleft : (leaveGuard host c H).1 with
  | ok u =>
    rw [hleft] at hexit
    exact congrArg (·.manager) (WithBlock.block_of_exit_ok henter hexit)
  | error e =>
    rw [hleft] at hexit
    exact congrArg (·.manager) (WithBlock.block_of_exit_error henter hexit)

end

/-- The guard keeps the outcome of the coroutine exactly when the handler in force
    before the run is one that Python knows. -/
theorem outcome_kept_iff (host : Host C X E V (Disposition F)) (c : C) (H : Disposition F) :
    OutcomeKept host c H ↔ H ≠ .native := by
  cases H with
  | python h =>
    have hleft := leaveGuard_python host c h
    refine iff_of_true ⟨?_, ?_, ?_⟩ (by simp)
    · exact (outcome_iff_quiet host c _).mpr (by rw [hleft])
    · rw [hleft]
    · rw [guardedBlock_manager, hleft]
  | native =>
    have hleft := leaveGuard_native host c
    refine iff_of_false ?_ (by simp)
    intro hkept
    have hquiet := hkept.quiet
    rw [hleft] at hquiet
    cases hquiet

/-- A handler that was not installed from Python is in force: the coroutine returns,
    and the run raises the TypeError of `signal.signal(SIGINT, None)`. -/
theorem outcome_lost_native :
    (Host.still.runCoroutine () (.python .defaultInt)).1 = .ok () ∧
    run Host.still true false (.coroutine ()) .native =
      (.error (.signal .typeError), .python .defaultInt) ∧
    (guardedBlock Host.still true () .native).manager.installed = true ∧
    ¬ OutcomeKept Host.still () .native := by
  refine ⟨rfl, rfl, rfl, ?_⟩
  intro hkept
  cases hkept.quiet

end FerroIo
