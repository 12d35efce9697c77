import Mathlib.Logic.Basic

/- SIGINT handling of `ferro_io/__init__.py`: `_SigintGuard`, `run` and `Runner`.

   Every function returns what it raises or returns together with the state it
   leaves behind, so a step that raises half way keeps what it did before.

   Correspondence (Python ↔ Lean):
     `signal.signal(SIGINT, h)`      ↔ `signalSignal`
     `_SigintGuard.__enter__`        ↔ `SigintGuard.enter`
     `_SigintGuard.__exit__`         ↔ `SigintGuard.exit`
     `run`                           ↔ `run`
     `Runner.__init__`               ↔ `Runner.new`
     `Runner.__enter__` / `__exit__` ↔ `Runner.enter` / `Runner.exit`
     `Runner.run` / `Runner.close`   ↔ `Runner.run` / `Runner.close`
     `_runtime().run_coroutine(_with_eager_factory(coro))`,
     `context.run`                   ↔ the fields of `Host` -/
namespace FerroIo

/-- A SIGINT handler as `signal.signal` takes and returns it: `SIG_DFL`,
    `SIG_IGN`, `default_int_handler` or any other callable. -/
inductive Handler (F : Type*) where
  | sigDfl
  | sigIgn
  | defaultInt
  | callable (f : F)
  deriving DecidableEq, Repr

/-- The handler in force. One that was not installed from Python has no Python
    value: `signal.signal` returns `None` for it. -/
inductive Disposition (F : Type*) where
  | python (h : Handler F)
  | native
  deriving DecidableEq, Repr

inductive SignalError where
  | valueError
  | typeError
  | osError
  deriving DecidableEq, Repr

/-- Whether `except (ValueError, OSError)` catches it. -/
def SignalError.caught : SignalError → Bool
  | .valueError => true
  | .typeError => false
  | .osError => true

variable {F : Type*}

def Disposition.known : Disposition F → Option (Handler F)
  | .python h => some h
  | .native => none

/-- `signal.signal(SIGINT, handler)`: it works on the main thread only, refuses
    `None`, and returns the handler it replaces. -/
def signalSignal (mainThread : Bool) (handler : Option (Handler F)) (sigint : Disposition F) :
    Except SignalError (Option (Handler F)) × Disposition F :=
  if mainThread then
    match handler with
    | some h => (.ok sigint.known, .python h)
    | none => (.error .typeError, sigint)
  else (.error .valueError, sigint)

/-! ## The guard -/

structure SigintGuard (F : Type*) where
  prev : Option (Handler F)
  installed : Bool
  deriving DecidableEq, Repr

def SigintGuard.new : SigintGuard F := { prev := none, installed := false }

def SigintGuard.enter (mainThread : Bool) (g : SigintGuard F) (sigint : Disposition F) :
    Except SignalError Unit × SigintGuard F × Disposition F :=
  if mainThread then
    match signalSignal mainThread (some .defaultInt) sigint with
    | (.ok prev, sigint) => (.ok (), { prev := prev, installed := true }, sigint)
    | (.error e, sigint) =>
      if e.caught then (.ok (), { g with installed := false }, sigint)
      else (.error e, g, sigint)
  else (.ok (), g, sigint)

def SigintGuard.exit (mainThread : Bool) (g : SigintGuard F) (sigint : Disposition F) :
    Except SignalError Unit × SigintGuard F × Disposition F :=
  if g.installed then
    match signalSignal mainThread g.prev sigint with
    | (.ok _, sigint) => (.ok (), { g with installed := false }, sigint)
    | (.error e, sigint) =>
      if e.caught then (.ok (), { g with installed := false }, sigint)
      -- a TypeError leaves before the flag is cleared
      else (.error e, g, sigint)
  else (.ok (), g, sigint)

/-- Entering on the main thread saves the handler in force and overrides it. -/
@[simp] theorem SigintGuard.enter_main (g : SigintGuard F) (sigint : Disposition F) :
    g.enter true sigint =
      (.ok (), { prev := sigint.known, installed := true }, .python .defaultInt) := by
  simp [SigintGuard.enter, signalSignal]

/-- Leaving writes back what was saved, whatever is in force by then. -/
@[simp] theorem SigintGuard.exit_main (h : Handler F) (sigint : Disposition F) :
    SigintGuard.exit true { prev := some h, installed := true } sigint =
      (.ok (), { prev := some h, installed := false }, .python h) := by
  simp [SigintGuard.exit, signalSignal]

/-- There is nothing to write back when Python did not know the handler. -/
@[simp] theorem SigintGuard.exit_unknown (sigint : Disposition F) :
    SigintGuard.exit true { prev := none, installed := true } sigint =
      (.error .typeError, { prev := none, installed := true }, sigint) := by
  simp [SigintGuard.exit, signalSignal, SignalError.caught]

/-- Off the main thread a guard does nothing at all. -/
theorem SigintGuard.off_main (sigint : Disposition F) :
    SigintGuard.new.enter false sigint = (.ok (), .new, sigint) ∧
      SigintGuard.new.exit false sigint = (.ok (), .new, sigint) := by
  simp [SigintGuard.enter, SigintGuard.exit, SigintGuard.new]

/-! ## `run` and `Runner` -/

/-- What is passed as `coro`: a coroutine, or an object that is not one, by the
    text `repr` gives for it. -/
inductive RunArg (C : Type*) where
  | coroutine (c : C)
  | other (repr : String)
  deriving DecidableEq, Repr

/-- What `run`, `Runner` and their methods raise. -/
inductive RunError (E : Type*) where
  | runLoopFactory
  | runnerLoopFactory
  | closed
  | notCoroutine (repr : String)
  | signal (e : SignalError)
  | raised (e : E)
  deriving DecidableEq, Repr

/-- The text of the errors this module raises itself. -/
def RunError.message {E : Type*} : RunError E → Option String
  | .runLoopFactory => some
      ("ferro_io.run does not support loop_factory; the ferro_io runtime " ++
        "is fixed. Use asyncio.run() directly if you need a custom loop.")
  | .runnerLoopFactory => some
      ("ferro_io.Runner does not support loop_factory; " ++
        "use asyncio.Runner if you need a custom loop.")
  | .closed => some "Runner is closed"
  | .notCoroutine repr => some ("a coroutine was expected, got " ++ repr)
  | .signal _ => none
  | .raised _ => none

/-- What the two entry points call into, over a state `W`: the driver
    `_runtime().run_coroutine(_with_eager_factory(coro))` and `context.run`. -/
structure Host (C X E V W : Type*) where
  runCoroutine : C → W → Except E V × W
  contextRun : X → (W → Except E V × W) → W → Except E V × W

variable {C X E V W : Type*}

def run (host : Host C X E V (Disposition F)) (mainThread loopFactory : Bool) (coro : RunArg C)
    (sigint : Disposition F) : Except (RunError E) V × Disposition F :=
  if loopFactory then (.error .runLoopFactory, sigint)
  else match coro with
  | .other repr => (.error (.notCoroutine repr), sigint)
  | .coroutine c =>
    match SigintGuard.new.enter mainThread sigint with
    | (.error e, _, sigint) => (.error (.signal e), sigint)
    | (.ok _, g, sigint) =>
      match host.runCoroutine c sigint with
      | (result, sigint) =>
        match g.exit mainThread sigint with
        -- what `__exit__` raises replaces what the body gave
        | (.error e, _, sigint) => (.error (.signal e), sigint)
        | (.ok _, _, sigint) => (result.mapError .raised, sigint)

structure Runner (F : Type*) where
  debug : Option Bool
  closed : Bool
  sigint : SigintGuard F
  entered : Bool
  deriving DecidableEq, Repr

def Runner.new (debug : Option Bool) (loopFactory : Bool) : Except (RunError E) (Runner F) :=
  if loopFactory then .error .runnerLoopFactory
  else .ok { debug := debug, closed := false, sigint := .new, entered := false }

def Runner.enter (mainThread : Bool) (r : Runner F) (sigint : Disposition F) :
    Except (RunError E) Unit × Runner F × Disposition F :=
  match r.sigint.enter mainThread sigint with
  | (.error e, g, sigint) => (.error (.signal e), { r with sigint := g }, sigint)
  | (.ok _, g, sigint) => (.ok (), { r with sigint := g, entered := true }, sigint)

def Runner.run (host : Host C X E V W) (r : Runner F) (coro : RunArg C) (context : Option X)
    (w : W) : Except (RunError E) V × W :=
  if r.closed then (.error .closed, w)
  else match coro with
  | .other repr => (.error (.notCoroutine repr), w)
  | .coroutine c =>
    match context with
    | some ctx =>
      match host.contextRun ctx (host.runCoroutine c) w with
      | (result, w) => (result.mapError .raised, w)
    | none =>
      match host.runCoroutine c w with
      | (result, w) => (result.mapError .raised, w)

def Runner.close (mainThread : Bool) (r : Runner F) (sigint : Disposition F) :
    Except (RunError E) Unit × Runner F × Disposition F :=
  if r.closed then (.ok (), r, sigint)
  else if r.entered then
    match r.sigint.exit mainThread sigint with
    | (.error e, g, sigint) => (.error (.signal e), { r with closed := true, sigint := g }, sigint)
    | (.ok _, g, sigint) =>
      (.ok (), { r with closed := true, sigint := g, entered := false }, sigint)
  else (.ok (), { r with closed := true }, sigint)

/-- `__exit__` is `close`, whatever exception it is given. -/
def Runner.exit (mainThread : Bool) (r : Runner F) (sigint : Disposition F) :
    Except (RunError E) Unit × Runner F × Disposition F :=
  r.close mainThread sigint

@[simp] theorem Runner.enter_main (r : Runner F) (sigint : Disposition F) :
    (r.enter true sigint : Except (RunError E) Unit × _) =
      (.ok (), { r with sigint := ⟨sigint.known, true⟩, entered := true },
        .python .defaultInt) := by
  simp [Runner.enter]

theorem Runner.close_of_closed {r : Runner F} (h : r.closed = true) (m : Bool)
    (sigint : Disposition F) :
    (r.close m sigint : Except (RunError E) Unit × _) = (.ok (), r, sigint) := by
  simp [Runner.close, h]

theorem Runner.close_of_entered {r : Runner F} {h : Handler F} (hc : r.closed = false)
    (he : r.entered = true) (hg : r.sigint = ⟨some h, true⟩) (sigint : Disposition F) :
    (r.close true sigint : Except (RunError E) Unit × _) =
      (.ok (), { r with closed := true, sigint := ⟨some h, false⟩, entered := false },
        .python h) := by
  simp [Runner.close, hc, he, hg]

theorem Runner.close_of_idle {r : Runner F} (hc : r.closed = false) (he : r.entered = false)
    (m : Bool) (sigint : Disposition F) :
    (r.close m sigint : Except (RunError E) Unit × _) =
      (.ok (), { r with closed := true }, sigint) := by
  simp [Runner.close, hc, he]

/-! ## Coroutines that do not touch SIGINT -/

/-- Whatever runs on the host leaves the SIGINT handler as it finds it. -/
structure Host.KeepsSigint (host : Host C X E V (Disposition F)) : Prop where
  runCoroutine : ∀ c w, (host.runCoroutine c w).2 = w
  contextRun : ∀ x f w, (∀ w, (f w).2 = w) → (host.contextRun x f w).2 = w

theorem Runner.run_sigint {host : Host C X E V (Disposition F)} (h : host.KeepsSigint)
    (r : Runner F) (coro : RunArg C) (context : Option X) (sigint : Disposition F) :
    (r.run host coro context sigint).2 = sigint := by
  simp only [Runner.run]
  split
  · rfl
  · split
    · rfl
    · split
      · exact h.contextRun _ _ _ (h.runCoroutine _)
      · exact h.runCoroutine _ _

/-- A complete `run` call on the main thread leaves the handler it found, when
    Python knows that handler, even if the coroutine sets another one. -/
theorem run_sigint (host : Host C X E V (Disposition F)) (loopFactory : Bool) (coro : RunArg C) (H : Handler F) :
    (run host true loopFactory coro (.python H)).2 = .python H := by
  simp only [run]
  split
  · rfl
  · split
    · rfl
    · simp [Disposition.known]

/-- A handler that Python does not know cannot be put back: the call raises the
    TypeError of `signal.signal(SIGINT, None)` and the override stays. -/
theorem run_native {host : Host C X E V (Disposition F)} (h : host.KeepsSigint) (c : C) :
    run host true false (.coroutine c) .native =
      (.error (.signal .typeError), .python .defaultInt) := by
  have hc := h.runCoroutine c (.python .defaultInt)
  simp [run, Disposition.known, hc]

end FerroIo
