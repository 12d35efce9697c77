import FerroIo.GuardOutcome
import FerroIo.LoopRegister
import FerroIo.RuntimeSingleton

/- `ferro_io.run` end to end: the guard, `_runtime()`, `run_coroutine` and
   `_with_eager_factory` over the state of one thread and its process, for coroutines that
   may themselves set handlers, make and close loops, and call `run`.

   Correspondence (source ↔ Lean):
     `run`                                         ↔ `runIn`
     `_runtime`, called by one thread              ↔ `getRuntime`
     `_with_eager_factory`                         ↔ `withEagerFactory`
     the steps that `run_coroutine` calls          ↔ `RunSteps.api`
     a coroutine, by the calls it makes            ↔ `Coroutine`, `Coroutine.exec`
   The body of `run_coroutine` itself is `runCoroutine`. On the SIGINT handler `runIn` is
   `run` (`runIn_sigint_eq`), and `getRuntime` is the machine of `_runtime` with one thread
   (`getRuntime_alone`). No signal arrives while a call runs.

   Main results:
     1. `run_process`: any sequence of `run` calls leaves the SIGINT handler and the loops
        that were there as it found them and constructs at most one `AsyncRuntime`; where no
        step of a call fails, no loop that a call made is left open or current;
     2. `nested_run_refused`: a coroutine passed to `run` inside a running loop is never run,
        and its `run` raises. -/
namespace FerroIo

open WithBlock (Manager)

variable {F E V : Type}

/-- What `run` reads and writes. `ofRun` are the loops that `run_coroutine` has made, and
    `constructed` is how many `AsyncRuntime` objects `_runtime` has. -/
structure Process (F : Type) where
  sigint : Disposition F
  loops : ThreadLoops
  eager : Nat → Bool
  rt : Option AsyncRuntime
  constructed : Nat
  ofRun : List Nat

/-- `runtimeError` is the RuntimeError with the given message. -/
structure PythonEnv (E : Type) where
  cpus : Nat
  mainThread : Bool
  hasEagerTaskFactory : Bool
  runtimeError : String → E

/-- How those steps of one `run` call end that do not depend on the process alone. A step
    that fails changes nothing. -/
structure RunSteps (E : Type) where
  getOrInitGlobal : Except String Runtime
  importAsyncio : Except E Unit
  newEventLoop : Except E Unit
  setEventLoop : Except E Unit
  copyContext : Except E Unit
  intoFuture : Except E Unit
  runUntilComplete : Except E Unit
  close : Except E Unit
  clearEventLoop : Except E Unit

abbrev ProcessM (F E : Type) := ExceptT E (StateM (Process F))

def Process.addLoop (p : Process F) : Process F :=
  { p with
    loops := { p.loops with toLoopWorld := p.loops.toLoopWorld.add }
    eager := Function.update p.eager p.loops.created false }

def Process.setCurrent (p : Process F) (l : Option Nat) : Process F :=
  { p with loops := { p.loops with current := l } }

def Process.setRunning (p : Process F) (l : Option Nat) : Process F :=
  { p with loops := { p.loops with running := l } }

def Process.closeLoop (p : Process F) (l : Nat) : Process F :=
  { p with loops := { p.loops with toLoopWorld := p.loops.toLoopWorld.close l } }

/-! ## `run` -/

def getRuntime (env : PythonEnv E) (getOrInitGlobal : Except String Runtime) :
    ProcessM F E AsyncRuntime := fun p =>
  match p.rt with
  | some handle => (.ok handle, p)
  | none =>
    match AsyncRuntime.new env.cpus none getOrInitGlobal with
    | .ok handle => (.ok handle, { p with rt := some handle, constructed := p.constructed + 1 })
    | .error message => (.error (env.runtimeError message), p)

def withEagerFactory (env : PythonEnv E) (coro : ProcessM F E V) : ProcessM F E V := fun p =>
  if env.hasEagerTaskFactory then
    match p.loops.running with
    | some l => coro { p with eager := Function.update p.eager l true }
    | none => (.error (env.runtimeError "no running event loop"), p)
  else coro p

def RunSteps.attempt (outcome : Except E Unit) (f : Process F → Process F) :
    ProcessM F E Unit := fun p =>
  match outcome with
  | .ok _ => (.ok (), f p)
  | .error e => (.error e, p)

/-- A loop refuses to run while another one runs in the thread. -/
def RunSteps.api (env : PythonEnv E) (o : RunSteps E) :
    LoopApi (StateM (Process F)) Nat Unit (ProcessM F E V) (ProcessM F E V) E V where
  importAsyncio := attempt o.importAsyncio id
  newEventLoop p := match o.newEventLoop with
    | .ok _ => (.ok p.loops.created, { p.addLoop with ofRun := p.loops.created :: p.ofRun })
    | .error e => (.error e, p)
  setEventLoop
    | some l => attempt o.setEventLoop fun p => p.setCurrent (some l)
    | none => attempt o.clearEventLoop fun p => p.setCurrent none
  copyContext _ := attempt o.copyContext id
  intoFuture _ coro p := ((attempt o.intoFuture id p).1.map fun _ => coro, p)
  runUntilComplete l coro p := match p.loops.running with
    | some _ => (.error (env.runtimeError
        "Cannot run the event loop while another loop is running"), p)
    | none => match o.runUntilComplete with
      | .error e => (.error e, p)
      | .ok _ => match coro (p.setRunning (some l)) with
        | (result, p) => (result, p.setRunning none)
  close l := attempt o.close fun p => p.closeLoop l

/-- `_SigintGuard` on the process. -/
def processGuard (mainThread : Bool) : Manager (SigintGuard F) (Process F) (RunError E) where
  enter g p :=
    let after := g.enter mainThread p.sigint
    (after.1.mapError .signal, after.2.1, { p with sigint := after.2.2 })
  exit g p :=
    let after := g.exit mainThread p.sigint
    (after.1.mapError .signal, after.2.1, { p with sigint := after.2.2 })

/-- `_runtime().run_coroutine(_with_eager_factory(coro))`. -/
def driveCoroutine (env : PythonEnv E) (o : RunSteps E) (coro : ProcessM F E V) :
    ProcessM F E V := do
  let _ ← getRuntime env o.getOrInitGlobal
  runCoroutine (o.api env) (withEagerFactory env coro)

def runIn (env : PythonEnv E) (o : RunSteps E) (loopFactory : Bool)
    (coro : RunArg (ProcessM F E V)) (p : Process F) : Except (RunError E) V × Process F :=
  if loopFactory then (.error .runLoopFactory, p)
  else match coro with
  | .other repr => (.error (.notCoroutine repr), p)
  | .coroutine c =>
    let body := fun p =>
      let after := driveCoroutine env o c p
      (after.1.mapError .raised, after.2)
    let ended := (processGuard env.mainThread).block .new body p
    (ended.outcome, ended.state)

/-! ## Coroutines -/

/-- A coroutine, by the calls it makes: each goes on with what its call gave. -/
inductive Coroutine (F E V : Type) where
  | done (result : Except E V)
  | signal (h : Handler F) (k : Except SignalError (Option (Handler F)) → Coroutine F E V)
  | newEventLoop (k : Nat → Coroutine F E V)
  | setEventLoop (l : Option Nat) (k : Coroutine F E V)
  | closeEventLoop (l : Nat) (k : Except E Unit → Coroutine F E V)
  | run (o : RunSteps E) (coro : Coroutine F E V) (k : Except (RunError E) V → Coroutine F E V)

/-- A running loop refuses to be closed. -/
def Coroutine.exec (env : PythonEnv E) : Coroutine F E V → ProcessM F E V
  | .done result => fun p => (result, p)
  | .signal h k => fun p =>
    match signalSignal env.mainThread (some h) p.sigint with
    | (result, sigint) => (k result).exec env { p with sigint := sigint }
  | .newEventLoop k => fun p => (k p.loops.created).exec env p.addLoop
  | .setEventLoop l k => fun p => k.exec env (p.setCurrent l)
  | .closeEventLoop l k => fun p =>
    if p.loops.running = some l then
      (k (.error (env.runtimeError "Cannot close a running event loop"))).exec env p
    else (k (.ok ())).exec env (p.closeLoop l)
  | .run o coro k => fun p =>
    match runIn env o false (.coroutine (coro.exec env)) p with
    | (result, p) => (k result).exec env p

/-- A `run` call of the program. -/
structure RunCall (F E V : Type) where
  steps : RunSteps E
  loopFactory : Bool
  coro : RunArg (Coroutine F E V)

def RunArg.map {C D : Type} (f : C → D) : RunArg C → RunArg D
  | .coroutine c => .coroutine (f c)
  | .other repr => .other repr

def Process.call (env : PythonEnv E) (p : Process F) (c : RunCall F E V) :
    Except (RunError E) V × Process F :=
  runIn env c.steps c.loopFactory (c.coro.map (Coroutine.exec env)) p

def Process.step (env : PythonEnv E) (p : Process F) (c : RunCall F E V) : Process F :=
  (p.call env c).2

/-! ## What every call keeps -/

/-- What a call never changes, or changes one way only: existing loops keep their task
    factory and stay closed once closed, the handle is made once, and the loops that get the
    eager factory are loops of `run`. -/
structure Kept (p p' : Process F) : Prop where
  created : p.loops.created ≤ p'.loops.created
  closed : ∀ l < p.loops.created, p.loops.closed l = true → p'.loops.closed l = true
  handle : ∀ handle, p.rt = some handle → p'.rt = some handle
  constructed : p'.constructed + p.rt.toList.length = p.constructed + p'.rt.toList.length
  eager : ∀ l < p.loops.created, p'.eager l = p.eager l
  eagerOfRun : ∀ l, p'.eager l = true → p.eager l = true ∨ l ∈ p'.ofRun
  ofRun : ∀ l ∈ p.ofRun, l ∈ p'.ofRun
  made : ∀ l ∈ p'.ofRun, l ∈ p.ofRun ∨ p.loops.created ≤ l ∧ l < p'.loops.created

theorem Kept.refl (p : Process F) : Kept p p where
  created := Nat.le_refl _
  closed _ _ h := h
  handle _ h := h
  constructed := rfl
  eager _ _ := rfl
  eagerOfRun _ h := .inl h
  ofRun _ h := h
  made _ h := .inl h

theorem Kept.trans {p q r : Process F} (h : Kept p q) (h' : Kept q r) : Kept p r where
  created := Nat.le_trans h.created h'.created
  closed l hl hclosed := h'.closed l (Nat.lt_of_lt_of_le hl h.created) (h.closed l hl hclosed)
  handle handle hp := h'.handle handle (h.handle handle hp)
  constructed := by
    have hpq := h.constructed
    have hqr := h'.constructed
    omega
  eager l hl := (h'.eager l (Nat.lt_of_lt_of_le hl h.created)).trans (h.eager l hl)
  eagerOfRun l hl := by
    rcases h'.eagerOfRun l hl with hq | hr
    · rcases h.eagerOfRun l hq with hp | hq'
      · exact .inl hp
      · exact .inr (h'.ofRun l hq')
    · exact .inr hr
  ofRun l hl := h'.ofRun l (h.ofRun l hl)
  made l hl := by
    rcases h'.made l hl with hq | ⟨hge, hlt⟩
    · rcases h.made l hq with hp | ⟨hge, hlt⟩
      · exact .inl hp
      · exact .inr ⟨hge, Nat.lt_of_lt_of_le hlt h'.created⟩
    · exact .inr ⟨Nat.le_trans h.created hge, hlt⟩

section
variable (p : Process F)

theorem kept_sigint (sigint : Disposition F) : Kept p { p with sigint := sigint } :=
  { Kept.refl p with }

theorem kept_setCurrent (l : Option Nat) : Kept p (p.setCurrent l) :=
  { Kept.refl p with }

theorem kept_setRunning (l : Option Nat) : Kept p (p.setRunning l) :=
  { Kept.refl p with }

theorem closed_closeLoop (l : Nat) {j : Nat} (h : p.loops.closed j = true) :
    (p.closeLoop l).loops.closed j = true := by
  simp only [Process.closeLoop, LoopWorld.close, Function.update_apply]
  split
  · rfl
  · exact h

theorem kept_closeLoop (l : Nat) : Kept p (p.closeLoop l) :=
  { Kept.refl p with closed := fun _ _ h => closed_closeLoop p l h }

theorem kept_addLoop : Kept p p.addLoop :=
  { Kept.refl p with
    created := Nat.le_succ _
    closed := fun l hl hclosed => by
      have hne : l ≠ p.loops.created := Nat.ne_of_lt hl
      simpa [Process.addLoop, LoopWorld.add, hne] using hclosed
    eager := fun l hl => by
      have hne : l ≠ p.loops.created := Nat.ne_of_lt hl
      simp [Process.addLoop, hne]
    eagerOfRun := fun l hl => by
      left
      by_cases hne : l = p.loops.created
      · simp [Process.addLoop, hne] at hl
      · simpa [Process.addLoop, hne] using hl
    made := fun l hl => .inl hl }

/-- The process after `new_event_loop`, and with the eager factory set on the new loop. -/
def Process.begun (eager : Bool) : Process F :=
  { p.addLoop with
    ofRun := p.loops.created :: p.ofRun
    eager := Function.update p.eager p.loops.created eager }

theorem kept_begun (eager : Bool) : Kept p (p.begun eager) where
  created := Nat.le_succ _
  closed l hl hclosed := (kept_addLoop p).closed l hl hclosed
  handle _ h := h
  constructed := rfl
  eager l hl := Function.update_of_ne (Nat.ne_of_lt hl) _ _
  eagerOfRun l hl := by
    by_cases hne : l = p.loops.created
    · exact .inr (hne ▸ List.mem_cons_self)
    · left
      simpa [Process.begun, hne] using hl
  ofRun _ h := List.mem_cons_of_mem _ h
  made l hl := by
    rcases List.mem_cons.mp hl with rfl | hold
    · exact .inr ⟨Nat.le_refl _, Nat.lt_succ_self _⟩
    · exact .inl hold

end

/-! ## The steps of one call -/

section
variable (env : PythonEnv E) (o : RunSteps E) (coro : ProcessM F E V) (p : Process F)

theorem kept_getRuntime (getOrInitGlobal : Except String Runtime) :
    Kept p (getRuntime env getOrInitGlobal p).2 := by
  unfold getRuntime
  cases hrt : p.rt with
  | some handle => exact Kept.refl p
  | none =>
    cases AsyncRuntime.new env.cpus none getOrInitGlobal with
    | error message => exact Kept.refl p
    | ok handle =>
      exact { Kept.refl p with
        handle := fun handle' h => absurd (hrt.symm.trans h) (by simp)
        constructed := by simp [hrt] }

/-- What the cleanup leaves of `q`, where the call has made the loop `l`. -/
def RunSteps.cleanUp (l : Nat) (q : Process F) : Process F :=
  (attempt o.clearEventLoop (·.setCurrent none) (attempt o.close (·.closeLoop l) q).2).2

/-- The three steps before the driver and the two of the cleanup succeed. -/
structure RunSteps.CleansUp : Prop where
  setEventLoop : o.setEventLoop = .ok ()
  copyContext : o.copyContext = .ok ()
  intoFuture : o.intoFuture = .ok ()
  close : o.close = .ok ()
  clearEventLoop : o.clearEventLoop = .ok ()

/-- The process in which the driver starts. -/
def Process.atDriver : Process F := (p.begun false).setCurrent (some p.loops.created)

/-- The steps before the driver. -/
def RunSteps.before : Except E Unit × Process F :=
  match (do o.importAsyncio; o.newEventLoop) with
  | .error e => (.error e, p)
  | .ok _ =>
    match o.setEventLoop with
    | .error e => (.error e, p.begun false)
    | .ok _ => ((do o.copyContext; o.intoFuture), p.atDriver)

def RunSteps.driven : Except E V × Process F :=
  (o.api env).runUntilComplete p.loops.created coro p.atDriver

/-- `run_coroutine` fails before the driver, or it cleans up after it. -/
theorem runCoroutine_eq : runCoroutine (o.api env) coro p =
    match o.before p with
    | (.error e, q) => (.error e, q)
    | (.ok _, _) =>
      ((o.driven env coro p).1, o.cleanUp p.loops.created (o.driven env coro p).2) := by
  have hbegun : { p.addLoop with ofRun := p.loops.created :: p.ofRun } = p.begun false := rfl
  cases himport : o.importAsyncio with
  | error e =>
    simp [runCoroutine, RunSteps.api, RunSteps.attempt, RunSteps.before, bind, Except.bind,
      himport]
    rfl
  | ok _ => cases hnew : o.newEventLoop with
    | error e =>
      simp [runCoroutine, RunSteps.api, RunSteps.attempt, bind_run, himport, hnew, RunSteps.before]
      rfl
    | ok _ => cases hset : o.setEventLoop with
      | error e =>
        simp [runCoroutine, RunSteps.api, RunSteps.attempt, bind_run, himport, hnew, hset, hbegun,
          RunSteps.before]
        rfl
      | ok _ => cases hcopy : o.copyContext with
        | error e =>
          simp [runCoroutine, RunSteps.api, RunSteps.attempt, bind_run, himport, hnew, hset,
            hcopy, hbegun, Process.atDriver, RunSteps.before]
          rfl
        | ok _ => cases hinto : o.intoFuture with
          | error e =>
            simp [runCoroutine, RunSteps.api, RunSteps.attempt, bind_run, himport, hnew, hset,
              hcopy, hinto, hbegun, Process.atDriver, Except.map, RunSteps.before]
            rfl
          | ok _ =>
            simp [runCoroutine, RunSteps.api, RunSteps.attempt, bind_run, lift_run, ExceptT.run,
              himport, hnew, hset, hcopy, hinto, hbegun, Process.atDriver, Except.map,
              RunSteps.driven, RunSteps.cleanUp, RunSteps.before]
            rfl

theorem before_cases :
    (∃ e, o.before p = (.error e, p)) ∨
    (¬ o.CleansUp ∧ ∃ e q, o.before p = (.error e, q) ∧ (q = p.begun false ∨ q = p.atDriver)) ∨
    o.before p = (.ok (), p.atDriver) := by
  unfold RunSteps.before
  cases (do o.importAsyncio; o.newEventLoop : Except E Unit) with
  | error e => exact .inl ⟨e, rfl⟩
  | ok _ => cases hset : o.setEventLoop with
    | error e =>
      refine .inr (.inl ⟨fun h => ?_, e, p.begun false, rfl, .inl rfl⟩)
      cases hset.symm.trans h.setEventLoop
    | ok _ => cases hcopy : o.copyContext with
      | error e =>
        refine .inr (.inl ⟨fun h => ?_, e, p.atDriver, rfl, .inr rfl⟩)
        cases hcopy.symm.trans h.copyContext
      | ok _ => cases hinto : o.intoFuture with
        | error e =>
          refine .inr (.inl ⟨fun h => ?_, e, p.atDriver, rfl, .inr rfl⟩)
          cases hinto.symm.trans h.intoFuture
        | ok _ => exact .inr (.inr rfl)

end

/-! ## What a call leaves -/

/-- What a coroutine does while its loop runs is kept, and the loop goes on running. -/
def Leaves (coro : ProcessM F E V) : Prop :=
  ∀ q, q.loops.running.isSome → Kept q (coro q).2 ∧ (coro q).2.loops.running = q.loops.running

section
variable {env : PythonEnv E} {o : RunSteps E} {coro : ProcessM F E V}

theorem kept_cleanUp (o : RunSteps E) (l : Nat) (q : Process F) :
    Kept q (o.cleanUp l q) ∧ (o.cleanUp l q).loops.running = q.loops.running := by
  have hclose : Kept q (RunSteps.attempt o.close (·.closeLoop l) q).2 ∧
      (RunSteps.attempt o.close (·.closeLoop l) q).2.loops.running = q.loops.running := by
    cases hc : o.close with
    | error e => exact ⟨Kept.refl q, rfl⟩
    | ok _ => exact ⟨kept_closeLoop q l, rfl⟩
  unfold RunSteps.cleanUp
  cases hc : o.clearEventLoop with
  | error e => exact hclose
  | ok _ => exact ⟨hclose.1.trans (kept_setCurrent _ none), hclose.2⟩

theorem driven_running {p : Process F} {l : Nat} (h : p.loops.running = some l) :
    o.driven env coro p = (.error (env.runtimeError
      "Cannot run the event loop while another loop is running"), p.atDriver) := by
  have hloop : p.atDriver.loops.running = some l := h
  simp [RunSteps.driven, RunSteps.api, hloop]

theorem driven_failed {p : Process F} (h : p.loops.running = none) {e : E}
    (hdriver : o.runUntilComplete = .error e) :
    o.driven env coro p = (.error e, p.atDriver) := by
  have hloop : p.atDriver.loops.running = none := h
  simp [RunSteps.driven, RunSteps.api, hloop, hdriver]

theorem driven_idle {p : Process F} (h : p.loops.running = none)
    (hdriver : o.runUntilComplete = .ok ()) :
    o.driven env coro p =
      let after := coro (p.atDriver.setRunning (some p.loops.created))
      (after.1, after.2.setRunning none) := by
  have hloop : p.atDriver.loops.running = none := h
  simp [RunSteps.driven, RunSteps.api, hloop, hdriver]
  rfl

/-- The process in which the coroutine itself starts. -/
def PythonEnv.started (env : PythonEnv E) (p : Process F) : Process F :=
  ((p.begun env.hasEagerTaskFactory).setCurrent (some p.loops.created)).setRunning
    (some p.loops.created)

/-- The factory is set on the loop that the call has made. -/
theorem withEagerFactory_started (p : Process F) :
    withEagerFactory env coro (p.atDriver.setRunning (some p.loops.created)) =
      coro (env.started p) := by
  have hloop : (p.atDriver.setRunning (some p.loops.created)).loops.running =
      some p.loops.created := rfl
  simp only [withEagerFactory, PythonEnv.started, hloop]
  cases env.hasEagerTaskFactory with
  | false => rfl
  | true => simp [Process.atDriver, Process.begun, Process.setCurrent, Process.setRunning]

theorem kept_atDriver (p : Process F) : Kept p p.atDriver :=
  (kept_begun p false).trans (kept_setCurrent _ _)

theorem kept_started (env : PythonEnv E) (p : Process F) : Kept p (env.started p) :=
  ((kept_begun p _).trans (kept_setCurrent _ _)).trans (kept_setRunning _ _)

/-- The driver, from the process that the call has found: it runs the coroutine on the new
    loop, or nothing if another one is running. -/
theorem kept_driven (env : PythonEnv E) (o : RunSteps E) (h : Leaves coro) (p : Process F) :
    Kept p (o.driven env (withEagerFactory env coro) p).2 ∧
      (o.driven env (withEagerFactory env coro) p).2.loops.running = p.loops.running := by
  cases hrunning : p.loops.running with
  | some l =>
    rw [driven_running hrunning]
    exact ⟨kept_atDriver p, hrunning⟩
  | none =>
    cases hdriver : o.runUntilComplete with
    | error e =>
      rw [driven_failed hrunning hdriver]
      exact ⟨kept_atDriver p, hrunning⟩
    | ok _ =>
      rw [driven_idle hrunning hdriver, withEagerFactory_started]
      have hcoro := (h (env.started p) rfl).1
      exact ⟨((kept_started env p).trans hcoro).trans (kept_setRunning _ none), rfl⟩

/-- Called by one thread alone, the steps of `_runtime` come to this. -/
theorem getRuntime_alone (env : PythonEnv E) (getOrInitGlobal : Except String Runtime)
    (p : Process F) (s : Singleton Unit) (hidle : s.pc () = .idle) (hlock : s.lock = none)
    (hrt : s.rt.map Object.handle = p.rt) (hmade : s.made.length = p.constructed) :
    let s' := EventRun.run (Singleton.step env.cpus) s
      (.call () :: List.replicate 7 (.step () getOrInitGlobal))
    s'.rt.map Object.handle = (getRuntime env getOrInitGlobal p).2.rt ∧
      s'.made.length = (getRuntime env getOrInitGlobal p).2.constructed ∧
      s'.pc () = .idle ∧ s'.lock = none := by
  cases hs : s.rt with
  | some object =>
    rw [hs] at hrt
    simp [EventRun.run, List.replicate, Singleton.step, Singleton.goto, Singleton.endCall, hidle,
      hs, hlock, getRuntime, ← hrt, hmade]
  | none =>
    rw [hs] at hrt
    cases getOrInitGlobal with
    | error message =>
      simp [EventRun.run, List.replicate, Singleton.step, Singleton.goto, Singleton.endCall,
        hidle, hs, hlock, getRuntime, ← hrt, hmade, AsyncRuntime.new]
    | ok rt =>
      simp [EventRun.run, List.replicate, Singleton.step, Singleton.goto, Singleton.endCall,
        hidle, hs, hlock, getRuntime, ← hrt, hmade, AsyncRuntime.new]

theorem getRuntime_leaves (env : PythonEnv E) (getOrInitGlobal : Except String Runtime)
    (p : Process F) : ∃ rt n, (getRuntime env getOrInitGlobal p).2 =
      { p with rt := rt, constructed := n } := by
  unfold getRuntime
  cases p.rt with
  | some handle => exact ⟨p.rt, p.constructed, rfl⟩
  | none => cases AsyncRuntime.new env.cpus none getOrInitGlobal with
    | error message => exact ⟨p.rt, p.constructed, rfl⟩
    | ok handle => exact ⟨some handle, p.constructed + 1, rfl⟩

/-- `_runtime` raises, or `run_coroutine` is called in the process it leaves. -/
theorem driveCoroutine_cases (env : PythonEnv E) (o : RunSteps E) (coro : ProcessM F E V)
    (p : Process F) :
    ∃ q rt n, q = { p with rt := rt, constructed := n } ∧ Kept p q ∧
      ((∃ e, driveCoroutine env o coro p = (.error e, q)) ∨
        driveCoroutine env o coro p =
          runCoroutine (o.api env) (withEagerFactory env coro) q) := by
  obtain ⟨rt, n, hleft⟩ := getRuntime_leaves env o.getOrInitGlobal p
  refine ⟨_, rt, n, hleft, kept_getRuntime env p _, ?_⟩
  simp only [driveCoroutine, bind_run]
  cases getRuntime env o.getOrInitGlobal p with
  | mk result q =>
    cases result with
    | error e => exact .inl ⟨e, rfl⟩
    | ok handle => exact .inr rfl

theorem kept_runCoroutine (env : PythonEnv E) (o : RunSteps E) (h : Leaves coro) (q : Process F) :
    Kept q (runCoroutine (o.api env) (withEagerFactory env coro) q).2 ∧
      (runCoroutine (o.api env) (withEagerFactory env coro) q).2.loops.running =
        q.loops.running := by
  rw [runCoroutine_eq]
  rcases before_cases o q with ⟨e, heq⟩ | ⟨-, e, q', heq, rfl | rfl⟩ | heq
  · rw [heq]
    exact ⟨Kept.refl q, rfl⟩
  · rw [heq]
    exact ⟨kept_begun q false, rfl⟩
  · rw [heq]
    exact ⟨kept_atDriver q, rfl⟩
  · rw [heq]
    have hdriven := kept_driven env o h q
    have hclean := kept_cleanUp o q.loops.created (o.driven env (withEagerFactory env coro) q).2
    exact ⟨hdriven.1.trans hclean.1, hclean.2.trans hdriven.2⟩

theorem kept_driveCoroutine (env : PythonEnv E) (o : RunSteps E) (h : Leaves coro) (p : Process F) :
    Kept p (driveCoroutine env o coro p).2 ∧
      (driveCoroutine env o coro p).2.loops.running = p.loops.running := by
  obtain ⟨q, rt, n, hleft, hq, ⟨e, heq⟩ | heq⟩ := driveCoroutine_cases env o coro p
  · rw [heq, hleft]
    exact ⟨hleft ▸ hq, rfl⟩
  · rw [heq]
    have hcall := kept_runCoroutine env o h q
    refine ⟨hq.trans hcall.1, hcall.2.trans ?_⟩
    rw [hleft]

/-! ## The guard around it -/

/-- What the coroutine of a call on the main thread works on. -/
def Process.guarded (p : Process F) : Process F := { p with sigint := .python .defaultInt }

/-- On the main thread the handler that Python knows is written back, whatever is in force
    after the coroutine. -/
theorem runIn_main (hmain : env.mainThread = true) {p : Process F} {H : Handler F}
    (hknown : p.sigint = .python H) :
    runIn env o false (.coroutine coro) p =
      let after := driveCoroutine env o coro p.guarded
      (after.1.mapError .raised, { after.2 with sigint := .python H }) := by
  simp [runIn, Manager.block, processGuard, hmain, hknown, Disposition.known, Except.mapError,
    Process.guarded]

theorem runIn_native (hmain : env.mainThread = true) {p : Process F}
    (hnative : p.sigint = .native) :
    runIn env o false (.coroutine coro) p =
      (.error (.signal .typeError), (driveCoroutine env o coro p.guarded).2) := by
  simp [runIn, Manager.block, processGuard, hmain, hnative, Disposition.known, Except.mapError,
    Process.guarded]

theorem runIn_off (hoff : env.mainThread = false) (p : Process F) :
    runIn env o false (.coroutine coro) p =
      let after := driveCoroutine env o coro p
      (after.1.mapError .raised, after.2) := by
  simp [runIn, Manager.block, processGuard, hoff, SigintGuard.off_main, Except.mapError]

/-- A call that is not refused drives its coroutine, and beyond that changes the handler
    only. -/
theorem runIn_cases (env : PythonEnv E) (o : RunSteps E) (coro : ProcessM F E V)
    (p : Process F) :
    ∃ before after, (runIn env o false (.coroutine coro) p).2 =
      { (driveCoroutine env o coro { p with sigint := before }).2 with sigint := after } := by
  cases hthread : env.mainThread with
  | false => exact ⟨p.sigint, _, by rw [runIn_off hthread]⟩
  | true =>
    cases hsigint : p.sigint with
    | python H => exact ⟨.python .defaultInt, .python H, by rw [runIn_main hthread hsigint]; rfl⟩
    | native => exact ⟨.python .defaultInt, _, by rw [runIn_native hthread hsigint]; rfl⟩

theorem kept_runIn (env : PythonEnv E) (o : RunSteps E) (h : Leaves coro) (p : Process F) :
    Kept p (runIn env o false (.coroutine coro) p).2 ∧
      (runIn env o false (.coroutine coro) p).2.loops.running = p.loops.running := by
  obtain ⟨before, after, heq⟩ := runIn_cases env o coro p
  have hdrive := kept_driveCoroutine env o h { p with sigint := before }
  rw [heq]
  exact ⟨((kept_sigint p before).trans hdrive.1).trans (kept_sigint _ after), hdrive.2⟩

end

/-- The host that `run` finds in the process `p`. -/
def Process.host (env : PythonEnv E) (o : RunSteps E) (p : Process F) :
    Host (ProcessM F E V) Unit E V (Disposition F) where
  runCoroutine c sigint :=
    let after := driveCoroutine env o c { p with sigint := sigint }
    (after.1, after.2.sigint)
  contextRun _ f sigint := f sigint

/-- On the outcome and the handler, `runIn` is `run`. -/
theorem runIn_sigint_eq (env : PythonEnv E) (o : RunSteps E) (loopFactory : Bool)
    (arg : RunArg (ProcessM F E V)) (p : Process F) :
    run (p.host env o) env.mainThread loopFactory arg p.sigint =
      ((runIn env o loopFactory arg p).1, (runIn env o loopFactory arg p).2.sigint) := by
  cases loopFactory with
  | true => rfl
  | false => cases arg with
    | other repr => rfl
    | coroutine c =>
      rw [run_eq_block]
      cases hthread : env.mainThread with
      | false =>
        rw [runIn_off hthread]
        simp [guardedBlock, Manager.block, guardManager, Host.body, SigintGuard.off_main,
          Process.host, Except.mapError]
      | true => cases hsigint : p.sigint with
        | python H =>
          rw [runIn_main hthread hsigint]
          simp [guardedBlock, Manager.block, guardManager, Host.body, Process.host,
            Process.guarded, Disposition.known, Except.mapError]
        | native =>
          rw [runIn_native hthread hsigint]
          simp [guardedBlock, Manager.block, guardManager, Host.body, Process.host,
            Process.guarded, Disposition.known, Except.mapError]

/-! ## Every coroutine -/

/-- By recursion on the coroutine: a nested `run` is one more step of it. -/
theorem leaves_exec (env : PythonEnv E) (c : Coroutine F E V) : Leaves (c.exec env) := by
  induction c with
  | done result => exact fun q _ => ⟨Kept.refl q, rfl⟩
  | signal h k ih =>
    intro q hq
    have hrest := ih (signalSignal env.mainThread (some h) q.sigint).1
      { q with sigint := (signalSignal env.mainThread (some h) q.sigint).2 } hq
    exact ⟨(kept_sigint q _).trans hrest.1, hrest.2⟩
  | newEventLoop k ih =>
    intro q hq
    have hrest := ih q.loops.created q.addLoop hq
    exact ⟨(kept_addLoop q).trans hrest.1, hrest.2⟩
  | setEventLoop l k ih =>
    intro q hq
    have hrest := ih (q.setCurrent l) hq
    exact ⟨(kept_setCurrent q l).trans hrest.1, hrest.2⟩
  | closeEventLoop l k ih =>
    intro q hq
    simp only [Coroutine.exec]
    split
    · exact ih _ q hq
    · have hrest := ih (.ok ()) (q.closeLoop l) hq
      exact ⟨(kept_closeLoop q l).trans hrest.1, hrest.2⟩
  | run o coro k ihcoro ih =>
    intro q hq
    have hcall := kept_runIn env o ihcoro q
    have hrest := ih (runIn env o false (.coroutine (coro.exec env)) q).1
      (runIn env o false (.coroutine (coro.exec env)) q).2 (hcall.2 ▸ hq)
    exact ⟨hcall.1.trans hrest.1, hrest.2.trans hcall.2⟩

/-! ## The handler -/

section
variable {env : PythonEnv E} {o : RunSteps E} {coro : ProcessM F E V}

/-- A coroutine that leaves the handler `H` in force: so does the call, without its guard. -/
theorem sigint_driveCoroutine {H : Disposition F}
    (h : ∀ q, q.sigint = H → (coro q).2.sigint = H) {p : Process F} (hp : p.sigint = H) :
    (driveCoroutine env o coro p).2.sigint = H := by
  obtain ⟨q, rt, n, hleft, -, ⟨e, heq⟩ | heq⟩ := driveCoroutine_cases env o coro p
  · rw [heq, hleft]
    exact hp
  · have hq : q.sigint = H := by rw [hleft, hp]
    rw [heq, runCoroutine_eq]
    rcases before_cases o q with ⟨e, hbefore⟩ | ⟨-, e, q', hbefore, rfl | rfl⟩ | hbefore
    · rw [hbefore]
      exact hq
    · rw [hbefore]
      exact hq
    · rw [hbefore]
      exact hq
    · have hdriven : (o.driven env (withEagerFactory env coro) q).2.sigint = H := by
        cases hrunning : q.loops.running with
        | some l =>
          rw [driven_running hrunning]
          exact hq
        | none => cases hdriver : o.runUntilComplete with
          | error e =>
            rw [driven_failed hrunning hdriver]
            exact hq
          | ok _ =>
            rw [driven_idle hrunning hdriver, withEagerFactory_started]
            exact h (env.started q) hq
      rw [hbefore]
      refine Eq.trans ?_ hdriven
      simp only [RunSteps.cleanUp]
      cases o.close <;> cases o.clearEventLoop <;> rfl

/-- A handler that Python knows is the same after the call, and so is any handler off the
    main thread. -/
theorem sigint_runIn (h : env.mainThread = false → ∀ q, (coro q).2.sigint = q.sigint)
    {p : Process F} (hknown : env.mainThread = true → p.sigint ≠ .native) :
    (runIn env o false (.coroutine coro) p).2.sigint = p.sigint := by
  cases hthread : env.mainThread with
  | false =>
    rw [runIn_off hthread]
    exact sigint_driveCoroutine (fun q hq => (h hthread q).trans hq) rfl
  | true =>
    cases hsigint : p.sigint with
    | python H => rw [runIn_main hthread hsigint]
    | native => exact absurd hsigint (hknown hthread)

/-- Off the main thread nobody can set a handler. -/
theorem sigint_exec (hthread : env.mainThread = false) (c : Coroutine F E V) (q : Process F) :
    (c.exec env q).2.sigint = q.sigint := by
  induction c generalizing q with
  | done result => rfl
  | signal h k ih =>
    have hrefused : (signalSignal env.mainThread (some h) q.sigint).2 = q.sigint := by
      simp [signalSignal, hthread]
    exact (ih (signalSignal env.mainThread (some h) q.sigint).1
      { q with sigint := (signalSignal env.mainThread (some h) q.sigint).2 }).trans hrefused
  | newEventLoop k ih => exact ih _ _
  | setEventLoop l k ih => exact ih _
  | closeEventLoop l k ih =>
    simp only [Coroutine.exec]
    split
    · exact ih _ q
    · exact ih _ _
  | run o coro k ihcoro ih =>
    refine (ih _ _).trans ?_
    exact sigint_runIn (fun _ => ihcoro) fun hmain =>
      absurd (hthread.symm.trans hmain) (by decide)

end

/-! ## The loops that calls make -/

/-- The loops that calls have made in between are closed. -/
def Tidy (p p' : Process F) : Prop := ∀ l ∈ p'.ofRun, l ∈ p.ofRun ∨ p'.loops.closed l = true

theorem Tidy.refl (p : Process F) : Tidy p p := fun _ hl => .inl hl

theorem Tidy.trans {p q r : Process F} (hpq : Kept p q) (hqr : Kept q r) (h : Tidy p q)
    (h' : Tidy q r) : Tidy p r := by
  intro l hl
  rcases h' l hl with hq | hclosed
  · rcases h l hq with hp | hclosed
    · exact .inl hp
    · rcases hpq.made l hq with hp | ⟨-, hlt⟩
      · exact .inl hp
      · exact .inr (hqr.closed l hlt hclosed)
  · exact .inr hclosed

section
variable {env : PythonEnv E} {o : RunSteps E} {coro : ProcessM F E V}

theorem cleanUp_eq (hclean : o.CleansUp) (l : Nat) (q : Process F) :
    o.cleanUp l q = (q.closeLoop l).setCurrent none := by
  simp only [RunSteps.cleanUp, RunSteps.attempt, hclean.close, hclean.clearEventLoop]

/-- The cleanup closes the loop that the call has made. -/
theorem tidy_cleanUp (hclean : o.CleansUp) {p q : Process F} (h : Tidy (p.begun false) q) :
    Tidy p (o.cleanUp p.loops.created q) := by
  rw [cleanUp_eq hclean]
  intro l hl
  have hclosed : (q.closeLoop p.loops.created).loops.closed p.loops.created = true :=
    Function.update_self _ _ _
  rcases h l hl with hbegun | hl'
  · rcases List.mem_cons.mp hbegun with rfl | hold
    · exact .inr hclosed
    · exact .inl hold
  · exact .inr (closed_closeLoop q p.loops.created hl')

theorem tidy_driven (env : PythonEnv E) (o : RunSteps E)
    (h : ∀ q, q.loops.running.isSome → Tidy q (coro q).2) (p : Process F) :
    Tidy (p.begun false) (o.driven env (withEagerFactory env coro) p).2 := by
  cases hrunning : p.loops.running with
  | some l =>
    rw [driven_running hrunning]
    exact fun _ hl => .inl hl
  | none => cases hdriver : o.runUntilComplete with
    | error e =>
      rw [driven_failed hrunning hdriver]
      exact fun _ hl => .inl hl
    | ok _ =>
      rw [driven_idle hrunning hdriver, withEagerFactory_started]
      exact h (env.started p) rfl

/-- What a call that cleans up leaves: its loop is closed, and the register is cleared unless
    the call failed before it made a loop. -/
theorem tidy_driveCoroutine (hclean : o.CleansUp)
    (h : ∀ q, q.loops.running.isSome → Tidy q (coro q).2) (p : Process F) :
    Tidy p (driveCoroutine env o coro p).2 ∧
      ((driveCoroutine env o coro p).2.loops.current = p.loops.current ∨
        (driveCoroutine env o coro p).2.loops.current = none) := by
  obtain ⟨q, rt, n, hleft, -, ⟨e, heq⟩ | heq⟩ := driveCoroutine_cases env o coro p
  · rw [heq, hleft]
    exact ⟨fun _ hl => .inl hl, .inl rfl⟩
  · have hofRun : q.ofRun = p.ofRun := by rw [hleft]
    have hcurrent : q.loops.current = p.loops.current := by rw [hleft]
    rw [heq, runCoroutine_eq]
    rcases before_cases o q with ⟨e, hbefore⟩ | ⟨hnot, -⟩ | hbefore
    · rw [hbefore]
      exact ⟨fun l hl => .inl (hofRun ▸ hl), .inl hcurrent⟩
    · exact absurd hclean hnot
    · rw [hbefore]
      have htidy := tidy_cleanUp hclean (tidy_driven env o h q)
      refine ⟨fun l hl => hofRun ▸ htidy l hl, .inr ?_⟩
      rw [cleanUp_eq hclean]
      rfl

theorem tidy_runIn (hclean : o.CleansUp)
    (h : ∀ q, q.loops.running.isSome → Tidy q (coro q).2) (p : Process F) :
    Tidy p (runIn env o false (.coroutine coro) p).2 ∧
      ((runIn env o false (.coroutine coro) p).2.loops.current = p.loops.current ∨
        (runIn env o false (.coroutine coro) p).2.loops.current = none) := by
  obtain ⟨before, after, heq⟩ := runIn_cases env o coro p
  rw [heq]
  exact tidy_driveCoroutine hclean h { p with sigint := before }

end

/-- Every `run` of the coroutine has steps that meet `P`. -/
def Coroutine.EachRun (P : RunSteps E → Prop) : Coroutine F E V → Prop
  | .done _ => True
  | .signal _ k => ∀ result, (k result).EachRun P
  | .newEventLoop k => ∀ l, (k l).EachRun P
  | .setEventLoop _ k => k.EachRun P
  | .closeEventLoop _ k => ∀ result, (k result).EachRun P
  | .run o coro k => P o ∧ coro.EachRun P ∧ ∀ result, (k result).EachRun P

theorem tidy_exec (env : PythonEnv E) {c : Coroutine F E V} (hc : c.EachRun RunSteps.CleansUp)
    (q : Process F) (hq : q.loops.running.isSome) : Tidy q (c.exec env q).2 := by
  induction c generalizing q with
  | done result => exact Tidy.refl q
  | signal h k ih =>
    exact ih (signalSignal env.mainThread (some h) q.sigint).1 (hc _)
      { q with sigint := (signalSignal env.mainThread (some h) q.sigint).2 } hq
  | newEventLoop k ih => exact ih q.loops.created (hc _) q.addLoop hq
  | setEventLoop l k ih => exact ih hc (q.setCurrent l) hq
  | closeEventLoop l k ih =>
    simp only [Coroutine.exec]
    split
    · exact ih _ (hc _) q hq
    · exact ih (.ok ()) (hc _) (q.closeLoop l) hq
  | run o coro k ihcoro ih =>
    have hcall := kept_runIn env o (leaves_exec env coro) q
    have hleft : (runIn env o false (.coroutine (coro.exec env)) q).2.loops.running.isSome :=
      hcall.2 ▸ hq
    have hrest := leaves_exec env (k (runIn env o false (.coroutine (coro.exec env)) q).1) _ hleft
    exact Tidy.trans hcall.1 hrest.1 (tidy_runIn hc.1 (ihcoro hc.2.1) q).1
      (ih _ (hc.2.2 _) _ hleft)

/-! ## Sequences of calls -/

/-- In a call that cleans up, so do the `run` calls of its coroutine. -/
def RunCall.CleansUp (c : RunCall F E V) : Prop :=
  c.steps.CleansUp ∧ ∀ coro, c.coro = .coroutine coro → coro.EachRun RunSteps.CleansUp

/-- A call is refused before it does anything, or runs its coroutine. -/
theorem call_cases (env : PythonEnv E) (p : Process F) (c : RunCall F E V) :
    p.step env c = p ∨ ∃ coro, c.coro = .coroutine coro ∧
      p.step env c = (runIn env c.steps false (.coroutine (coro.exec env)) p).2 := by
  obtain ⟨steps, loopFactory, coro⟩ := c
  cases loopFactory with
  | true => exact .inl rfl
  | false => cases coro with
    | other repr => exact .inl rfl
    | coroutine coro => exact .inr ⟨coro, rfl, rfl⟩

/-- The SIGINT handler can be put back: Python knows it, or nobody replaces it. -/
def Process.Restorable (env : PythonEnv E) (p : Process F) : Prop :=
  env.mainThread = true → p.sigint ≠ .native

/-- Step lemma: what one call leaves. -/
theorem kept_call {env : PythonEnv E} {p : Process F} (hp : p.Restorable env)
    (c : RunCall F E V) :
    Kept p (p.step env c) ∧ (p.step env c).loops.running = p.loops.running ∧
      (p.step env c).sigint = p.sigint := by
  rcases call_cases env p c with heq | ⟨coro, -, heq⟩
  · rw [heq]
    exact ⟨Kept.refl p, rfl, rfl⟩
  · rw [heq]
    have hkept := kept_runIn env c.steps (leaves_exec env coro) p
    exact ⟨hkept.1, hkept.2, sigint_runIn (fun hoff => sigint_exec hoff coro) hp⟩

theorem tidy_call (env : PythonEnv E) (p : Process F) {c : RunCall F E V} (hc : c.CleansUp) :
    Tidy p (p.step env c) ∧ ((p.step env c).loops.current = p.loops.current ∨
      (p.step env c).loops.current = none) := by
  rcases call_cases env p c with heq | ⟨coro, hcoro, heq⟩
  · rw [heq]
    exact ⟨Tidy.refl p, .inl rfl⟩
  · rw [heq]
    exact tidy_runIn hc.1 (tidy_exec env (hc.2 coro hcoro)) p

/-- How a process is related to the one before the first call. -/
structure LeftBy (p q : Process F) : Prop where
  kept : Kept p q
  running : q.loops.running = p.loops.running
  sigint : q.sigint = p.sigint

theorem LeftBy.step {env : PythonEnv E} {p q : Process F} (hp : p.Restorable env)
    (h : LeftBy p q) (c : RunCall F E V) : LeftBy p (q.step env c) := by
  have hq : q.Restorable env := fun hmain => h.sigint ▸ hp hmain
  obtain ⟨hkept, hrunning, hsigint⟩ := kept_call hq c
  exact ⟨h.kept.trans hkept, hrunning.trans h.running, hsigint.trans h.sigint⟩

/-- Run lemma: where every call cleans up, no loop that one made is left open or current. -/
theorem tidy_run {env : PythonEnv E} {p : Process F} (hp : p.Restorable env)
    {calls : List (RunCall F E V)} (hclean : ∀ c ∈ calls, c.CleansUp) :
    let p' := EventRun.run (Process.step env) p calls
    Tidy p p' ∧ (p'.loops.current = p.loops.current ∨ p'.loops.current = none) := by
  have hstep : ∀ q (c : RunCall F E V), (LeftBy p q ∧ Tidy p q ∧
      (q.loops.current = p.loops.current ∨ q.loops.current = none)) → c.CleansUp →
      LeftBy p (q.step env c) ∧ Tidy p (q.step env c) ∧
        ((q.step env c).loops.current = p.loops.current ∨
          (q.step env c).loops.current = none) := by
    rintro q c ⟨hleft, htidy, hcurrent⟩ hc
    have hq : q.Restorable env := fun hmain => hleft.sigint ▸ hp hmain
    obtain ⟨htidy', hcurrent'⟩ := tidy_call env q hc
    refine ⟨hleft.step hp c, Tidy.trans hleft.kept (kept_call hq c).1 htidy htidy', ?_⟩
    rcases hcurrent' with heq | hnone
    · rw [heq]
      exact hcurrent
    · exact .inr hnone
  exact (EventRun.run_inv_of_meets hstep ⟨⟨Kept.refl p, rfl, rfl⟩, Tidy.refl p, .inl rfl⟩
    (EventRun.meets_of_forall hclean p)).2

/-- What any sequence of `run` calls leaves, whatever the coroutines do and whichever steps
    fail. -/
theorem run_process (env : PythonEnv E) (p : Process F)
    (hp : env.mainThread = true → p.sigint ≠ .native) (calls : List (RunCall F E V)) :
    let p' := EventRun.run (Process.step env) p calls
    p'.sigint = p.sigint ∧ p'.loops.running = p.loops.running ∧
    p'.constructed ≤ p.constructed + 1 ∧
    (∀ handle, p.rt = some handle → p'.rt = some handle ∧ p'.constructed = p.constructed) ∧
    (∀ l < p.loops.created, p'.eager l = p.eager l) ∧
    (∀ l, p'.eager l = true → p.eager l = true ∨ l ∈ p'.ofRun) ∧
    ((∀ c ∈ calls, c.CleansUp) →
      (∀ l ∈ p'.ofRun, l ∈ p.ofRun ∨ p'.loops.closed l = true) ∧
      (p'.loops.current = p.loops.current ∨ p'.loops.current = none)) := by
  intro p'
  have hleft : LeftBy p p' := EventRun.run_inv (I := LeftBy p) (fun _ c h => h.step hp c)
    ⟨Kept.refl p, rfl, rfl⟩ calls
  have hconstructed := hleft.kept.constructed
  have hlength : p'.rt.toList.length ≤ 1 := by cases p'.rt <;> simp
  refine ⟨hleft.sigint, hleft.running, by omega, fun handle hrt => ?_, hleft.kept.eager,
    hleft.kept.eagerOfRun, tidy_run hp⟩
  have hrt' := hleft.kept.handle handle hrt
  rw [hrt, hrt'] at hconstructed
  exact ⟨hrt', by omega⟩

/-- Every step succeeds. -/
def RunSteps.succeeding : RunSteps E where
  getOrInitGlobal := .ok { builder := 0, workerThreads := 1 }
  importAsyncio := .ok ()
  newEventLoop := .ok ()
  setEventLoop := .ok ()
  copyContext := .ok ()
  intoFuture := .ok ()
  runUntilComplete := .ok ()
  close := .ok ()
  clearEventLoop := .ok ()

theorem cleansUp_succeeding : (RunSteps.succeeding : RunSteps E).CleansUp :=
  ⟨rfl, rfl, rfl, rfl, rfl⟩

def mainEnv : PythonEnv String :=
  { cpus := 4, mainThread := true, hasEagerTaskFactory := true, runtimeError := id }

def Process.init : Process Unit :=
  { sigint := .python .sigDfl, loops := .init, eager := fun _ => false, rt := none,
    constructed := 0, ofRun := [] }

/-- A coroutine that ignores SIGINT, calls `run` and returns whether that returned. -/
def nestingCoroutine : Coroutine Unit String Bool :=
  .signal .sigIgn fun _ =>
    .run .succeeding (.done (.ok true)) fun result => .done (.ok result.toBool)

def nestingCall : RunCall Unit String Bool :=
  { steps := .succeeding, loopFactory := false, coro := .coroutine nestingCoroutine }

theorem cleansUp_nestingCall : nestingCall.CleansUp := by
  refine ⟨cleansUp_succeeding, fun coro hcoro => ?_⟩
  cases hcoro
  exact fun _ => ⟨cleansUp_succeeding, trivial, fun _ => trivial⟩

/-- Two calls, each with a nested one: four loops, all closed, and one handle. -/
theorem run_process_nested :
    let p' := EventRun.run (Process.step mainEnv) .init [nestingCall, nestingCall]
    p'.ofRun = [3, 2, 1, 0] ∧ p'.constructed = 1 ∧ p'.sigint = .python .sigDfl ∧
    p'.loops.current = none ∧ ∀ l ∈ p'.ofRun, p'.loops.closed l = true := by
  obtain ⟨hsigint, -, -, -, -, -, htidy⟩ := run_process mainEnv .init (by decide)
    [nestingCall, nestingCall]
  have hclean : ∀ c ∈ [nestingCall, nestingCall], c.CleansUp := by
    simp [cleansUp_nestingCall]
  obtain ⟨hclosed, hcurrent⟩ := htidy hclean
  refine ⟨rfl, rfl, hsigint, ?_, fun l hl => ?_⟩
  · rcases hcurrent with heq | hnone
    · exact heq
    · exact hnone
  · rcases hclosed l hl with hinit | h
    · cases hinit
    · exact h

/-! ## Nested calls -/

section
variable {env : PythonEnv E} {o : RunSteps E} {a b : ProcessM F E V}

/-- Only a call that finds no loop running looks at its coroutine, and it runs it on a loop. -/
theorem runCoroutine_ext {q : Process F}
    (h : q.loops.running = none → ∀ q, q.loops.running.isSome → a q = b q) :
    runCoroutine (o.api env) (withEagerFactory env a) q =
      runCoroutine (o.api env) (withEagerFactory env b) q := by
  have hdriven : o.driven env (withEagerFactory env a) q =
      o.driven env (withEagerFactory env b) q := by
    cases hrunning : q.loops.running with
    | some l => rw [driven_running hrunning, driven_running hrunning]
    | none => cases hdriver : o.runUntilComplete with
      | error e => rw [driven_failed hrunning hdriver, driven_failed hrunning hdriver]
      | ok _ =>
        rw [driven_idle hrunning hdriver, driven_idle hrunning hdriver,
          withEagerFactory_started, withEagerFactory_started, h hrunning (env.started q) rfl]
  rw [runCoroutine_eq, runCoroutine_eq, hdriven]

theorem driveCoroutine_ext {p : Process F}
    (h : p.loops.running = none → ∀ q, q.loops.running.isSome → a q = b q) :
    driveCoroutine env o a p = driveCoroutine env o b p := by
  obtain ⟨rt, n, hleft⟩ := getRuntime_leaves env o.getOrInitGlobal p
  simp only [driveCoroutine, bind_run]
  cases hget : getRuntime env o.getOrInitGlobal p with
  | mk result q =>
    rw [hget] at hleft
    cases result with
    | error e => rfl
    | ok handle =>
      have hsame : q = { p with rt := rt, constructed := n } := hleft
      have hq : q.loops = p.loops := by rw [hsame]
      exact runCoroutine_ext (by rw [hq]; exact h)

theorem runIn_ext {p : Process F}
    (h : p.loops.running = none → ∀ q, q.loops.running.isSome → a q = b q) :
    runIn env o false (.coroutine a) p = runIn env o false (.coroutine b) p := by
  cases hthread : env.mainThread with
  | false => rw [runIn_off hthread, runIn_off hthread, driveCoroutine_ext h]
  | true =>
    have hdrive : driveCoroutine env o a p.guarded = driveCoroutine env o b p.guarded :=
      driveCoroutine_ext h
    cases hsigint : p.sigint with
    | python H => rw [runIn_main hthread hsigint, runIn_main hthread hsigint, hdrive]
    | native => rw [runIn_native hthread hsigint, runIn_native hthread hsigint, hdrive]

end

/-- The coroutine with every nested coroutine replaced by one that gives `r` at once. -/
def Coroutine.prune (r : Except E V) : Coroutine F E V → Coroutine F E V
  | .done result => .done result
  | .signal h k => .signal h fun result => (k result).prune r
  | .newEventLoop k => .newEventLoop fun l => (k l).prune r
  | .setEventLoop l k => .setEventLoop l (k.prune r)
  | .closeEventLoop l k => .closeEventLoop l fun result => (k result).prune r
  | .run o _ k => .run o (.done r) fun result => (k result).prune r

theorem exec_prune (env : PythonEnv E) (r : Except E V) (c : Coroutine F E V) (q : Process F)
    (hq : q.loops.running.isSome) : c.exec env q = (c.prune r).exec env q := by
  induction c generalizing q with
  | done result => rfl
  | signal h k ih =>
    exact ih (signalSignal env.mainThread (some h) q.sigint).1
      { q with sigint := (signalSignal env.mainThread (some h) q.sigint).2 } hq
  | newEventLoop k ih => exact ih q.loops.created q.addLoop hq
  | setEventLoop l k ih => exact ih (q.setCurrent l) hq
  | closeEventLoop l k ih =>
    simp only [Coroutine.exec, Coroutine.prune]
    split
    · exact ih _ q hq
    · exact ih (.ok ()) (q.closeLoop l) hq
  | run o coro k _ ih =>
    have hsame : runIn env o false (.coroutine (coro.exec env)) q =
        runIn env o false (.coroutine ((Coroutine.done r).exec env)) q :=
      runIn_ext fun hnone => by simp [hnone] at hq
    have hrunning := (kept_runIn env o (leaves_exec env (Coroutine.done r : Coroutine F E V)) q).2
    simp only [Coroutine.exec, Coroutine.prune, hsame]
    exact ih _ _ (hrunning ▸ hq)

/-- No step before the driver fails, and the cleanup succeeds. -/
structure RunSteps.ReachesDriver (o : RunSteps E) : Prop extends o.CleansUp where
  getOrInitGlobal : ∃ rt, o.getOrInitGlobal = .ok rt
  importAsyncio : o.importAsyncio = .ok ()
  newEventLoop : o.newEventLoop = .ok ()

theorem driveCoroutine_refused (env : PythonEnv E) {o : RunSteps E} (coro : ProcessM F E V)
    (ho : o.ReachesDriver) (q : Process F) (hq : q.loops.running.isSome) :
    (driveCoroutine env o coro q).1 = .error (env.runtimeError
        "Cannot run the event loop while another loop is running") ∧
      (driveCoroutine env o coro q).2.loops.current = none := by
  obtain ⟨rt, hrt⟩ := ho.getOrInitGlobal
  obtain ⟨l, hl⟩ := Option.isSome_iff_exists.mp hq
  have hget : ∃ handle q', getRuntime env o.getOrInitGlobal q = (.ok handle, q') ∧
      q'.loops = q.loops := by
    unfold getRuntime
    cases hhandle : q.rt with
    | some handle => exact ⟨handle, q, rfl, rfl⟩
    | none =>
      rw [hrt]
      exact ⟨_, _, rfl, rfl⟩
  obtain ⟨handle, q', hget, hloops⟩ := hget
  have hbefore : o.before q' = (.ok (), q'.atDriver) := by
    simp only [RunSteps.before, ho.importAsyncio, ho.newEventLoop, ho.setEventLoop,
      ho.copyContext, ho.intoFuture]
    rfl
  have hdriven : o.driven env (withEagerFactory env coro) q' = _ := driven_running (hloops ▸ hl)
  simp only [driveCoroutine, bind_run, hget]
  rw [runCoroutine_eq, hbefore, cleanUp_eq ho.toCleansUp]
  exact ⟨congrArg Prod.fst hdriven, rfl⟩

/-- What becomes of `run` inside a running loop: no coroutine of a nested call is ever run,
    whatever the outer one does, and the call raises what the driver does, with the handler
    as it was and the register cleared. -/
theorem nested_run_refused (env : PythonEnv E) :
    (∀ (o : RunSteps E) (c : Coroutine F E V) (r : Except E V) (p : Process F),
      runIn env o false (.coroutine (c.exec env)) p =
        runIn env o false (.coroutine ((c.prune r).exec env)) p) ∧
    ∀ (o : RunSteps E) (c : Coroutine F E V) (q : Process F), o.ReachesDriver →
      q.loops.running.isSome → (env.mainThread = true → q.sigint ≠ .native) →
      let after := runIn env o false (.coroutine (c.exec env)) q
      after.1 = .error (.raised (env.runtimeError
        "Cannot run the event loop while another loop is running")) ∧
      after.2.sigint = q.sigint ∧ after.2.loops.running = q.loops.running ∧
      after.2.loops.current = none := by
  refine ⟨fun o c r p => runIn_ext fun _ => exec_prune env r c, fun o c q ho hq hknown => ?_⟩
  have hsigint : (runIn env o false (.coroutine (c.exec env)) q).2.sigint = q.sigint :=
    sigint_runIn (fun hoff => sigint_exec hoff c) hknown
  have hrunning := (kept_runIn env o (leaves_exec env c) q).2
  suffices hcall : (runIn env o false (.coroutine (c.exec env)) q).1 =
      .error (.raised (env.runtimeError
        "Cannot run the event loop while another loop is running")) ∧
      (runIn env o false (.coroutine (c.exec env)) q).2.loops.current = none by
    exact ⟨hcall.1, hsigint, hrunning, hcall.2⟩
  cases hthread : env.mainThread with
  | false =>
    obtain ⟨herror, hcurrent⟩ := driveCoroutine_refused env (c.exec env) ho q hq
    rw [runIn_off hthread]
    exact ⟨congrArg (Except.mapError RunError.raised) herror, hcurrent⟩
  | true =>
    cases hhandler : q.sigint with
    | native => exact absurd hhandler (hknown hthread)
    | python H =>
      obtain ⟨herror, hcurrent⟩ := driveCoroutine_refused env (c.exec env) ho q.guarded hq
      rw [runIn_main hthread hhandler]
      exact ⟨congrArg (Except.mapError RunError.raised) herror, hcurrent⟩

/-- `run` inside loop 0, which stdlib asyncio has made: its coroutine does not return True. -/
theorem nested_run_refused_inside :
    let inside : Process Unit := Process.init.addLoop.setRunning (some 0)
    let after := runIn mainEnv .succeeding false
      (.coroutine ((Coroutine.done (.ok true)).exec mainEnv)) inside
    after.1 = .error (.raised "Cannot run the event loop while another loop is running") ∧
    after.2.sigint = .python .sigDfl ∧ after.2.loops.running = some 0 := by
  obtain ⟨hraised, hsigint, hrunning, -⟩ := (nested_run_refused mainEnv).2 .succeeding
    (.done (.ok true)) (Process.init.addLoop.setRunning (some 0))
    { cleansUp_succeeding with
      getOrInitGlobal := ⟨_, rfl⟩, importAsyncio := rfl, newEventLoop := rfl } rfl (by decide)
  exact ⟨hraised, hsigint, hrunning⟩

end FerroIo
