import Mathlib.Logic.Function.Basic

/- `AsyncRuntime::run_coroutine` of `src/lib.rs`, over any monad of the state its
   steps work on, and what it leaves of the event loop it makes.

   Correspondence (Rust ↔ Lean):
     `py.import("asyncio")`                          ↔ `LoopApi.importAsyncio`
     `new_event_loop` / `set_event_loop`             ↔ `LoopApi.newEventLoop` / `setEventLoop`
     `TaskLocals::new(loop).copy_context(py)`        ↔ `LoopApi.copyContext`
     `into_future_with_locals`                       ↔ `LoopApi.intoFuture`
     `run_until_complete` / `loop.close()`           ↔ `LoopApi.runUntilComplete` / `close`
     `?`                                             ↔ a step of the `do` block
     `let _ = ..`, whose error is dropped            ↔ `ExceptT.lift (..).run`

   Main result: `cleaned_up_iff`. Once there is a loop, the call leaves it closed
   and not current, with the outcome of the coroutine or of the first step that
   failed, exactly when the three steps before the driver all succeed: a failure of
   one of them returns before the code that cleans up (`not_closed_of_early`). -/
namespace FerroIo

/-- What `run_coroutine` calls, over loops `L`, task locals `T`, coroutines `C`,
    futures `F`, errors `E` and results `V`. -/
structure LoopApi (m : Type → Type) (L T C F E V : Type) where
  importAsyncio : ExceptT E m Unit
  newEventLoop : ExceptT E m L
  setEventLoop : Option L → ExceptT E m Unit
  copyContext : L → ExceptT E m T
  intoFuture : T → C → ExceptT E m F
  runUntilComplete : L → F → ExceptT E m V
  close : L → ExceptT E m Unit

def runCoroutine {m : Type → Type} [Monad m] {L T C F E V : Type} (api : LoopApi m L T C F E V)
    (coro : C) : ExceptT E m V := do
  api.importAsyncio
  let eventLoop ← api.newEventLoop
  api.setEventLoop (some eventLoop)
  let locals ← api.copyContext eventLoop
  let fut ← api.intoFuture locals coro
  let result ← ExceptT.lift (api.runUntilComplete eventLoop fut).run
  -- clean up the loop we created
  let _ ← ExceptT.lift (api.close eventLoop).run
  let _ ← ExceptT.lift (api.setEventLoop none).run
  ExceptT.mk (pure result)

/-! ## The event loops of a thread -/

/-- The loops made so far, which of them are closed, and the thread's current one. -/
structure LoopWorld where
  created : Nat
  closed : Nat → Bool
  current : Option Nat

variable {E V : Type}

/-- How each step ends. A step that fails changes nothing; the coroutine may do
    anything to the loops while it runs (`effects`). -/
structure Outcomes (E V : Type) where
  importAsyncio : Except E Unit
  newEventLoop : Except E Unit
  setEventLoop : Except E Unit
  copyContext : Except E Unit
  intoFuture : Except E Unit
  runUntilComplete : Except E Unit
  coroutine : Except E V
  effects : LoopWorld → LoopWorld
  close : Except E Unit
  clearEventLoop : Except E Unit

/-- A step that ends as told and, if it succeeds, changes the loops by `f`. -/
def attempt (outcome : Except E Unit) (f : LoopWorld → LoopWorld) :
    ExceptT E (StateM LoopWorld) Unit := fun w =>
  match outcome with
  | .ok _ => (.ok (), f w)
  | .error e => (.error e, w)

def LoopWorld.add (w : LoopWorld) : LoopWorld :=
  { w with created := w.created + 1, closed := Function.update w.closed w.created false }

def LoopWorld.close (w : LoopWorld) (eventLoop : Nat) : LoopWorld :=
  { w with closed := Function.update w.closed eventLoop true }

def Outcomes.api (o : Outcomes E V) : LoopApi (StateM LoopWorld) Nat Unit Unit Unit E V where
  importAsyncio := attempt o.importAsyncio id
  newEventLoop w := match o.newEventLoop with
    | .ok _ => (.ok w.created, w.add)
    | .error e => (.error e, w)
  setEventLoop
    | some eventLoop => attempt o.setEventLoop fun w => { w with current := some eventLoop }
    | none => attempt o.clearEventLoop fun w => { w with current := none }
  copyContext _ := attempt o.copyContext id
  intoFuture _ _ := attempt o.intoFuture id
  runUntilComplete _ _ := fun w => ((do o.runUntilComplete; o.coroutine), o.effects w)
  close eventLoop := attempt o.close fun w => w.close eventLoop

/-- `run_coroutine` with the given outcomes: its result and the loops it leaves. -/
def Outcomes.run (o : Outcomes E V) (w : LoopWorld) : Except E V × LoopWorld :=
  runCoroutine o.api () w

/-- The outcome of the first step after `new_event_loop` that fails, else that of
    the coroutine. -/
def Outcomes.firstFailure (o : Outcomes E V) : Except E V := do
  o.setEventLoop
  o.copyContext
  o.intoFuture
  o.runUntilComplete
  o.coroutine

/-! ## Running it -/

theorem bind_run {W A B : Type} (x : ExceptT E (StateM W) A) (f : A → ExceptT E (StateM W) B)
    (w : W) : (x >>= f) w = match x w with
      | (.ok a, w) => f a w
      | (.error e, w) => (.error e, w) := by
  simp only [bind, ExceptT.bind, ExceptT.mk, StateT.bind]
  cases x w with
  | mk result w' => cases result <;> rfl

theorem lift_run {W A : Type} (x : StateM W A) (w : W) :
    (ExceptT.lift x : ExceptT E (StateM W) A) w = (.ok (x w).1, (x w).2) := rfl

/-- What is to hold of a call that made the loop `eventLoop`. -/
structure CleanedUp (o : Outcomes E V) (eventLoop : Nat) (after : Except E V × LoopWorld) :
    Prop where
  closed : after.2.closed eventLoop = true
  notCurrent : after.2.current ≠ some eventLoop
  outcome : after.1 = o.firstFailure

section
variable {o : Outcomes E V} (w : LoopWorld) (himport : o.importAsyncio = .ok ())
  (hnew : o.newEventLoop = .ok ())
include himport hnew

/-- The three steps before the driver succeed: the cleanup is reached. -/
theorem run_of_driven (hset : o.setEventLoop = .ok ()) (hcopy : o.copyContext = .ok ())
    (hinto : o.intoFuture = .ok ()) (hclose : o.close = .ok ())
    (hclear : o.clearEventLoop = .ok ()) :
    o.run w = (o.firstFailure,
      { (o.effects { w.add with current := some w.created }).close w.created with
        current := none }) := by
  simp [Outcomes.run, runCoroutine, Outcomes.api, attempt, himport, hnew, hset, hcopy, hinto,
    hclose, hclear, bind_run, lift_run, ExceptT.run, ExceptT.mk, Outcomes.firstFailure]
  rfl

/-- One of them fails: the call returns its error with the loop still open. -/
theorem not_closed_of_early
    (h : ¬ (o.setEventLoop = .ok () ∧ o.copyContext = .ok () ∧ o.intoFuture = .ok ())) :
    (o.run w).2.closed w.created = false ∧ (o.run w).1 = o.firstFailure := by
  have hopen : w.add.closed w.created = false := Function.update_self _ _ _
  cases hset : o.setEventLoop with
  | error e =>
    have hrun : o.run w = (.error e, w.add) := by
      simp [Outcomes.run, runCoroutine, Outcomes.api, attempt, himport, hnew, hset, bind_run]
    rw [hrun]
    exact ⟨hopen, by simp only [Outcomes.firstFailure, hset]; rfl⟩
  | ok u => cases hcopy : o.copyContext with
    | error e =>
      have hrun : o.run w = (.error e, { w.add with current := some w.created }) := by
        simp [Outcomes.run, runCoroutine, Outcomes.api, attempt, himport, hnew, hset, hcopy,
          bind_run]
      rw [hrun]
      exact ⟨hopen, by simp only [Outcomes.firstFailure, hset, hcopy]; rfl⟩
    | ok u => cases hinto : o.intoFuture with
      | error e =>
        have hrun : o.run w = (.error e, { w.add with current := some w.created }) := by
          simp [Outcomes.run, runCoroutine, Outcomes.api, attempt, himport, hnew, hset, hcopy,
            hinto, bind_run]
        rw [hrun]
        exact ⟨hopen, by simp only [Outcomes.firstFailure, hset, hcopy, hinto]; rfl⟩
      | ok u => exact absurd ⟨hset, hcopy, hinto⟩ h

end

/-- When the loop that a call made is cleaned up. -/
theorem cleaned_up_iff (o : Outcomes E V) (w : LoopWorld) (himport : o.importAsyncio = .ok ())
    (hnew : o.newEventLoop = .ok ()) (hclose : o.close = .ok ())
    (hclear : o.clearEventLoop = .ok ()) :
    CleanedUp o w.created (o.run w) ↔
      o.setEventLoop = .ok () ∧ o.copyContext = .ok () ∧ o.intoFuture = .ok () := by
  constructor
  · intro h
    by_contra hearly
    have hopen := (not_closed_of_early w himport hnew hearly).1
    exact absurd (h.closed.symm.trans hopen) (by decide)
  · intro ⟨hset, hcopy, hinto⟩
    rw [run_of_driven w himport hnew hset hcopy hinto hclose hclear]
    refine ⟨?_, ?_, rfl⟩
    · simp [LoopWorld.close]
    · simp

/-- Every step succeeds, and the coroutine raises `raised`. -/
def Outcomes.raises (raised : Nat) : Outcomes Nat Nat where
  importAsyncio := .ok ()
  newEventLoop := .ok ()
  setEventLoop := .ok ()
  copyContext := .ok ()
  intoFuture := .ok ()
  runUntilComplete := .ok ()
  coroutine := .error raised
  effects := id
  close := .ok ()
  clearEventLoop := .ok ()

def LoopWorld.init : LoopWorld := { created := 0, closed := fun _ => false, current := none }

theorem cleaned_up_raises :
    CleanedUp (.raises 7) 0 ((Outcomes.raises 7).run .init) :=
  (cleaned_up_iff (.raises 7) .init rfl rfl rfl rfl).mpr ⟨rfl, rfl, rfl⟩

/-- `copy_context` fails: the loop is left open, and it is the current one. -/
theorem left_open_by_copy_context :
    let o : Outcomes Nat Nat := { Outcomes.raises 7 with copyContext := .error 8 }
    o.newEventLoop = .ok () ∧ o.close = .ok () ∧ o.clearEventLoop = .ok () ∧
    (o.run .init).1 = .error 8 ∧ (o.run .init).2.current = some 0 ∧
    ¬ CleanedUp o 0 (o.run .init) := by
  refine ⟨rfl, rfl, rfl, rfl, rfl, ?_⟩
  intro h
  exact absurd h.closed (by decide)

end FerroIo
