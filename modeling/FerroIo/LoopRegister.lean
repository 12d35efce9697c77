import FerroIo.Delegation
import FerroIo.EventRun
import FerroIo.RunCoroutine

/- A thread's current event loop, written and read through `ferro_io`.

   Correspondence (Python ↔ Lean):
     `asyncio.get_running_loop`, `new_event_loop`, ..  ↔ `Asyncio.getRunningLoop`, ..
     `ferro_io.get_event_loop`, `new_event_loop`       ↔ `getEventLoop`, `newEventLoop`
     `ferro_io.set_event_loop`, by `__getattr__`       ↔ `fromFerroIo _ .setEventLoop`
     `Runner.get_loop`                                 ↔ `Runner.getLoop`
     `run`                                             ↔ `Outcomes.run`

   Main result: `reads_back_iff`. The calls of a sequence return what they are due
   exactly when a loop is running, or none is and `get_event_loop` is never called
   while a loop set by `set_event_loop` is in force: `ferro_io.get_event_loop` then
   makes a new loop and does not look at the register. `Runner.get_loop`, which asks
   stdlib asyncio, returns the loop that was set (`getLoop_reads_back`). -/
namespace FerroIo

open Delegation (Tables resolve)

/-- The loops of a thread, and the one that is running in it. -/
structure ThreadLoops extends LoopWorld where
  running : Option Nat

inductive LoopError where
  | runtimeError
  | attributeError
  deriving DecidableEq, Repr

abbrev LoopM := ExceptT LoopError (StateM ThreadLoops)

/-! ## Stdlib asyncio -/

namespace Asyncio

def getRunningLoop : LoopM Nat := fun t =>
  match t.running with
  | some l => (.ok l, t)
  | none => (.error .runtimeError, t)

def newEventLoop : LoopM Nat := fun t =>
  (.ok t.created, { t with toLoopWorld := t.toLoopWorld.add })

def setEventLoop (l : Option Nat) : LoopM Unit := fun t => (.ok (), { t with current := l })

/-- With no loop running and none set, it raises RuntimeError or makes and sets a
    loop, by Python version and policy: `unset` says which. -/
def getEventLoop (unset : LoopM Nat) : LoopM Nat := fun t =>
  match t.running with
  | some l => (.ok l, t)
  | none =>
    match t.current with
    | some l => (.ok l, t)
    | none => unset t

end Asyncio

/-! ## `ferro_io` -/

/-- `except RuntimeError`. -/
def exceptRuntimeError {A : Type} (body handler : LoopM A) : LoopM A :=
  tryCatch body fun e => if e = .runtimeError then handler else throw e

def getEventLoop : LoopM Nat := exceptRuntimeError Asyncio.getRunningLoop Asyncio.newEventLoop

def newEventLoop : LoopM Nat := Asyncio.newEventLoop

def Runner.getLoop (unset : LoopM Nat) : LoopM Nat :=
  exceptRuntimeError (Asyncio.getEventLoop unset) Asyncio.newEventLoop

inductive LoopModule where
  | ferroIo
  | asyncio
  deriving DecidableEq, Repr

inductive LoopName where
  | setEventLoop
  | newEventLoop
  | getEventLoop
  deriving DecidableEq, Repr

/-- What these names stand for: functions that take a loop or nothing, and return a
    loop or None. -/
abbrev LoopFunction := Option Nat → LoopM (Option Nat)

/-- The two modules' own names; `ferro_io.__getattr__` asks asyncio for the others. -/
def loopTables (unset : LoopM Nat) : Tables LoopModule LoopName LoopFunction where
  binding
    | .ferroIo, .getEventLoop => some fun _ => some <$> getEventLoop
    | .ferroIo, .newEventLoop => some fun _ => some <$> newEventLoop
    | .ferroIo, .setEventLoop => none
    | .asyncio, .getEventLoop => some fun _ => some <$> Asyncio.getEventLoop unset
    | .asyncio, .newEventLoop => some fun _ => some <$> Asyncio.newEventLoop
    | .asyncio, .setEventLoop => some fun l => (fun _ => none) <$> Asyncio.setEventLoop l
  fallback
    | .ferroIo => some .asyncio
    | .asyncio => none

/-- `ferro_io.name`. -/
def fromFerroIo (unset : LoopM Nat) (name : LoopName) : LoopFunction :=
  match resolve (loopTables unset) 2 .ferroIo name with
  | some (.ok f) => f
  | _ => fun _ => throw .attributeError

@[simp] theorem fromFerroIo_setEventLoop (unset : LoopM Nat) (l : Option Nat) (t : ThreadLoops) :
    fromFerroIo unset .setEventLoop l t = (.ok none, { t with current := l }) := rfl

@[simp] theorem fromFerroIo_newEventLoop (unset : LoopM Nat) (arg : Option Nat)
    (t : ThreadLoops) : fromFerroIo unset .newEventLoop arg t =
      (.ok (some t.created), { t with toLoopWorld := t.toLoopWorld.add }) := rfl

theorem exceptRuntimeError_ok {A : Type} {body handler : LoopM A} {t t' : ThreadLoops} {a : A}
    (h : body t = (.ok a, t')) : exceptRuntimeError body handler t = (.ok a, t') := by
  simp [exceptRuntimeError, tryCatch, tryCatchThe, MonadExceptOf.tryCatch, ExceptT.tryCatch,
    ExceptT.mk, bind, StateT.bind, h]
  rfl

theorem exceptRuntimeError_raised {A : Type} {body handler : LoopM A} {t t' : ThreadLoops}
    (h : body t = (.error .runtimeError, t')) :
    exceptRuntimeError body handler t = handler t' := by
  simp [exceptRuntimeError, tryCatch, tryCatchThe, MonadExceptOf.tryCatch, ExceptT.tryCatch,
    ExceptT.mk, bind, StateT.bind, h]

theorem getEventLoop_running {t : ThreadLoops} {l : Nat} (h : t.running = some l) :
    getEventLoop t = (.ok l, t) :=
  exceptRuntimeError_ok (by simp [Asyncio.getRunningLoop, h])

theorem getEventLoop_idle {t : ThreadLoops} (h : t.running = none) :
    getEventLoop t = (.ok t.created, { t with toLoopWorld := t.toLoopWorld.add }) :=
  exceptRuntimeError_raised (by simp [Asyncio.getRunningLoop, h])

theorem map_run {A B : Type} (g : A → B) {x : LoopM A} {t t' : ThreadLoops} {a : A}
    (h : x t = (.ok a, t')) : (g <$> x) t = (.ok (g a), t') := by
  simp [Functor.map, ExceptT.map, ExceptT.mk, bind, StateT.bind, h]
  rfl

/-- Inside a running loop it returns that loop. -/
theorem fromFerroIo_running (unset : LoopM Nat) {t : ThreadLoops} {l : Nat}
    (h : t.running = some l) :
    fromFerroIo unset .getEventLoop none t = (.ok (some l), t) :=
  map_run some (getEventLoop_running h)

/-- Elsewhere it makes a new loop, whatever the register holds. -/
theorem fromFerroIo_idle (unset : LoopM Nat) {t : ThreadLoops} (h : t.running = none) :
    fromFerroIo unset .getEventLoop none t =
      (.ok (some t.created), { t with toLoopWorld := t.toLoopWorld.add }) :=
  map_run some (getEventLoop_idle h)

/-! ## Sequences of calls -/

/-- What a `get_event_loop` call was due to return, if anything, and what it gave. -/
structure Reading where
  due : Option Nat
  got : Except LoopError (Option Nat)

def Reading.Right (r : Reading) : Prop := ∀ l, r.due = some l → r.got = .ok (some l)

/-- A thread with the loop that is in force by the last `set_event_loop`, and the
    readings so far. No step looks at these two. -/
structure LoopThread where
  loops : ThreadLoops
  inForce : Option Nat
  readings : List Reading

def LoopThread.start (loops : ThreadLoops) : LoopThread :=
  { loops := loops, inForce := none, readings := [] }

def LoopThread.due (t : LoopThread) : Option Nat :=
  match t.loops.running with
  | some l => some l
  | none => t.inForce

variable {E V : Type}

inductive LoopCall (E V : Type) where
  | setEventLoop (l : Option Nat)
  | newEventLoop
  | getEventLoop
  | run (o : Outcomes E V)

def LoopThread.step (unset : LoopM Nat) (t : LoopThread) : LoopCall E V → LoopThread
  | .setEventLoop l =>
    { t with loops := (fromFerroIo unset .setEventLoop l t.loops).2, inForce := l }
  | .newEventLoop => { t with loops := (fromFerroIo unset .newEventLoop none t.loops).2 }
  | .getEventLoop =>
    let after := fromFerroIo unset .getEventLoop none t.loops
    { t with loops := after.2, readings := t.readings ++ [⟨t.due, after.1⟩] }
  | .run o =>
    { t with
      loops := { t.loops with toLoopWorld := (o.run t.loops.toLoopWorld).2 }
      inForce := none }

/-- A loop that is set has been made before. -/
def LoopExists (t : LoopThread) : LoopCall E V → Prop
  | .setEventLoop (some l) => l < t.loops.created
  | _ => True

/-- `get_event_loop` is not called between a `set_event_loop(l)`, `l` not None, and
    the next `set_event_loop` or `run`; the flag says whether such an `l` is in force
    at the start. -/
def NoGetWhileSet : Bool → List (LoopCall E V) → Prop
  | _, [] => True
  | _, .setEventLoop l :: calls => NoGetWhileSet l.isSome calls
  | inForce, .newEventLoop :: calls => NoGetWhileSet inForce calls
  | inForce, .getEventLoop :: calls => inForce = false ∧ NoGetWhileSet inForce calls
  | _, .run _ :: calls => NoGetWhileSet false calls

section
variable {unset : LoopM Nat} {t : LoopThread}

theorem step_setEventLoop (l : Option Nat) :
    t.step unset (.setEventLoop l : LoopCall E V) =
      { t with loops := { t.loops with current := l }, inForce := l } := by
  simp [LoopThread.step]

theorem step_newEventLoop : t.step unset (.newEventLoop : LoopCall E V) =
    { t with loops := { t.loops with toLoopWorld := t.loops.toLoopWorld.add } } := by
  simp [LoopThread.step]

theorem step_getEventLoop_running {l : Nat} (h : t.loops.running = some l) :
    t.step unset (.getEventLoop : LoopCall E V) =
      { t with readings := t.readings ++ [⟨some l, .ok (some l)⟩] } := by
  simp [LoopThread.step, fromFerroIo_running unset h, LoopThread.due, h]

theorem step_getEventLoop_idle (h : t.loops.running = none) :
    t.step unset (.getEventLoop : LoopCall E V) =
      { t with
        loops := { t.loops with toLoopWorld := t.loops.toLoopWorld.add }
        readings := t.readings ++ [⟨t.inForce, .ok (some t.loops.created)⟩] } := by
  simp [LoopThread.step, fromFerroIo_idle unset h, LoopThread.due, h]

/-- No call starts or ends a running loop: a `run` has ended it when it returns. -/
theorem step_running (c : LoopCall E V) : (t.step unset c).loops.running = t.loops.running := by
  cases c with
  | setEventLoop l => rw [step_setEventLoop]
  | newEventLoop => rw [step_newEventLoop]
  | getEventLoop =>
    cases h : t.loops.running with
    | some l => rw [step_getEventLoop_running h, h]
    | none => rw [step_getEventLoop_idle h, h]
  | run o => rfl

end

/-! ## Inside a running loop -/

/-- Step lemma: while a loop runs, every reading is right. -/
theorem right_step_running (unset : LoopM Nat) {l : Nat} (t : LoopThread) (c : LoopCall E V)
    (h : t.loops.running = some l ∧ ∀ r ∈ t.readings, r.Right) :
    (t.step unset c).loops.running = some l ∧ ∀ r ∈ (t.step unset c).readings, r.Right := by
  obtain ⟨hrun, hright⟩ := h
  refine ⟨(step_running c).trans hrun, ?_⟩
  cases c with
  | setEventLoop l' =>
    rw [step_setEventLoop]
    exact hright
  | newEventLoop =>
    rw [step_newEventLoop]
    exact hright
  | getEventLoop =>
    rw [step_getEventLoop_running hrun]
    intro r hr
    rcases List.mem_append.mp hr with hold | hnew
    · exact hright r hold
    · obtain rfl := List.mem_singleton.mp hnew
      intro l' hl'
      exact congrArg Except.ok hl'
  | run o => exact hright

/-! ## With no loop running -/

/-- The loop that is in force was made, and the register holds it. -/
structure Registered (t : LoopThread) : Prop where
  idle : t.loops.running = none
  current : ∀ l, t.inForce = some l → t.loops.current = some l
  made : ∀ l, t.inForce = some l → l < t.loops.created

theorem registered_start {loops : ThreadLoops} (h : loops.running = none) :
    Registered (.start loops) where
  idle := h
  current _ hl := by cases hl
  made _ hl := by cases hl

/-- Step lemma: the register follows what was set. -/
theorem registered_step {unset : LoopM Nat} {t : LoopThread} {c : LoopCall E V}
    (h : Registered t) (hexists : LoopExists t c) : Registered (t.step unset c) := by
  have hidle : (t.step unset c).loops.running = none := (step_running c).trans h.idle
  cases c with
  | setEventLoop l =>
    rw [step_setEventLoop] at hidle ⊢
    refine ⟨hidle, fun _ hl => hl, ?_⟩
    rintro l' rfl
    exact hexists
  | newEventLoop =>
    rw [step_newEventLoop] at hidle ⊢
    exact ⟨hidle, h.current, fun l hl => Nat.lt_succ_of_lt (h.made l hl)⟩
  | getEventLoop =>
    rw [step_getEventLoop_idle h.idle] at hidle ⊢
    exact ⟨hidle, h.current, fun l hl => Nat.lt_succ_of_lt (h.made l hl)⟩
  | run o =>
    refine ⟨hidle, ?_, ?_⟩
    · intro l hl
      cases hl
    · intro l hl
      cases hl

/-- A new loop is not the one in force. -/
theorem right_idle_iff {t : LoopThread} (h : Registered t) :
    (⟨t.inForce, .ok (some t.loops.created)⟩ : Reading).Right ↔ t.inForce.isSome = false := by
  cases hset : t.inForce with
  | none => simp [Reading.Right]
  | some l =>
    have hne : t.loops.created ≠ l := Nat.ne_of_gt (h.made l hset)
    simp [Reading.Right, hne]

/-- Run lemma: which sequences have right readings only. -/
theorem right_run_idle {unset : LoopM Nat} {t : LoopThread} {calls : List (LoopCall E V)}
    (h : Registered t) (hexists : EventRun.Meets (LoopThread.step unset) LoopExists t calls) :
    (∀ r ∈ (EventRun.run (LoopThread.step unset) t calls).readings, r.Right) ↔
      (∀ r ∈ t.readings, r.Right) ∧ NoGetWhileSet t.inForce.isSome calls := by
  induction calls generalizing t with
  | nil => simp [NoGetWhileSet]
  | cons c calls ih =>
    have hrest := ih (registered_step h hexists.1) hexists.2
    rw [EventRun.run_cons, hrest]
    cases c with
    | setEventLoop l =>
      rw [step_setEventLoop]
      rfl
    | newEventLoop =>
      rw [step_newEventLoop]
      rfl
    | getEventLoop =>
      rw [step_getEventLoop_idle h.idle]
      simp only [List.mem_append, List.mem_singleton, NoGetWhileSet, ← right_idle_iff h]
      constructor
      · rintro ⟨hright, hcalls⟩
        exact ⟨fun r hr => hright r (.inl hr), hright _ (.inr rfl), hcalls⟩
      · rintro ⟨hold, hnew, hcalls⟩
        refine ⟨?_, hcalls⟩
        rintro r (hr | rfl)
        · exact hold r hr
        · exact hnew
    | run o => rfl

/-- When every `get_event_loop` returns the loop it is due to return. -/
theorem reads_back_iff (unset : LoopM Nat) (loops : ThreadLoops) (calls : List (LoopCall E V))
    (hexists : EventRun.Meets (LoopThread.step unset) LoopExists (.start loops) calls) :
    (∀ r ∈ (EventRun.run (LoopThread.step unset) (.start loops) calls).readings, r.Right) ↔
      loops.running.isSome ∨ NoGetWhileSet false calls := by
  cases hrun : loops.running with
  | some l =>
    have hstart : (LoopThread.start loops).loops.running = some l ∧
        ∀ r ∈ (LoopThread.start loops).readings, r.Right :=
      ⟨hrun, fun r hr => by cases hr⟩
    have hright := EventRun.run_inv (right_step_running unset) hstart calls
    exact iff_of_true hright.2 (.inl rfl)
  | none =>
    rw [right_run_idle (registered_start hrun) hexists]
    simp [LoopThread.start]

/-- A thread in which no loop was made yet. -/
def ThreadLoops.init : ThreadLoops :=
  { created := 0, closed := fun _ => false, current := none, running := none }

/-- Loop 1 is running when loop 0 is set: `get_event_loop()` returns loop 1. -/
theorem reads_back_inside :
    let inside : ThreadLoops := { ThreadLoops.init with created := 2, running := some 1 }
    let calls : List (LoopCall Nat Nat) := [.setEventLoop (some 0), .getEventLoop]
    let after := EventRun.run (LoopThread.step (throw .runtimeError)) (.start inside) calls
    after.readings = [⟨some 1, .ok (some 1)⟩] ∧ ∀ r ∈ after.readings, r.Right := by
  intro inside calls after
  refine ⟨rfl, ?_⟩
  exact (reads_back_iff (throw .runtimeError) inside calls
    ⟨Nat.zero_lt_two, trivial, trivial⟩).mpr (.inl rfl)

/-- `set_event_loop(new_event_loop())`: the next two `get_event_loop()` calls return
    two other loops. -/
theorem set_loop_not_read :
    let calls : List (LoopCall Nat Nat) :=
      [.newEventLoop, .setEventLoop (some 0), .getEventLoop, .getEventLoop]
    let after := EventRun.run (LoopThread.step (throw .runtimeError)) (.start .init) calls
    EventRun.Meets (LoopThread.step (throw .runtimeError)) LoopExists (.start .init) calls ∧
    after.readings = [⟨some 0, .ok (some 1)⟩, ⟨some 0, .ok (some 2)⟩] ∧
    ¬ ∀ r ∈ after.readings, r.Right := by
  refine ⟨⟨trivial, Nat.zero_lt_one, trivial, trivial, trivial⟩, rfl, ?_⟩
  intro h
  have hfirst := h ⟨some 0, .ok (some 1)⟩ (.head _) 0 rfl
  cases hfirst

/-! ## `Runner.get_loop` -/

/-- In every run it returns the loop that is in force, and makes none. -/
theorem getLoop_reads_back (unset : LoopM Nat) {loops : ThreadLoops} (hidle : loops.running = none)
    {calls : List (LoopCall E V)}
    (hexists : EventRun.Meets (LoopThread.step unset) LoopExists (.start loops) calls) {l : Nat}
    (hset : (EventRun.run (LoopThread.step unset) (.start loops) calls).inForce = some l) :
    Runner.getLoop unset (EventRun.run (LoopThread.step unset) (.start loops) calls).loops =
      (.ok l, (EventRun.run (LoopThread.step unset) (.start loops) calls).loops) := by
  have hreg : Registered (EventRun.run (LoopThread.step unset) (.start loops) calls) :=
    EventRun.run_inv_of_meets (fun _ _ h hc => registered_step h hc) (registered_start hidle)
      hexists
  apply exceptRuntimeError_ok
  simp [Asyncio.getEventLoop, hreg.idle, hreg.current l hset]

end FerroIo
