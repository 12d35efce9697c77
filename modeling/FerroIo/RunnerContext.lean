import FerroIo.RunCoroutine
import FerroIo.Runner
import FerroIo.StorePrograms
import Mathlib.Data.List.Basic
import Mathlib.Data.Option.Basic

/- Coroutines run one after the other on one Runner, and the context variables they
   read and set.

   A context is a store, named by a number; the layers between `Runner.run` and the
   coroutine are those of the source:
     `context.run(f)`                     runs `f` in the context itself, and raises
                                          where some code runs in it already;
     `TaskLocals::copy_context`           copies the current context;
     `into_future_with_locals`            makes a task in a copy of that copy.
   So each coroutine runs in a copy of the context current at the call, and what it
   sets is in no context that anyone can reach (`runAll_eq`).

   Main result: `runner_shares_iff`. With a context argument that nobody has entered,
   the calls see and leave one sequential store exactly when no coroutine changes it.
   Without one, where nobody looks at the store that is left, their reads and results
   are those of such a store exactly when no coroutine reads, before it sets it, a
   variable that those before it have changed. -/
namespace FerroIo

open StorePrograms (Store Program Observed Unnoticed sequential snapshots)

variable {F X A E R : Type}

abbrev Coro (X A E R : Type) := Program X A (Except E R)

/-- Every context made so far, those some code runs in, and the thread's current one. -/
structure ContextWorld (X A : Type) where
  store : Nat → Store X A
  entered : Nat → Bool
  next : Nat
  current : Nat

/-- A new context with the variables of `ctx`. -/
def ContextWorld.copy (w : ContextWorld X A) (ctx : Nat) : ContextWorld X A :=
  { w with store := Function.update w.store w.next (w.store ctx), next := w.next + 1 }

/-- The variables that a coroutine has read. -/
abbrev Reads (X A : Type) := List (X × Option A)

/-- What leaves a call: what the coroutine raised, with what it had read, or the
    RuntimeError of `context.run`. -/
inductive ContextError (X A E : Type) where
  | coroutine (reads : Reads X A) (e : E)
  | alreadyEntered

/-- What a run ends in, with what it has read. -/
def told (reads : Reads X A) : Except E R → Except (ContextError X A E) (Reads X A × R)
  | .ok r => .ok (reads, r)
  | .error e => .error (.coroutine reads e)

/-- What a call shows: what the coroutine read, how it ended, and the context after
    the call. There is nothing to see of a coroutine that was not run. -/
def shown (result : Except (RunError (ContextError X A E)) (Reads X A × R)) (after : Store X A) :
    Option (Observed X A (Except E R)) :=
  match result with
  | .ok (reads, r) => some { reads := reads, result := .ok r, after := after }
  | .error (.raised (.coroutine reads e)) =>
    some { reads := reads, result := .error e, after := after }
  | .error _ => none

theorem told_shown (reads : Reads X A) (result : Except E R) (after : Store X A) :
    shown ((told reads result).mapError .raised) after =
      some { reads := reads, result := result, after := after } := by
  cases result <;> rfl

section
variable [DecidableEq X]

/-- A task runs in its context. -/
def runTask (coro : Coro X A E R) (ctx : Nat) (w : ContextWorld X A) :
    Except (ContextError X A E) (Reads X A × R) × ContextWorld X A :=
  let run := coro.observe (w.store ctx)
  (told run.reads run.result, { w with store := Function.update w.store ctx run.after })

/-- The steps of `run_coroutine` on contexts. Task locals are a context, a future is
    a task with its own. -/
def contextApi : LoopApi (StateM (ContextWorld X A)) Unit Nat (Coro X A E R)
    (Coro X A E R × Nat) (ContextError X A E) (Reads X A × R) where
  importAsyncio w := (.ok (), w)
  newEventLoop w := (.ok (), w)
  setEventLoop _ w := (.ok (), w)
  copyContext _ w := (.ok w.next, w.copy w.current)
  intoFuture locals coro w := (.ok (coro, w.next), w.copy locals)
  runUntilComplete _ fut w := runTask fut.1 fut.2 w
  close _ w := (.ok (), w)

/-- `context.run(f)`. -/
def contextRun {B : Type} (ctx : Nat)
    (f : ContextWorld X A → Except (ContextError X A E) B × ContextWorld X A)
    (w : ContextWorld X A) : Except (ContextError X A E) B × ContextWorld X A :=
  if w.entered ctx then (.error .alreadyEntered, w)
  else
    match f { w with current := ctx, entered := Function.update w.entered ctx true } with
    | (result, after) =>
      (result, { after with
        current := w.current, entered := Function.update after.entered ctx false })

/-- `_with_eager_factory` awaits the coroutine in the same task, so in the same
    context. -/
def contextHost :
    Host (Coro X A E R) Nat (ContextError X A E) (Reads X A × R) (ContextWorld X A) where
  runCoroutine coro w := runCoroutine contextApi coro w
  contextRun ctx f w := contextRun ctx f w

/-- The context a call is about: its argument, or the current one. -/
def subject (context : Option Nat) (w : ContextWorld X A) : Nat := context.getD w.current

/-- `runner.run(c, context=context)` for each coroutine in turn. -/
def runAll (r : Runner F) (context : Option Nat) :
    List (Coro X A E R) → ContextWorld X A → List (Option (Observed X A (Except E R)))
  | [], _ => []
  | c :: cs, w =>
    match r.run contextHost (.coroutine c) context w with
    | (result, after) =>
      shown result (after.store (subject context after)) :: runAll r context cs after

/-! ## One call -/

/-- `run_coroutine` runs the coroutine in a copy of a copy of the current context. -/
theorem runCoroutine_contextApi (coro : Coro X A E R) (w : ContextWorld X A) :
    runCoroutine contextApi coro w =
      runTask coro (w.next + 1) ((w.copy w.current).copy w.next) := by
  have hfinal : ∀ (result : Except (ContextError X A E) (Reads X A × R)) (w : ContextWorld X A),
      (ExceptT.mk (pure result) : ExceptT (ContextError X A E) (StateM (ContextWorld X A)) _) w =
        (result, w) := fun _ _ => rfl
  simp only [runCoroutine, contextApi, bind_run, lift_run, ExceptT.run, hfinal]
  rfl

/-- The contexts that were there before a step are as they were. -/
structure Preserves (w after : ContextWorld X A) : Prop where
  current : after.current = w.current
  entered : after.entered = w.entered
  next : w.next ≤ after.next
  store : ∀ ctx, ctx < w.next → after.store ctx = w.store ctx

/-- The coroutine sees the current context and leaves it, and every other context,
    as it was. -/
theorem runCoroutine_preserves (coro : Coro X A E R) (w : ContextWorld X A) :
    let run := coro.observe (w.store w.current)
    ∃ after, runCoroutine contextApi coro w = (told run.reads run.result, after) ∧
      Preserves w after := by
  intro run
  have hstart : ((w.copy w.current).copy w.next).store (w.next + 1) = w.store w.current := by
    simp [ContextWorld.copy]
  rw [runCoroutine_contextApi]
  simp only [runTask, hstart]
  refine ⟨_, rfl, rfl, rfl, ?_, ?_⟩
  · simp only [ContextWorld.copy]
    omega
  · intro ctx hctx
    have hne : ctx ≠ w.next := by omega
    have hne' : ctx ≠ w.next + 1 := by omega
    simp [ContextWorld.copy, hne, hne']

/-- The context argument, if there is one, can be entered. -/
def CanEnter (context : Option Nat) (w : ContextWorld X A) : Prop :=
  ∀ ctx, context = some ctx → w.entered ctx = false

/-- One call on an open Runner: the coroutine sees its subject's variables, and what
    it sets is gone after the call. -/
theorem run_shown {r : Runner F} (hr : r.closed = false) {context : Option Nat}
    {w : ContextWorld X A} (henter : CanEnter context w) (coro : Coro X A E R) :
    ∃ result after, r.run contextHost (.coroutine coro) context w = (result, after) ∧
      Preserves w after ∧
      shown result (w.store (subject context w)) =
        some { coro.observe (w.store (subject context w)) with
          after := w.store (subject context w) } := by
  cases context with
  | none =>
    obtain ⟨after, hrun, hpres⟩ := runCoroutine_preserves coro w
    refine ⟨_, after, ?_, hpres, told_shown _ _ _⟩
    simp only [Runner.run, hr, contextHost, hrun, subject, Option.getD_none]
    rfl
  | some ctx =>
    have hfree : w.entered ctx = false := henter ctx rfl
    obtain ⟨after, hrun, hpres⟩ := runCoroutine_preserves coro
      { w with current := ctx, entered := Function.update w.entered ctx true }
    have hleft : Function.update after.entered ctx false = w.entered := by
      rw [hpres.entered, Function.update_idem, ← hfree, Function.update_eq_self]
    refine ⟨_, { after with
        current := w.current, entered := Function.update after.entered ctx false },
      ?_, ⟨rfl, hleft, hpres.next, hpres.store⟩, told_shown _ _ _⟩
    simp [Runner.run, hr, contextHost, contextRun, hfree, hrun, subject]

/-- Any number of calls: each coroutine runs in a snapshot of the same store. -/
theorem runAll_eq {r : Runner F} (hr : r.closed = false) {context : Option Nat}
    {w : ContextWorld X A} (henter : CanEnter context w) (hsub : subject context w < w.next)
    (cs : List (Coro X A E R)) :
    runAll r context cs w = (snapshots cs (w.store (subject context w))).map some := by
  induction cs generalizing w with
  | nil => rfl
  | cons c cs ih =>
    obtain ⟨result, after, hrun, hpres, hshown⟩ := run_shown hr henter c
    have hsame : subject context after = subject context w := by
      simp only [subject, hpres.current]
    have hstore : after.store (subject context after) = w.store (subject context w) := by
      rw [hsame]
      exact hpres.store _ hsub
    have henter' : CanEnter context after := by
      intro ctx hctx
      rw [hpres.entered]
      exact henter ctx hctx
    have hrest := ih henter' (hsame ▸ Nat.lt_of_lt_of_le hsub hpres.next)
    simp only [runAll, hrun, hrest, hstore, hshown]
    rfl

/-- In a context that is entered already no coroutine is run. -/
theorem runAll_entered {r : Runner F} (hr : r.closed = false) {w : ContextWorld X A} {ctx : Nat}
    (hentered : w.entered ctx = true) (cs : List (Coro X A E R)) :
    runAll r (some ctx) cs w = cs.map fun _ => none := by
  induction cs with
  | nil => rfl
  | cons c cs ih =>
    have hrun : r.run contextHost (.coroutine c) (some ctx) w =
        (.error (.raised .alreadyEntered), w) := by
      simp only [Runner.run, hr, contextHost, contextRun, hentered]
      rfl
    simp only [runAll, hrun, ih]
    rfl

/-- When the coroutines run on one Runner see a single sequential store. -/
theorem runner_shares_iff (r : Runner F) (hr : r.closed = false) (cs : List (Coro X A E R))
    (w : ContextWorld X A) (hcur : w.current < w.next) :
    (∀ ctx, ctx < w.next →
      (runAll r (some ctx) cs w = (sequential cs (w.store ctx)).map some ↔
        cs = [] ∨ w.entered ctx = false ∧ ∀ c ∈ cs, c.Keeps (w.store ctx))) ∧
    ((runAll r none cs w).map (Option.map Observed.visible) =
        (sequential cs (w.store w.current)).map (fun o => some o.visible) ↔
      Unnoticed (w.store w.current) (w.store w.current) cs) := by
  refine ⟨?_, ?_⟩
  · intro ctx hctx
    cases hentered : w.entered ctx with
    | true =>
      rw [runAll_entered hr hentered]
      cases cs with
      | nil => exact iff_of_true rfl (.inl rfl)
      | cons c cs => simp [sequential]
    | false =>
      have henter : CanEnter (some ctx) w := by
        rintro _ ⟨⟩
        exact hentered
      have hall : runAll r (some ctx) cs w = (snapshots cs (w.store ctx)).map some :=
        runAll_eq hr henter hctx cs
      have hcond : (cs = [] ∨ false = false ∧ ∀ c ∈ cs, c.Keeps (w.store ctx)) ↔
          ∀ c ∈ cs, c.Keeps (w.store ctx) := by
        cases cs <;> simp
      rw [hall, hcond, ← StorePrograms.snapshots_eq_iff]
      exact (List.map_injective_iff.mpr (Option.some_injective _)).eq_iff
  · have henter : CanEnter none w := by
      intro ctx h
      cases h
    have hall : runAll r none cs w = (snapshots cs (w.store w.current)).map some :=
      runAll_eq hr henter hcur cs
    have hleft : ((snapshots cs (w.store w.current)).map some).map (Option.map Observed.visible) =
        ((snapshots cs (w.store w.current)).map Observed.visible).map some := by
      simp [Function.comp_def]
    have hright : (sequential cs (w.store w.current)).map (fun o => some o.visible) =
        ((sequential cs (w.store w.current)).map Observed.visible).map some := by
      simp
    rw [hall, hleft, hright, ← StorePrograms.snapshots_visible_iff]
    exact (List.map_injective_iff.mpr (Option.some_injective _)).eq_iff

/-- An open Runner, and a thread in context 0 with a second context 1; no variable is
    set in either. -/
def openRunner : Runner Unit := { debug := none, closed := false, sigint := .new, entered := true }

def emptyContexts : ContextWorld Nat Nat :=
  { store := fun _ _ => none, entered := fun _ => false, next := 2, current := 0 }

def readVar (x : Nat) : Coro Nat Nat Unit (Option Nat) := .get x fun a => .done (.ok a)

def setVar (x : Nat) : Coro Nat Nat Unit (Option Nat) := .set x 7 (.done (.ok none))

/-- Coroutines that only read, and one that sets a variable which the other does not read. -/
theorem runner_shares_reads :
    runAll openRunner (some 1) [readVar 0, readVar 0] emptyContexts =
      (sequential [readVar 0, readVar 0] (emptyContexts.store 1)).map some ∧
    (runAll openRunner none [setVar 0, readVar 1] emptyContexts).map
        (Option.map Observed.visible) =
      (sequential [setVar 0, readVar 1] (emptyContexts.store 0)).map
        (fun o => some o.visible) := by
  refine ⟨?_, ?_⟩
  · have hread : (readVar 0).Keeps (fun _ => none) := rfl
    apply ((runner_shares_iff openRunner rfl [readVar 0, readVar 0] emptyContexts
      (by decide)).1 1 (by decide)).mpr
    simp only [List.forall_mem_cons]
    exact .inr ⟨rfl, hread, hread, by simp⟩
  · apply (runner_shares_iff openRunner rfl [setVar 0, readVar 1] emptyContexts
      (by decide)).2.mpr
    simp only [StorePrograms.unnoticed_cons]
    refine ⟨fun x hx => ?_, fun x hx => ?_, ?_⟩
    · cases hx
    · obtain rfl : x = 1 := List.mem_singleton.mp hx
      rfl
    · intro earlier p later h
      simp at h

/-- What the first coroutine sets, the second does not see. -/
theorem runner_does_not_share :
    runAll openRunner (some 1) [setVar 0, readVar 0] emptyContexts ≠
      (sequential [setVar 0, readVar 0] (emptyContexts.store 1)).map some ∧
    (runAll openRunner none [setVar 0, readVar 0] emptyContexts).map
        (Option.map Observed.visible) ≠
      (sequential [setVar 0, readVar 0] (emptyContexts.store 0)).map
        (fun o => some o.visible) := by
  refine ⟨?_, ?_⟩
  · intro h
    have hresults := congrArg (List.map (Option.map fun o => o.result.toOption)) h
    exact absurd hresults (by decide)
  · intro h
    have hresults := congrArg (List.map (Option.map fun v => v.2.toOption)) h
    exact absurd hresults (by decide)

end

end FerroIo
