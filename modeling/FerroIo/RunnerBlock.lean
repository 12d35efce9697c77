import FerroIo.RunProcess

/- Coroutines on one Runner beside one `run` call for each:

     with Runner() as r: r.run(c1); r.run(c2); ..      run(c1); run(c2); ..

   `Runner.run` has no guard of its own: the block sets the SIGINT handler once and writes it
   back once, where each `run` does both.

   Main result: `runner_block_eq_runs`. The two give the same values or the same exception
   and leave the same process, loops and runtime included, if each coroutine but the last
   leaves the guard's override in force. -/
namespace FerroIo

open WithBlock (Manager)

variable {F E V : Type}

/-- A coroutine for `run` or `Runner.run`, with how the steps of its call end. -/
abbrev RunItem (F E V : Type) := RunSteps E × RunArg (Coroutine F E V)

/-- One call after the other, up to the first that raises. -/
def inTurn {A W : Type} (call : A → W → Except (RunError E) V × W) :
    List A → W → Except (RunError E) (List V) × W
  | [], w => (.ok [], w)
  | a :: rest, w =>
    match call a w with
    | (.error e, w) => (.error e, w)
    | (.ok v, w) =>
      match inTurn call rest w with
      | (.error e, w) => (.error e, w)
      | (.ok vs, w) => (.ok (v :: vs), w)

def runItem (env : PythonEnv E) (item : RunItem F E V) (p : Process F) :
    Except (RunError E) V × Process F :=
  runIn env item.1 false (item.2.map (Coroutine.exec env)) p

/-- What `Runner.run` calls into. -/
def runnerHost (env : PythonEnv E) (o : RunSteps E) :
    Host (ProcessM F E V) Unit E V (Process F) where
  runCoroutine c p := driveCoroutine env o c p
  contextRun _ f p := f p

/-- `r.run(coro)`. -/
def Runner.runItem (env : PythonEnv E) (r : Runner F) (item : RunItem F E V) (p : Process F) :
    Except (RunError E) V × Process F :=
  r.run (runnerHost env item.1) (item.2.map (Coroutine.exec env)) none p

/-- A Runner in a `with` statement. -/
def processRunner (mainThread : Bool) : Manager (Runner F) (Process F) (RunError E) where
  enter r p :=
    let after := r.enter mainThread p.sigint
    (after.1, after.2.1, { p with sigint := after.2.2 })
  exit r p :=
    let after := r.exit mainThread p.sigint
    (after.1, after.2.1, { p with sigint := after.2.2 })

/-- What `Runner(debug=debug)` makes. -/
def Runner.fresh (debug : Option Bool) : Runner F :=
  { debug := debug, closed := false, sigint := .new, entered := false }

/-- `with Runner(debug=debug) as r`, with `r.run` for each item. The body does not close the
    Runner, so that `r.run` finds it as `__init__` has left it in the field it reads. -/
def runnerBlock (env : PythonEnv E) (debug : Option Bool) (items : List (RunItem F E V))
    (p : Process F) : WithBlock.Ended (Runner F) (Process F) (RunError E) (List V) :=
  (processRunner env.mainThread).block (.fresh debug)
    (inTurn ((Runner.fresh debug).runItem env) items) p

/-- A coroutine that the guard's override survives. -/
def LeavesOverride (env : PythonEnv E) (c : Coroutine F E V) : Prop :=
  ∀ q : Process F, q.sigint = .python .defaultInt →
    (c.exec env q).2.sigint = .python .defaultInt

section
variable {env : PythonEnv E} {r : Runner F}

theorem runItem_coroutine (hr : r.closed = false) (o : RunSteps E) (c : Coroutine F E V)
    (p : Process F) : r.runItem env (o, .coroutine c) p =
      let after := driveCoroutine env o (c.exec env) p
      (after.1.mapError .raised, after.2) := by
  simp only [Runner.runItem, Runner.run, hr, RunArg.map, runnerHost]
  rfl

theorem runItem_other (hr : r.closed = false) (o : RunSteps E) (repr : String)
    (p : Process F) : (r.runItem env (o, .other repr) p : Except (RunError E) V × _) =
      (.error (.notCoroutine repr), p) := by
  simp [Runner.runItem, Runner.run, hr, RunArg.map]

/-- Inside the block on the main thread, where the override is in force, every call goes as
    its `run` does that finds the handler `H`, and leaves the process up to the handler. -/
theorem inTurn_main (hmain : env.mainThread = true) (hr : r.closed = false) (H : Handler F)
    {items : List (RunItem F E V)}
    (hitems : ∀ item ∈ items.dropLast, ∀ c, item.2 = .coroutine c → LeavesOverride env c)
    {p : Process F} (hp : p.sigint = .python .defaultInt) :
    inTurn (runItem env) items { p with sigint := .python H } =
      let after := inTurn (r.runItem env) items p
      (after.1, { after.2 with sigint := .python H }) := by
  induction items generalizing p with
  | nil => rfl
  | cons item items ih =>
    obtain ⟨o, arg⟩ := item
    cases arg with
    | other repr =>
      rw [inTurn, inTurn, runItem_other hr]
      rfl
    | coroutine c =>
      have hsame : Process.guarded { p with sigint := .python H } = p := by
        rw [Process.guarded, ← hp]
      have hrun : runItem env (o, .coroutine c) { p with sigint := .python H } =
          let after := driveCoroutine env o (c.exec env) p
          (after.1.mapError .raised, { after.2 with sigint := .python H }) := by
        rw [runItem, RunArg.map, runIn_main hmain rfl, hsame]
      rw [inTurn, inTurn, hrun, runItem_coroutine hr]
      cases hdrive : driveCoroutine env o (c.exec env) p with
      | mk result q =>
        cases result with
        | error e => rfl
        | ok v =>
          cases items with
          | nil => rfl
          | cons next rest =>
            have hc : LeavesOverride env c := hitems (o, .coroutine c) (by simp) c rfl
            have hleft : (driveCoroutine env o (c.exec env) p).2.sigint = .python .defaultInt :=
              sigint_driveCoroutine hc hp
            have hq : q.sigint = .python .defaultInt := by
              rw [hdrive] at hleft
              exact hleft
            have hrest := ih (fun item hitem => hitems item (by
              rw [List.dropLast_cons_cons]
              exact List.mem_cons_of_mem _ hitem)) hq
            simp only [Except.mapError, hrest]
            cases inTurn (r.runItem env) (next :: rest) q with
            | mk result q' => cases result <;> rfl

/-- Off the main thread there is no guard. -/
theorem inTurn_off (hoff : env.mainThread = false) (hr : r.closed = false)
    (items : List (RunItem F E V)) (p : Process F) :
    inTurn (runItem env) items p = inTurn (r.runItem env) items p := by
  have hitem : runItem env = r.runItem (E := E) (V := V) env := by
    funext item q
    obtain ⟨o, arg⟩ := item
    cases arg with
    | other repr =>
      rw [runItem_other hr]
      rfl
    | coroutine c => rw [runItem, RunArg.map, runIn_off hoff, runItem_coroutine hr]
  rw [hitem]

end

/-- A block on one Runner is a sequence of `run` calls. -/
theorem runner_block_eq_runs (env : PythonEnv E) (debug : Option Bool)
    (items : List (RunItem F E V)) (p : Process F)
    (hp : env.mainThread = true → p.sigint ≠ .native)
    (hitems : env.mainThread = true →
      ∀ item ∈ items.dropLast, ∀ c, item.2 = .coroutine c → LeavesOverride env c) :
    let block := runnerBlock env debug items p
    (block.outcome, block.state) = inTurn (runItem env) items p ∧
      block.manager.closed = true ∧ block.manager.entered = false := by
  cases hthread : env.mainThread with
  | false =>
    have hblock : runnerBlock env debug items p =
        let after := inTurn ((Runner.fresh debug : Runner F).runItem env) items p
        ⟨after.1, { (Runner.fresh debug : Runner F) with closed := true }, after.2⟩ := by
      simp [runnerBlock, Runner.fresh, Manager.block, processRunner, hthread, Runner.enter,
        Runner.exit, Runner.close, SigintGuard.off_main]
    rw [hblock]
    exact ⟨(inTurn_off hthread rfl items p).symm, rfl, rfl⟩
  | true =>
    cases hsigint : p.sigint with
    | native => exact absurd hsigint (hp hthread)
    | python H =>
      have hblock : runnerBlock env debug items p =
          let after := inTurn ((Runner.fresh debug : Runner F).runItem env) items p.guarded
          ⟨after.1, { (Runner.fresh debug : Runner F) with
              closed := true, sigint := ⟨some H, false⟩ },
            { after.2 with sigint := .python H }⟩ := by
        simp [runnerBlock, Runner.fresh, Manager.block, processRunner, hthread, hsigint,
          Disposition.known, Runner.exit, Runner.close, Process.guarded]
      have hfound : { p.guarded with sigint := .python H } = p := by
        rw [Process.guarded, ← hsigint]
      have hr : (Runner.fresh debug : Runner F).closed = false := rfl
      have hruns := inTurn_main hthread hr H (hitems hthread) (p := p.guarded) rfl
      rw [hfound] at hruns
      rw [hblock, hruns]
      exact ⟨rfl, rfl, rfl⟩

/-- Two coroutines, of which the last sets a handler and calls `run`. -/
theorem runner_block_eq_runs_ignoring :
    let items : List (RunItem Unit String Bool) :=
      [(.succeeding, .coroutine (.done (.ok true))), (.succeeding, .coroutine nestingCoroutine)]
    let block := runnerBlock mainEnv none items .init
    block.outcome = .ok [true, false] ∧
      (block.outcome, block.state) = inTurn (runItem mainEnv) items .init := by
  intro items block
  have hitems : mainEnv.mainThread = true →
      ∀ item ∈ items.dropLast, ∀ c, item.2 = .coroutine c → LeavesOverride mainEnv c := by
    intro _ item hitem c hc q hq
    obtain rfl := List.mem_singleton.mp hitem
    cases hc
    exact hq
  exact ⟨rfl, (runner_block_eq_runs mainEnv none items .init (by decide) hitems).1⟩

end FerroIo
