import FerroIo.EventRun
import FerroIo.Runner

/- One Runner and the SIGINT handler, over any sequence of calls on the main
   thread.

   Main result: `handler_restored_iff`. After a sequence that ends in `close` or
   `__exit__` and enters at least once, the handler is the first one again
   exactly when it was `default_int_handler` all along or the Runner was entered
   once, before any `close` (`EnteredOnce`). Each other sequence leaks: a second
   `__enter__` saves the override over the handler, and an `__enter__` after
   `close` installs what no later `close` takes back, since `close` returns early.

   The proof follows the Runner through four phases (`RunnerPhase`): `phase_step`
   is what one call does, `phase_run` what a sequence does. -/
namespace FerroIo

variable {F C X E V : Type*}

/-- A call on a Runner. -/
inductive RunnerCall (C X : Type*) where
  | enter
  | run (coro : RunArg C) (context : Option X)
  | close
  | exit
  deriving DecidableEq, Repr

def RunnerCall.closes : RunnerCall C X → Bool
  | .close => true
  | .exit => true
  | _ => false

/-- A Runner and the process's SIGINT handler. -/
structure RunnerState (F : Type*) where
  runner : Runner F
  sigint : Disposition F
  deriving DecidableEq, Repr

/-- A new Runner in a process whose handler is `H`. -/
def RunnerState.init (debug : Option Bool) (H : Handler F) : RunnerState F :=
  { runner := { debug := debug, closed := false, sigint := .new, entered := false }
    sigint := .python H }

/-- What `Runner(debug=debug)` builds is the Runner of the initial state. -/
theorem RunnerState.init_runner (debug : Option Bool) (H : Handler F) :
    (Runner.new debug false : Except (RunError E) _) = .ok (RunnerState.init debug H).runner :=
  rfl

/-- One call from the main thread, with the state it leaves whether it raises or
    returns. -/
def RunnerState.step (host : Host C X E V (Disposition F)) (s : RunnerState F) :
    RunnerCall C X → RunnerState F
  | .enter =>
    let after := (s.runner.enter true s.sigint : Except (RunError E) Unit × _).2
    ⟨after.1, after.2⟩
  | .run coro context => { s with sigint := (s.runner.run host coro context s.sigint).2 }
  | .close =>
    let after := (s.runner.close true s.sigint : Except (RunError E) Unit × _).2
    ⟨after.1, after.2⟩
  | .exit =>
    let after := (s.runner.exit true s.sigint : Except (RunError E) Unit × _).2
    ⟨after.1, after.2⟩

/-- The first call that is not `run` is `__enter__`, and it is the only one. -/
def EnteredOnce : List (RunnerCall C X) → Prop
  | [] => False
  | .enter :: calls => .enter ∉ calls
  | .run _ _ :: calls => EnteredOnce calls
  | .close :: _ => False
  | .exit :: _ => False

/-! ## The phases of a Runner -/

inductive RunnerPhase where
  | fresh
  | open
  | closed
  | spoiled
  deriving DecidableEq, Repr

def RunnerPhase.step : RunnerPhase → RunnerCall C X → RunnerPhase
  | p, .run _ _ => p
  | .fresh, .enter => .open
  | .open, .enter => .spoiled
  | .closed, .enter => .spoiled
  | .fresh, .close | .fresh, .exit => .closed
  | .open, .close | .open, .exit => .closed
  | .closed, .close | .closed, .exit => .closed
  | .spoiled, _ => .spoiled

theorem phase_spoiled (calls : List (RunnerCall C X)) :
    EventRun.run RunnerPhase.step .spoiled calls = .spoiled := by
  induction calls with
  | nil => rfl
  | cons c calls ih => cases c <;> exact ih

/-- Once entered or closed, a Runner is spoiled by the next `__enter__`. -/
theorem phase_later {p : RunnerPhase} (hp : p = .open ∨ p = .closed)
    (calls : List (RunnerCall C X)) :
    EventRun.run RunnerPhase.step p calls ≠ .spoiled ↔ .enter ∉ calls := by
  induction calls generalizing p with
  | nil => rcases hp with rfl | rfl <;> simp
  | cons c calls ih =>
    cases c with
    | enter =>
      have hstep : p.step (.enter : RunnerCall C X) = .spoiled := by
        rcases hp with rfl | rfl <;> rfl
      simp [hstep, phase_spoiled]
    | run coro context =>
      have hstep : p.step (.run coro context) = p := by cases p <;> rfl
      simp [hstep, ih hp]
    | close =>
      have hstep : p.step (.close : RunnerCall C X) = .closed := by
        rcases hp with rfl | rfl <;> rfl
      simp [hstep, ih (.inr rfl)]
    | exit =>
      have hstep : p.step (.exit : RunnerCall C X) = .closed := by
        rcases hp with rfl | rfl <;> rfl
      simp [hstep, ih (.inr rfl)]

/-- The sequences that enter and do not spoil the Runner. -/
theorem phase_fresh {calls : List (RunnerCall C X)} (hent : .enter ∈ calls) :
    EventRun.run RunnerPhase.step .fresh calls ≠ .spoiled ↔ EnteredOnce calls := by
  induction calls with
  | nil => cases hent
  | cons c calls ih =>
    cases c with
    | enter => exact phase_later (.inl rfl) calls
    | run coro context =>
      have hent : .enter ∈ calls := by simpa using hent
      exact ih hent
    | close =>
      have hent : .enter ∈ calls := by simpa using hent
      have h := (phase_later (.inr rfl) calls).not.mpr (not_not_intro hent)
      exact iff_of_false h id
    | exit =>
      have hent : .enter ∈ calls := by simpa using hent
      have h := (phase_later (.inr rfl) calls).not.mpr (not_not_intro hent)
      exact iff_of_false h id

/-! ## The Runner follows its phase -/

/-- What the fields hold in each phase of a Runner made while `H` was in force. -/
def Follows (H : Handler F) (s : RunnerState F) : RunnerPhase → Prop
  | .fresh => s.sigint = .python H ∧ s.runner.closed = false ∧ s.runner.entered = false
  | .open => s.sigint = .python .defaultInt ∧ s.runner.closed = false ∧
      s.runner.entered = true ∧ s.runner.sigint = ⟨some H, true⟩
  | .closed => s.sigint = .python H ∧ s.runner.closed = true
  | .spoiled => s.sigint = .python .defaultInt ∧ (s.runner.closed = false →
      s.runner.entered = true ∧ s.runner.sigint = ⟨some .defaultInt, true⟩)

theorem follows_enter {H : Handler F} {s : RunnerState F} {p : RunnerPhase}
    (host : Host C X E V (Disposition F)) (h : Follows H s p) :
    Follows H (s.step host .enter) (p.step (.enter : RunnerCall C X)) := by
  have hstep : s.step host .enter =
      ⟨{ s.runner with sigint := ⟨s.sigint.known, true⟩, entered := true },
        .python .defaultInt⟩ := by
    simp only [RunnerState.step, Runner.enter_main]
  rw [hstep]
  cases p with
  | fresh =>
    obtain ⟨hs, hc, -⟩ := h
    exact ⟨rfl, hc, rfl, by simp [hs, Disposition.known]⟩
  | «open» =>
    obtain ⟨hs, -, -, -⟩ := h
    exact ⟨rfl, fun _ => ⟨rfl, by simp [hs, Disposition.known]⟩⟩
  | closed =>
    obtain ⟨-, hc⟩ := h
    exact ⟨rfl, fun hc' => absurd (hc.symm.trans hc') (by decide)⟩
  | spoiled =>
    obtain ⟨hs, -⟩ := h
    exact ⟨rfl, fun _ => ⟨rfl, by simp [hs, Disposition.known]⟩⟩

theorem follows_close {H : Handler F} {s : RunnerState F} {p : RunnerPhase}
    (host : Host C X E V (Disposition F)) (h : Follows H s p) :
    Follows H (s.step host .close) (p.step (.close : RunnerCall C X)) := by
  cases p with
  | fresh =>
    obtain ⟨hs, hc, he⟩ := h
    simp only [RunnerState.step, Runner.close_of_idle hc he]
    exact ⟨hs, rfl⟩
  | «open» =>
    obtain ⟨-, hc, he, hg⟩ := h
    simp only [RunnerState.step, Runner.close_of_entered hc he hg]
    exact ⟨rfl, rfl⟩
  | closed =>
    obtain ⟨hs, hc⟩ := h
    simp only [RunnerState.step, Runner.close_of_closed hc]
    exact ⟨hs, hc⟩
  | spoiled =>
    obtain ⟨hs, hopen⟩ := h
    cases hc : s.runner.closed with
    | true =>
      simp only [RunnerState.step, Runner.close_of_closed hc]
      exact ⟨hs, fun hc' => absurd (hc.symm.trans hc') (by decide)⟩
    | false =>
      obtain ⟨he, hg⟩ := hopen hc
      simp only [RunnerState.step, Runner.close_of_entered hc he hg]
      refine ⟨rfl, ?_⟩
      intro hc'
      cases hc'

/-- Step lemma: every call keeps the Runner in its phase. -/
theorem phase_step {host : Host C X E V (Disposition F)} (hhost : host.KeepsSigint)
    {H : Handler F} {s : RunnerState F} {p : RunnerPhase} (h : Follows H s p)
    (c : RunnerCall C X) : Follows H (s.step host c) (p.step c) := by
  cases c with
  | enter => exact follows_enter host h
  | run coro context =>
    have hs : s.step host (.run coro context) = s := by
      simp only [RunnerState.step, Runner.run_sigint hhost]
    have hp : p.step (.run coro context) = p := by cases p <;> rfl
    rw [hs, hp]
    exact h
  | close => exact follows_close host h
  | exit =>
    have hp : p.step (.exit : RunnerCall C X) = p.step (.close : RunnerCall C X) := by
      cases p <;> rfl
    rw [hp]
    exact follows_close host h

theorem phase_run {host : Host C X E V (Disposition F)} (hhost : host.KeepsSigint)
    {H : Handler F} {s : RunnerState F} {p : RunnerPhase} (h : Follows H s p)
    (calls : List (RunnerCall C X)) :
    Follows H (EventRun.run (RunnerState.step host) s calls)
      (EventRun.run RunnerPhase.step p calls) := by
  induction calls generalizing s p with
  | nil => exact h
  | cons c calls ih => exact ih (phase_step hhost h c)

/-- A closing call leaves the first handler, unless the Runner was spoiled. -/
theorem handler_of_closes (host : Host C X E V (Disposition F)) {H : Handler F}
    {s : RunnerState F} {p : RunnerPhase} (h : Follows H s p)
    {c : RunnerCall C X} (hc : c.closes = true) :
    (s.step host c).sigint = if p = .spoiled then .python .defaultInt else .python H := by
  have hclose : Follows H (s.step host .close) (p.step (.close : RunnerCall C X)) :=
    follows_close host h
  have hlast : s.step host c = s.step host .close := by
    cases c with
    | close => rfl
    | exit => rfl
    | enter => cases hc
    | run coro context => cases hc
  rw [hlast]
  cases p <;> exact hclose.1

/-- When a Runner that was entered and closed last has put the SIGINT handler
    back. -/
theorem handler_restored_iff (host : Host C X E V (Disposition F)) (hhost : host.KeepsSigint)
    (debug : Option Bool) (H : Handler F) (calls : List (RunnerCall C X)) (last : RunnerCall C X)
    (hlast : last.closes = true) (hent : .enter ∈ calls) :
    (EventRun.run (RunnerState.step host) (.init debug H) (calls ++ [last])).sigint = .python H ↔
      H = .defaultInt ∨ EnteredOnce calls := by
  have hinit : Follows H (RunnerState.init debug H) .fresh := ⟨rfl, rfl, rfl⟩
  have hlastState := handler_of_closes host (phase_run hhost hinit calls) hlast
  rw [EventRun.run_append, EventRun.run_cons, EventRun.run_nil, hlastState, ← phase_fresh hent]
  by_cases hp : EventRun.run RunnerPhase.step .fresh calls = .spoiled
  · simp [hp, eq_comm]
  · simp [hp]

/-- A host whose coroutines return at once. -/
def Host.still : Host Unit Unit Unit Unit (Disposition Unit) where
  runCoroutine _ w := (.ok (), w)
  contextRun _ f w := f w

theorem Host.still_keepsSigint : Host.still.KeepsSigint where
  runCoroutine _ _ := rfl
  contextRun _ _ w h := h w

/-- The use of the class docstring: enter, run, run, exit. -/
theorem handler_restored_once :
    (EventRun.run (RunnerState.step Host.still) (.init none .sigDfl)
      ([.enter, .run (.coroutine ()) none, .run (.coroutine ()) none] ++ [.exit])).sigint =
        .python .sigDfl :=
  (handler_restored_iff Host.still Host.still_keepsSigint none .sigDfl
    [.enter, .run (.coroutine ()) none, .run (.coroutine ()) none] .exit rfl
    (by decide)).mpr (.inr (by simp [EnteredOnce]))

/-- Entering twice leaks: the second `__enter__` saves the override. -/
theorem handler_leaks_entered_twice :
    RunnerCall.closes (.close : RunnerCall Unit Unit) = true ∧
    .enter ∈ ([.enter, .enter] : List (RunnerCall Unit Unit)) ∧
    (EventRun.run (RunnerState.step Host.still) (.init none .sigDfl)
      ([.enter, .enter] ++ [.close])).sigint ≠ .python .sigDfl := by
  decide

end FerroIo
