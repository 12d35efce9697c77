import FerroIo.Runner
import FerroIo.SaveRestore

/- Any number of SIGINT guards on the main thread, those of Runners and those of
   `run` calls, entered and left in any order.

   Main result: `handler_after_iff`. When each guard is entered once and left once
   after that, the handler is the first one again exactly when it was
   `default_int_handler` all along, or no guard was entered, or Python knows the
   handler and the steps split into blocks, each opened and ended by one and the same
   guard (`SaveRestore.Blocks`). Guards that end in the reverse order of their entering
   put a known handler back (`handler_after_nested`); of two that overlap, the one that
   ends last writes back the override it had saved.

   While Python knows the handler, the guards are a save-and-restore register:
   `matches_run` carries a run of the code over to a run of `SaveRestore.step`, where
   the handler is the value and `_prev` what a holder has saved. One that was installed
   from C is gone once a guard is entered (`known_run`). -/
namespace FerroIo

open SaveRestore (Event Slot)

variable {F K : Type*}

/-- Who holds a guard: a Runner, or a `run` call by itself. -/
inductive Agent (F : Type*) where
  | runner (r : Runner F)
  | call (guard : SigintGuard F)
  deriving DecidableEq, Repr

inductive AgentKind where
  | runner (debug : Option Bool)
  | call
  deriving DecidableEq, Repr

def Agent.new : AgentKind → Agent F
  | .runner debug => .runner { debug := debug, closed := false, sigint := .new, entered := false }
  | .call => .call .new

/-- `Runner.__enter__`, or the entering of the `with` statement of `run`. -/
def Agent.enter (sigint : Disposition F) : Agent F → Agent F × Disposition F
  | .runner r =>
    let after := (r.enter true sigint : Except (RunError Empty) Unit × _).2
    (.runner after.1, after.2)
  | .call guard =>
    let after := (guard.enter true sigint).2
    (.call after.1, after.2)

/-- `Runner.close`, or the end of the `with` statement of `run`. -/
def Agent.leave (sigint : Disposition F) : Agent F → Agent F × Disposition F
  | .runner r =>
    let after := (r.close true sigint : Except (RunError Empty) Unit × _).2
    (.runner after.1, after.2)
  | .call guard =>
    let after := (guard.exit true sigint).2
    (.call after.1, after.2)

/-- The process: its SIGINT handler and every agent. -/
structure Overlap (K F : Type*) where
  sigint : Disposition F
  agents : K → Agent F

def Overlap.init (kind : K → AgentKind) (H : Disposition F) : Overlap K F :=
  { sigint := H, agents := fun k => .new (kind k) }

def Overlap.step [DecidableEq K] (s : Overlap K F) : Event K → Overlap K F
  | .enter k =>
    let after := (s.agents k).enter s.sigint
    { sigint := after.2, agents := Function.update s.agents k after.1 }
  | .leave k =>
    let after := (s.agents k).leave s.sigint
    { sigint := after.2, agents := Function.update s.agents k after.1 }

/-! ## One agent -/

/-- Not closed yet, so that entering and leaving have their effect. -/
def Agent.Open : Agent F → Prop
  | .runner r => r.closed = false
  | .call _ => True

/-- The agent's guard is installed and has saved `h`. -/
def Agent.Saves (h : Handler F) : Agent F → Prop
  | .runner r => r.closed = false ∧ r.entered = true ∧ r.sigint = ⟨some h, true⟩
  | .call guard => guard = ⟨some h, true⟩

theorem Agent.new_open (kind : AgentKind) : (Agent.new kind : Agent F).Open := by
  cases kind with
  | runner debug => rfl
  | call => trivial

theorem Agent.enter_handler (a : Agent F) (sigint : Disposition F) :
    (a.enter sigint).2 = .python .defaultInt := by
  cases a <;> simp [Agent.enter]

theorem Agent.enter_saves {a : Agent F} (ha : a.Open) (h : Handler F) :
    (a.enter (.python h)).1.Saves h := by
  cases a with
  | runner r =>
    simp only [Agent.enter, Runner.enter_main]
    exact ⟨ha, rfl, rfl⟩
  | call guard =>
    simp only [Agent.enter, SigintGuard.enter_main]
    rfl

theorem Agent.leave_handler {a : Agent F} {h : Handler F} (ha : a.Saves h)
    (sigint : Disposition F) : (a.leave sigint).2 = .python h := by
  cases a with
  | runner r =>
    obtain ⟨hc, he, hg⟩ := ha
    simp only [Agent.leave, Runner.close_of_entered hc he hg]
  | call guard =>
    have hg : guard = ⟨some h, true⟩ := ha
    simp only [Agent.leave, hg, SigintGuard.exit_main]

/-- Leaving brings no handler in force that Python does not know. -/
theorem Agent.leave_known (a : Agent F) {sigint : Disposition F} (h : sigint ≠ .native) :
    (a.leave sigint).2 ≠ .native := by
  have hexit : ∀ guard : SigintGuard F, (guard.exit true sigint).2.2 ≠ .native := by
    intro guard
    simp only [SigintGuard.exit, signalSignal]
    cases guard.prev <;> split <;> simp [SignalError.caught, h]
  cases a with
  | runner r =>
    simp only [Agent.leave, Runner.close]
    split
    · exact h
    · split
      · have hguard := hexit r.sigint
        split <;> next heq => simpa [heq] using hguard
      · exact h
  | call guard => exact hexit guard

/-- A `run` call is its agent's two steps, with the coroutine between them. -/
theorem run_eq_call {C X E V : Type*} (host : Host C X E V (Disposition F)) (c : C)
    (H : Disposition F) :
    let entered := (Agent.call .new).enter H
    (run host true false (.coroutine c) H).2 =
      (entered.1.leave (host.runCoroutine c entered.2).2).2 := by
  cases H <;> simp [run, Agent.enter, Agent.leave, Disposition.known]

/-! ## The guards are a save-and-restore register -/

/-- What an agent is while its holder is in the given slot. -/
def Agent.InSlot (a : Agent F) : Slot (Handler F) → Prop
  | .fresh => a.Open
  | .holding h => a.Saves h
  | .left => True

structure Matches (s : Overlap K F) (t : SaveRestore.State K (Handler F)) : Prop where
  sigint : s.sigint = .python t.value
  agents : ∀ k, (s.agents k).InSlot (t.slots k)

section
variable [DecidableEq K]

/-- One agent and its slot change together, the others stay. -/
theorem inSlot_update {s : Overlap K F} {t : SaveRestore.State K (Handler F)} (h : Matches s t)
    {k : K} {a : Agent F} {x : Slot (Handler F)} (ha : a.InSlot x) (j : K) :
    (Function.update s.agents k a j).InSlot (Function.update t.slots k x j) := by
  by_cases hjk : j = k
  · subst hjk
    rw [Function.update_self, Function.update_self]
    exact ha
  · rw [Function.update_of_ne hjk, Function.update_of_ne hjk]
    exact h.agents j

/-- Step lemma: a guard's step is its holder's step on the register. -/
theorem matches_step {s : Overlap K F} {t : SaveRestore.State K (Handler F)} (h : Matches s t)
    {e : Event K} (he : SaveRestore.InTurn t e) :
    Matches (s.step e) (SaveRestore.step .defaultInt t e) := by
  cases e with
  | enter k =>
    have hopen : (s.agents k).Open := by
      have hslot := h.agents k
      rw [show t.slots k = .fresh from he] at hslot
      exact hslot
    refine ⟨Agent.enter_handler _ _, inSlot_update h ?_⟩
    rw [h.sigint]
    exact Agent.enter_saves hopen t.value
  | leave k =>
    obtain ⟨v, hv⟩ := he
    have hsaves : (s.agents k).Saves v := by
      have hslot := h.agents k
      rw [hv] at hslot
      exact hslot
    simp only [SaveRestore.step, hv]
    exact ⟨Agent.leave_handler hsaves _, inSlot_update h trivial⟩

theorem matches_run {s : Overlap K F} {t : SaveRestore.State K (Handler F)} (h : Matches s t)
    {w : List (Event K)}
    (hw : EventRun.Meets (SaveRestore.step .defaultInt) SaveRestore.InTurn t w) :
    Matches (EventRun.run Overlap.step s w)
      (EventRun.run (SaveRestore.step .defaultInt) t w) := by
  induction w generalizing s t with
  | nil => exact h
  | cons e w ih => exact ih (matches_step h hw.1) hw.2

/-! ## A handler that Python does not know -/

theorem known_step {s : Overlap K F} (h : s.sigint ≠ .native) (e : Event K) :
    (s.step e).sigint ≠ .native := by
  cases e with
  | enter k =>
    show ((s.agents k).enter s.sigint).2 ≠ .native
    rw [Agent.enter_handler]
    simp
  | leave k => exact (s.agents k).leave_known h

theorem known_run {s : Overlap K F} (h : s.sigint ≠ .native) (w : List (Event K)) :
    (EventRun.run Overlap.step s w).sigint ≠ .native :=
  EventRun.run_inv (I := fun s : Overlap K F => s.sigint ≠ .native)
    (fun _ e h => known_step h e) h w

/-- The first guard overrides it, and none of them has it to write back. -/
theorem native_after_iff (kind : K → AgentKind) {w : List (Event K)}
    (hw : SaveRestore.Ordered w) :
    (EventRun.run Overlap.step (Overlap.init kind (.native : Disposition F)) w).sigint = .native ↔
      w = [] := by
  cases w with
  | nil => exact iff_of_true rfl rfl
  | cons e w =>
    refine iff_of_false ?_ (List.cons_ne_nil e w)
    cases e with
    | enter k =>
      have hknown : (Overlap.step (Overlap.init kind (.native : Disposition F))
          (.enter k)).sigint ≠ .native := by
        show ((Agent.new (kind k)).enter .native).2 ≠ .native
        rw [Agent.enter_handler]
        simp
      exact known_run hknown w
    | leave k => cases hw.after [] k w rfl

/-! ## Guards in any order -/

theorem python_after_iff (kind : K → AgentKind) (h : Handler F) {w : List (Event K)}
    (hw : SaveRestore.Ordered w) :
    (EventRun.run Overlap.step (Overlap.init kind (.python h)) w).sigint = .python h ↔
      h = .defaultInt ∨ SaveRestore.Blocks w := by
  have hinit : Matches (Overlap.init kind (.python h)) (SaveRestore.init h) :=
    ⟨rfl, fun k => Agent.new_open (kind k)⟩
  have hfinal := (matches_run hinit (hw.inTurn .defaultInt h)).sigint
  rw [hfinal, Disposition.python.injEq]
  exact SaveRestore.value_eq_iff .defaultInt h hw

/-- When the handler is back after guards that were each entered once and left
    once, in particular once all of them are closed. -/
theorem handler_after_iff (kind : K → AgentKind) (H : Disposition F) (w : List (Event K))
    (hw : SaveRestore.Ordered w) :
    (EventRun.run Overlap.step (Overlap.init kind H) w).sigint = H ↔
      H = .python .defaultInt ∨ w = [] ∨ H ≠ .native ∧ SaveRestore.Blocks w := by
  cases H with
  | native =>
    rw [native_after_iff kind hw]
    simp
  | python h =>
    have hempty : w = [] → SaveRestore.Blocks w := by
      rintro rfl
      exact .nil
    rw [python_after_iff kind h hw, Disposition.python.injEq]
    refine or_congr_right ⟨fun hblocks => .inr ⟨by simp, hblocks⟩, ?_⟩
    rintro (hnil | ⟨-, hblocks⟩)
    · exact hempty hnil
    · exact hblocks

/-- A `run` call between the entering and the closing of a Runner. -/
theorem handler_after_runner_around_call :
    (EventRun.run Overlap.step
      (Overlap.init (fun k : Nat => if k = 0 then .runner none else .call)
        (.python .sigDfl : Disposition Unit))
      [.enter 0, .enter 1, .leave 1, .leave 0]).sigint = .python .sigDfl :=
  (handler_after_iff _ (.python .sigDfl) _ (by decide)).mpr (.inr (.inr (by decide)))

/-- Two Runners, the first of which is closed first: the second writes back the
    override it found. -/
theorem handler_leaks_overlapped :
    SaveRestore.Ordered ([.enter 0, .enter 1, .leave 0, .leave 1] : List (Event Nat)) ∧
    (EventRun.run Overlap.step (Overlap.init (fun _ : Nat => .runner none)
        (.python .sigDfl : Disposition Unit))
      [.enter 0, .enter 1, .leave 0, .leave 1]).sigint ≠ .python .sigDfl := by
  decide

/-- Guards that end in the reverse order of their entering, as `with` statements
    and nested `run` calls do, always put a known handler back. -/
theorem handler_after_nested (kind : K → AgentKind) (h : Handler F) (w : List (Event K))
    (hw : SaveRestore.Ordered w) (hn : SaveRestore.Nested w) :
    (EventRun.run Overlap.step (Overlap.init kind (.python h)) w).sigint = .python h :=
  (python_after_iff kind h hw).mpr (.inr (hn.blocks hw.nodup))

end

end FerroIo
