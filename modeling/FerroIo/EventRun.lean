import Mathlib.Logic.Function.Iterate
import Mathlib.Order.Basic

/- Runs of a machine that reacts to events. A machine is a step function
   `σ → ε → σ`; an event that is not enabled leaves the state as it is, so every
   list of events is a run and every interleaving of several parties is a list.

   The rules proved here are the ones the developments below use:
     1. `run_inv`: what every step preserves holds after every run;
     2. `run_inv_of_meets`: the same for the runs whose steps all meet a
        condition on the state before the step (`Meets`);
     3. `throughout_iff`: what holds throughout a run is what holds after each of
        its prefixes;
     4. `eventually_of_fair`: where every step that does something lowers a measure, an
        endless schedule that is fair comes to a state where what can still be done
        has been done;
     5. `run_map`: a map of the states that commutes with the steps commutes with runs. -/
namespace EventRun

variable {σ ε : Type*}

/-- The state after the events, taken left to right. -/
def run (step : σ → ε → σ) (s : σ) (es : List ε) : σ := es.foldl step s

/-- Every step of the run is taken in a state where `C` holds of the step. -/
def Meets (step : σ → ε → σ) (C : σ → ε → Prop) : σ → List ε → Prop
  | _, [] => True
  | s, e :: es => C s e ∧ Meets step C (step s e) es

/-- `P` holds in every state of the run, the first and the last included. -/
def Throughout (step : σ → ε → σ) (P : σ → Prop) : σ → List ε → Prop
  | s, [] => P s
  | s, e :: es => P s ∧ Throughout step P (step s e) es

/-- The state after the first events of an endless schedule. -/
def after (step : σ → ε → σ) (s : σ) (schedule : ℕ → ε) : ℕ → σ
  | 0 => s
  | t + 1 => step (after step s schedule t) (schedule t)

/-- As long as some event would do something, one that does comes. -/
def Fair (step : σ → ε → σ) (s : σ) (schedule : ℕ → ε) : Prop :=
  ∀ t, (∃ e, step (after step s schedule t) e ≠ after step s schedule t) →
    ∃ u, t ≤ u ∧ after step s schedule (u + 1) ≠ after step s schedule u

instance decidableThroughout (step : σ → ε → σ) (P : σ → Prop) [DecidablePred P] :
    ∀ s es, Decidable (Throughout step P s es)
  | s, [] => inferInstanceAs (Decidable (P s))
  | s, e :: es =>
    have := decidableThroughout step P (step s e) es
    inferInstanceAs (Decidable (P s ∧ Throughout step P (step s e) es))

section
variable {step : σ → ε → σ} {C : σ → ε → Prop} {P I : σ → Prop}

@[simp] theorem run_nil (s : σ) : run step s [] = s := rfl

@[simp] theorem run_cons (s : σ) (e : ε) (es : List ε) :
    run step s (e :: es) = run step (step s e) es := rfl

@[simp] theorem run_append (s : σ) (es fs : List ε) :
    run step s (es ++ fs) = run step (run step s es) fs := List.foldl_append

/-- An invariant: what every step preserves, every run preserves. -/
theorem run_inv (hstep : ∀ s e, I s → I (step s e)) {s : σ} (hs : I s) (es : List ε) :
    I (run step s es) := by
  induction es generalizing s with
  | nil => exact hs
  | cons e es ih => exact ih (hstep s e hs)

/-- A guarded invariant: what the steps that meet `C` preserve. -/
theorem run_inv_of_meets (hstep : ∀ s e, I s → C s e → I (step s e)) {s : σ} (hs : I s)
    {es : List ε} (hC : Meets step C s es) : I (run step s es) := by
  induction es generalizing s with
  | nil => exact hs
  | cons e es ih => exact ih (hstep s e hs hC.1) hC.2

/-- A step that commutes with a map of the states: so does every run. -/
theorem run_map {τ : Type*} {below : τ → ε → τ} (f : τ → σ)
    (h : ∀ t e, step (f t) e = f (below t e)) (t : τ) (es : List ε) :
    run step (f t) es = f (run below t es) := by
  induction es generalizing t with
  | nil => rfl
  | cons e es ih =>
    simp only [run_cons, h]
    exact ih (below t e)

theorem meets_of_forall {D : ε → Prop} {es : List ε} (h : ∀ e ∈ es, D e) (s : σ) :
    Meets step (fun _ e => D e) s es := by
  induction es generalizing s with
  | nil => trivial
  | cons e es ih =>
    rw [List.forall_mem_cons] at h
    exact ⟨h.1, ih h.2 (step s e)⟩

theorem meets_append {s : σ} {es fs : List ε} :
    Meets step C s (es ++ fs) ↔ Meets step C s es ∧ Meets step C (run step s es) fs := by
  induction es generalizing s with
  | nil => simp [Meets]
  | cons e es ih => simp [Meets, ih, and_assoc]

theorem Throughout.first {s : σ} {es : List ε} (h : Throughout step P s es) : P s := by
  cases es with
  | nil => exact h
  | cons e es => exact h.1

theorem throughout_iff {s : σ} {es : List ε} :
    Throughout step P s es ↔ ∀ pre, pre <+: es → P (run step s pre) := by
  induction es generalizing s with
  | nil => simp [Throughout]
  | cons e es ih =>
    simp only [Throughout, ih]
    constructor
    · rintro ⟨h0, h⟩ pre hpre
      cases pre with
      | nil => exact h0
      | cons a pre =>
        obtain ⟨rfl, hp⟩ := List.cons_prefix_cons.mp hpre
        exact h pre hp
    · intro h
      refine ⟨h [] List.nil_prefix, fun pre hpre => ?_⟩
      exact h (e :: pre) (List.cons_prefix_cons.mpr ⟨rfl, hpre⟩)

end

section
variable {step : σ → ε → σ} {P I : σ → Prop} {μ : σ → ℕ}

theorem after_inv (hstep : ∀ s e, I s → I (step s e)) {s : σ} (hs : I s) (schedule : ℕ → ε)
    (t : ℕ) : I (after step s schedule t) := by
  induction t with
  | zero => exact hs
  | succ t ih => exact hstep _ _ ih

/-- Liveness: if some event does something until `P` holds, a fair schedule reaches `P`. -/
theorem eventually_of_fair (hstep : ∀ s e, I s → I (step s e))
    (hμ : ∀ s e, I s → step s e = s ∨ μ (step s e) < μ s)
    (hprogress : ∀ s, I s → ¬ P s → ∃ e, step s e ≠ s) {s : σ} (hs : I s)
    {schedule : ℕ → ε} (hfair : Fair step s schedule) : ∃ t, P (after step s schedule t) := by
  have hinv : ∀ t, I (after step s schedule t) := after_inv hstep hs schedule
  have hlower : ∀ t k, μ (after step s schedule (t + k)) ≤ μ (after step s schedule t) := by
    intro t k
    induction k with
    | zero => exact Nat.le_refl _
    | succ k ih =>
      rcases hμ _ (schedule (t + k)) (hinv (t + k)) with hsame | hless
      · exact Nat.le_trans (Nat.le_of_eq (congrArg μ hsame)) ih
      · exact Nat.le_trans (Nat.le_of_lt hless) ih
  -- the measure at time `t` bounds how often the schedule can still act
  have hreach : ∀ m t, μ (after step s schedule t) ≤ m → ∃ u, P (after step s schedule u) := by
    intro m
    induction m with
    | zero =>
      intro t ht
      by_cases hP : P (after step s schedule t)
      · exact ⟨t, hP⟩
      · obtain ⟨e, he⟩ := hprogress _ (hinv t) hP
        have hless := (hμ _ e (hinv t)).resolve_left he
        omega
    | succ m ih =>
      intro t ht
      by_cases hP : P (after step s schedule t)
      · exact ⟨t, hP⟩
      · obtain ⟨u, htu, hu⟩ := hfair t (hprogress _ (hinv t) hP)
        have hless : μ (after step s schedule (u + 1)) < μ (after step s schedule u) :=
          (hμ _ (schedule u) (hinv u)).resolve_left hu
        have hsince : μ (after step s schedule u) ≤ μ (after step s schedule t) := by
          have h := hlower t (u - t)
          rwa [Nat.add_sub_cancel' htu] at h
        exact ih (u + 1) (by omega)
  exact hreach _ 0 (Nat.le_refl _)

/-- There are fair schedules: those that act whenever something can be done. -/
theorem exists_fair [Nonempty ε] (step : σ → ε → σ) (s : σ) :
    ∃ schedule : ℕ → ε, Fair step s schedule := by
  have hact : ∀ s : σ, ∃ e, (∃ e', step s e' ≠ s) → step s e ≠ s := by
    intro s
    by_cases h : ∃ e', step s e' ≠ s
    · exact ⟨h.choose, fun _ => h.choose_spec⟩
    · exact ⟨Classical.arbitrary ε, fun h' => absurd h' h⟩
  obtain ⟨act, hact⟩ := Classical.skolem.mp hact
  let states : ℕ → σ := fun t => (fun s => step s (act s))^[t] s
  have hafter : ∀ t, after step s (fun t => act (states t)) t = states t := by
    intro t
    induction t with
    | zero => rfl
    | succ t ih =>
      rw [after, ih]
      exact (Function.iterate_succ_apply' (fun s => step s (act s)) t s).symm
  refine ⟨fun t => act (states t), fun t h => ⟨t, Nat.le_refl t, ?_⟩⟩
  rw [hafter t] at h
  rw [after, hafter t]
  exact hact (states t) h

end

end EventRun
