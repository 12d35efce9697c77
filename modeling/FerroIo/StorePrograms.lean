import Mathlib.Logic.Function.Basic

/- Programs that read and set variables, run one after the other.

   `sequential` runs each program in the store the one before it left. `snapshots`
   runs every program in a copy of the first store and throws the copy away. The
   two are told apart by what an observer sees of each run: what it reads, how it
   ends, and the store left for the next (`Observed`).

   Results:
     1. `snapshots_eq_iff`: they agree exactly when no program changes the store;
     2. `visible_eq_iff`: the reads and the result are the same in two stores exactly
        when these agree on what the program reads before it sets it (`needs`);
     3. `snapshots_visible_iff`: without the store that is left, they agree exactly
        when no program needs what those before it have changed (`Unnoticed`). -/
namespace StorePrograms

/-- The variables that are set. -/
abbrev Store (X A : Type) := X → Option A

/-- A program that ends in `R`. -/
inductive Program (X A R : Type) where
  | done (result : R)
  | get (x : X) (next : Option A → Program X A R)
  | set (x : X) (a : A) (next : Program X A R)

variable {X A R : Type}

/-- What there is to see of a run: each read with its answer, the result, and the
    store at the end. -/
structure Observed (X A R : Type) where
  reads : List (X × Option A)
  result : R
  after : Store X A

def Observed.visible (o : Observed X A R) : List (X × Option A) × R := (o.reads, o.result)

section
variable [DecidableEq X]

/-- The reads, the result and the store at the end. -/
def Program.exec : Program X A R → Store X A → List (X × Option A) × R × Store X A
  | .done result, s => ([], result, s)
  | .get x next, s =>
    let rest := (next (s x)).exec s
    ((x, s x) :: rest.1, rest.2)
  | .set x a next, s => next.exec (Function.update s x (some a))

def Program.observe (p : Program X A R) (s : Store X A) : Observed X A R :=
  { reads := (p.exec s).1
    result := (p.exec s).2.1
    after := (p.exec s).2.2 }

def sequential : List (Program X A R) → Store X A → List (Observed X A R)
  | [], _ => []
  | p :: ps, s => p.observe s :: sequential ps (p.observe s).after

def snapshots (ps : List (Program X A R)) (s : Store X A) : List (Observed X A R) :=
  ps.map fun p => { p.observe s with after := s }

/-- The program leaves the store as it finds it. -/
def Program.Keeps (s : Store X A) (p : Program X A R) : Prop := (p.observe s).after = s

theorem snapshots_eq_iff (ps : List (Program X A R)) (s : Store X A) :
    snapshots ps s = sequential ps s ↔ ∀ p ∈ ps, p.Keeps s := by
  induction ps with
  | nil => simp [snapshots, sequential]
  | cons p ps ih =>
    simp only [snapshots, sequential, List.map_cons, List.cons.injEq, List.forall_mem_cons]
    constructor
    · intro ⟨hhead, htail⟩
      have hp : p.Keeps s := (congrArg Observed.after hhead).symm
      refine ⟨hp, ih.mp ?_⟩
      rw [show (p.observe s).after = s from hp] at htail
      exact htail
    · intro ⟨hp, hps⟩
      have hafter : (p.observe s).after = s := hp
      refine ⟨?_, ?_⟩
      · exact congrArg (fun a => { p.observe s with after := a }) hafter.symm
      · rw [hafter]
        exact ih.mpr hps

/-! ## Without the store that is left -/

/-- What the program reads before it sets it. -/
def Program.needs : Program X A R → Store X A → List X
  | .done _, _ => []
  | .get x next, s => x :: (next (s x)).needs s
  | .set x a next, s => (next.needs (Function.update s x (some a))).filter (· ≠ x)

/-- What the program sets, in the order it does. -/
def Program.sets : Program X A R → Store X A → List (X × A)
  | .done _, _ => []
  | .get x next, s => (next (s x)).sets s
  | .set x a next, s => (x, a) :: next.sets (Function.update s x (some a))

def applySets (writes : List (X × A)) (s : Store X A) : Store X A :=
  writes.foldl (fun s p => Function.update s p.1 (some p.2)) s

theorem after_eq_applySets (p : Program X A R) (s : Store X A) :
    (p.observe s).after = applySets (p.sets s) s := by
  simp only [Program.observe]
  induction p generalizing s with
  | done result => rfl
  | get x next ih => exact ih (s x) s
  | set x a next ih => exact ih (Function.update s x (some a))

theorem visible_eq_iff (p : Program X A R) (s t : Store X A) :
    (p.observe s).visible = (p.observe t).visible ↔ ∀ x ∈ p.needs s, t x = s x := by
  induction p generalizing s t with
  | done result => simp [Program.observe, Observed.visible, Program.exec, Program.needs]
  | get x next ih =>
    rw [Program.needs, List.forall_mem_cons, ← ih (s x) s t]
    by_cases hx : t x = s x
    · simp [Program.observe, Observed.visible, Program.exec, hx]
    · simp [Program.observe, Observed.visible, Program.exec, hx, Ne.symm hx]
  | set x a next ih =>
    refine (ih (Function.update s x (some a)) (Function.update t x (some a))).trans ?_
    simp only [Program.needs, List.mem_filter, and_imp, decide_eq_true_eq]
    refine forall₂_congr fun y _ => ?_
    by_cases hy : y = x
    · simp [hy]
    · simp [hy]

/-- Stores that agree on what is needed see the same sets. -/
theorem sets_eq (p : Program X A R) {s t : Store X A} (h : ∀ x ∈ p.needs s, t x = s x) :
    p.sets t = p.sets s := by
  induction p generalizing s t with
  | done result => rfl
  | get x next ih =>
    rw [Program.needs, List.forall_mem_cons] at h
    simp only [Program.sets, h.1]
    exact ih (s x) h.2
  | set x a next ih =>
    simp only [Program.sets, List.cons.injEq, true_and]
    refine ih fun y hy => ?_
    by_cases hyx : y = x
    · simp [hyx]
    · have hneeds : y ∈ (Program.set x a next).needs s := by
        simp [Program.needs, hy, hyx]
      simp [hyx, h y hneeds]

/-- What a program needs is as in `s` when `t` has taken all that the programs before it
    set when they are run in `s`. -/
def Unnoticed (s t : Store X A) (ps : List (Program X A R)) : Prop :=
  ∀ earlier p later, ps = earlier ++ p :: later →
    ∀ x ∈ p.needs s, applySets (earlier.flatMap fun p => p.sets s) t x = s x

theorem unnoticed_cons (s t : Store X A) (p : Program X A R) (ps : List (Program X A R)) :
    Unnoticed s t (p :: ps) ↔
      (∀ x ∈ p.needs s, t x = s x) ∧ Unnoticed s (applySets (p.sets s) t) ps := by
  constructor
  · intro h
    refine ⟨h [] p ps rfl, fun earlier q later heq x hx => ?_⟩
    have hq := h (p :: earlier) q later (by rw [heq]; rfl) x hx
    rwa [List.flatMap_cons, applySets, List.foldl_append] at hq
  · rintro ⟨hp, hps⟩ earlier q later heq
    cases earlier with
    | nil =>
      obtain ⟨rfl, -⟩ := List.cons.inj heq
      exact hp
    | cons a earlier =>
      obtain ⟨rfl, hrest⟩ := List.cons.inj heq
      rw [List.flatMap_cons, applySets, List.foldl_append]
      exact hps earlier q later hrest

/-- Run lemma: snapshots of `s` look like runs one after the other from `t`. -/
theorem snapshots_visible_iff (ps : List (Program X A R)) (s t : Store X A) :
    (snapshots ps s).map Observed.visible = (sequential ps t).map Observed.visible ↔
      Unnoticed s t ps := by
  induction ps generalizing t with
  | nil => simp [snapshots, sequential, Unnoticed]
  | cons p ps ih =>
    rw [unnoticed_cons, ← visible_eq_iff]
    simp only [snapshots, sequential, List.map_cons, List.cons.injEq]
    refine and_congr_right fun hp => ?_
    have hafter : (p.observe t).after = applySets (p.sets s) t := by
      rw [after_eq_applySets, sets_eq p ((visible_eq_iff p s t).mp hp)]
    rw [hafter]
    exact ih (applySets (p.sets s) t)

end

end StorePrograms
