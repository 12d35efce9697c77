import Mathlib.Logic.Basic

/- Python's `with` statement, over managers `M` and a state `S` that the managers
   and the body share. A manager whose `__exit__` does not swallow exceptions is
   its two methods; each returns or raises, and leaves a manager and a state.

   Main result: `outcome_eq_iff`. Once a block is entered, its outcome is that of
   its body exactly when leaving the manager raises nothing: what `__exit__` raises
   takes the place of the body's value or exception. -/
namespace WithBlock

variable {M S E A : Type*}

structure Manager (M S E : Type*) where
  enter : M → S → Except E Unit × M × S
  exit : M → S → Except E Unit × M × S

/-- What a block gives, with the manager and the state it leaves. -/
structure Ended (M S E A : Type*) where
  outcome : Except E A
  manager : M
  state : S

/-- `with m: body`. -/
def Manager.block (man : Manager M S E) (m : M) (body : S → Except E A × S) (s : S) :
    Ended M S E A :=
  match man.enter m s with
  | (.error e, m, s) => ⟨.error e, m, s⟩
  | (.ok _, m, s) =>
    match body s with
    | (result, s) =>
      match man.exit m s with
      | (.error e, m, s) => ⟨.error e, m, s⟩
      | (.ok _, m, s) => ⟨result, m, s⟩

variable {man : Manager M S E} {m m₁ m₂ : M} {s s₁ s₂ : S} {body : S → Except E A × S}

section
variable (henter : man.enter m s = (.ok (), m₁, s₁))
include henter

theorem block_of_exit_ok (hexit : man.exit m₁ (body s₁).2 = (.ok (), m₂, s₂)) :
    man.block m body s = ⟨(body s₁).1, m₂, s₂⟩ := by
  simp [Manager.block, henter, hexit]

theorem block_of_exit_error {e : E} (hexit : man.exit m₁ (body s₁).2 = (.error e, m₂, s₂)) :
    man.block m body s = ⟨.error e, m₂, s₂⟩ := by
  simp [Manager.block, henter, hexit]

/-- When a block gives what its body gave, for a body that does not itself raise
    what leaving the manager raises. -/
theorem outcome_eq_iff
    (hown : ∀ e, (man.exit m₁ (body s₁).2).1 = .error e → (body s₁).1 ≠ .error e) :
    (man.block m body s).outcome = (body s₁).1 ↔ (man.exit m₁ (body s₁).2).1 = .ok () := by
  cases hexit : man.exit m₁ (body s₁).2 with
  | mk result left =>
    obtain ⟨m₂, s₂⟩ := left
    cases result with
    | ok u => simp [block_of_exit_ok henter hexit]
    | error e =>
      have hne : (body s₁).1 ≠ .error e := hown e (by rw [hexit])
      simp [block_of_exit_error henter hexit, hne.symm]

end

end WithBlock
