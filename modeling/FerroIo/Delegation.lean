import Mathlib.Order.Basic

/- Namespaces that fall back to one another: a name is looked up in a module's own
   table, and if that has no binding, in the module it falls back to.

   A chain of fallbacks can come back to where it was, so `resolve` has a bound on
   the modules it asks. What the developments below use:
     1. `resolve_of_rank`: when a rank falls along every fallback, a bound above the
        rank of the module is enough;
     2. `resolve_mono`: an answer stays under every larger bound;
     3. `resolve_cycle`: a module that falls back to itself answers for no name it
        does not bind. -/
namespace Delegation

variable {M N A : Type*}

structure Tables (M N A : Type*) where
  binding : M → N → Option A
  fallback : M → Option M

/-- The binding, or the last module asked, which has neither a binding nor a
    fallback. -/
def resolve (t : Tables M N A) : Nat → M → N → Option (Except M A)
  | 0, _, _ => none
  | fuel + 1, m, n =>
    match t.binding m n with
    | some a => some (.ok a)
    | none =>
      match t.fallback m with
      | some m' => resolve t fuel m' n
      | none => some (.error m)

section
variable {t : Tables M N A} {m m' : M} {n : N} {a : A}

theorem resolve_own (h : t.binding m n = some a) (fuel : Nat) :
    resolve t (fuel + 1) m n = some (.ok a) := by
  simp only [resolve, h]

theorem resolve_fallback (h : t.binding m n = none) (hm : t.fallback m = some m') (fuel : Nat) :
    resolve t (fuel + 1) m n = resolve t fuel m' n := by
  simp only [resolve, h, hm]

theorem resolve_missing (h : t.binding m n = none) (hm : t.fallback m = none) (fuel : Nat) :
    resolve t (fuel + 1) m n = some (.error m) := by
  simp only [resolve, h, hm]

theorem resolve_succ {r : Except M A} : ∀ {fuel : Nat} {m : M}, resolve t fuel m n = some r →
    resolve t (fuel + 1) m n = some r := by
  intro fuel
  induction fuel with
  | zero =>
    intro m h
    cases h
  | succ fuel ih =>
    intro m h
    cases hb : t.binding m n with
    | some a =>
      rw [resolve_own hb] at h ⊢
      exact h
    | none =>
      cases hm : t.fallback m with
      | some m' =>
        rw [resolve_fallback hb hm] at h ⊢
        exact ih h
      | none =>
        rw [resolve_missing hb hm] at h ⊢
        exact h

theorem resolve_mono {r : Except M A} {fuel fuel' : Nat} (h : resolve t fuel m n = some r)
    (hle : fuel ≤ fuel') : resolve t fuel' m n = some r := by
  induction hle with
  | refl => exact h
  | step _ ih => exact resolve_succ ih

/-- Fallbacks along which a rank falls end. -/
theorem resolve_of_rank (rank : M → Nat)
    (hrank : ∀ m m', t.fallback m = some m' → rank m' < rank m) (n : N) :
    ∀ (fuel : Nat) (m : M), rank m < fuel → ∃ r, resolve t fuel m n = some r := by
  intro fuel
  induction fuel with
  | zero =>
    intro m h
    omega
  | succ fuel ih =>
    intro m h
    cases hb : t.binding m n with
    | some a => exact ⟨.ok a, resolve_own hb fuel⟩
    | none =>
      cases hm : t.fallback m with
      | none => exact ⟨.error m, resolve_missing hb hm fuel⟩
      | some m' =>
        have hlt : rank m' < fuel := by
          have hfall := hrank m m' hm
          omega
        rw [resolve_fallback hb hm]
        exact ih m' hlt

theorem resolve_cycle (h : t.binding m n = none) (hm : t.fallback m = some m) (fuel : Nat) :
    resolve t fuel m n = none := by
  induction fuel with
  | zero => rfl
  | succ fuel ih =>
    rw [resolve_fallback h hm]
    exact ih

end

end Delegation
