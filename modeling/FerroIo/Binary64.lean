import Mathlib.Algebra.Order.Floor.Ring
import Mathlib.Algebra.Order.Ring.Rat
import Mathlib.Data.Rat.Floor
import Mathlib.Order.WithBot

/- Binary floating-point numbers of 64 bits, as values: a number that is not a number, two
   infinities, and dyadic rationals with a significand of 53 bits. The comparisons are
   those of IEEE 754, false as soon as one side is NaN. What the developments below use:
     1. `value_le_of_lt_pow`: the largest number below a power of two;
     2. `le_roundHalfEven` and `roundHalfEven_le`: rounding to an integer does not cross
        an integer. -/
namespace Binary64

/-- `m * 2 ^ s / 2 ^ e`. -/
def dyadic (m s e : ℕ) : ℚ := mkRat (m * 2 ^ s : ℕ) (2 ^ e)

/-- A finite number: its significand in units of `2 ^ shift / 2 ^ 1074`. Both zeros are
    here. -/
structure Finite where
  neg : Bool
  significand : ℕ
  shift : ℕ
  lt : significand < 2 ^ 53
  le : shift ≤ 2045
  normal : 2 ^ 52 ≤ significand ∨ shift = 0

def Finite.magnitude (x : Finite) : ℚ := dyadic x.significand x.shift 1074

def Finite.value (x : Finite) : ℚ := if x.neg then -x.magnitude else x.magnitude

inductive F64 where
  | nan
  | inf (neg : Bool)
  | finite (x : Finite)

/-- The value on the extended line; NaN has none. -/
def F64.toExt : F64 → Option (WithBot (WithTop ℚ))
  | .nan => none
  | .inf true => some ⊥
  | .inf false => some (⊤ : WithTop ℚ)
  | .finite x => some (x.value : WithTop ℚ)

instance : LT F64 := ⟨fun x y => ∃ a ∈ x.toExt, ∃ b ∈ y.toExt, a < b⟩

instance : LE F64 := ⟨fun x y => ∃ a ∈ x.toExt, ∃ b ∈ y.toExt, a ≤ b⟩

instance : DecidableLT F64 := fun x y =>
  inferInstanceAs (Decidable (∃ a ∈ x.toExt, ∃ b ∈ y.toExt, a < b))

instance : DecidableLE F64 := fun x y =>
  inferInstanceAs (Decidable (∃ a ∈ x.toExt, ∃ b ∈ y.toExt, a ≤ b))

def Finite.zero : Finite := ⟨false, 0, 0, by decide, by decide, .inr rfl⟩

instance : Zero F64 := ⟨.finite .zero⟩

def F64.isFinite : F64 → Bool
  | .finite _ => true
  | _ => false

/-! ## Order -/

theorem F64.toExt_isSome {x : F64} (hx : x ≠ .nan) : ∃ a, x.toExt = some a := by
  cases x with
  | nan => exact absurd rfl hx
  | inf neg => cases neg <;> exact ⟨_, rfl⟩
  | finite x => exact ⟨_, rfl⟩

section
variable {x y : F64} {a b : WithBot (WithTop ℚ)}

theorem F64.lt_iff (hx : x.toExt = some a) (hy : y.toExt = some b) : x < y ↔ a < b := by
  constructor
  · rintro ⟨a', ha', b', hb', hlt⟩
    cases hx.symm.trans ha'
    cases hy.symm.trans hb'
    exact hlt
  · exact fun hlt => ⟨a, hx, b, hy, hlt⟩

theorem F64.le_iff (hx : x.toExt = some a) (hy : y.toExt = some b) : x ≤ y ↔ a ≤ b := by
  constructor
  · rintro ⟨a', ha', b', hb', hle⟩
    cases hx.symm.trans ha'
    cases hy.symm.trans hb'
    exact hle
  · exact fun hle => ⟨a, hx, b, hy, hle⟩

theorem F64.not_le_iff (hx : x ≠ .nan) (hy : y ≠ .nan) : ¬ x ≤ y ↔ y < x := by
  obtain ⟨a, ha⟩ := F64.toExt_isSome hx
  obtain ⟨b, hb⟩ := F64.toExt_isSome hy
  rw [F64.le_iff ha hb, F64.lt_iff hb ha]
  exact not_le

theorem F64.le_of_lt (h : x < y) : x ≤ y := by
  obtain ⟨a, ha, b, hb, hlt⟩ := h
  exact ⟨a, ha, b, hb, hlt.le⟩

theorem F64.not_lt_of_le (h : x ≤ y) : ¬ y < x := by
  obtain ⟨a, ha, b, hb, hle⟩ := h
  rw [F64.lt_iff hb ha]
  exact hle.not_gt

theorem F64.lt_of_lt_of_le {z : F64} (h : x < y) (h' : y ≤ z) : x < z := by
  obtain ⟨a, ha, b, hb, hlt⟩ := h
  obtain ⟨b', hb', c, hc, hle⟩ := h'
  cases hb.symm.trans hb'
  exact ⟨a, ha, c, hc, hlt.trans_le hle⟩

theorem F64.not_le_nan (x : F64) : ¬ x ≤ .nan := by
  rintro ⟨a, -, b, hb, -⟩
  cases hb

theorem F64.not_lt_nan (x : F64) : ¬ x < .nan := by
  rintro ⟨a, -, b, hb, -⟩
  cases hb

end

theorem F64.finite_lt {x y : Finite} : F64.finite x < .finite y ↔ x.value < y.value := by
  rw [F64.lt_iff rfl rfl, WithBot.coe_lt_coe, WithTop.coe_lt_coe]

theorem F64.finite_le {x y : Finite} : F64.finite x ≤ .finite y ↔ x.value ≤ y.value := by
  rw [F64.le_iff rfl rfl, WithBot.coe_le_coe, WithTop.coe_le_coe]

/-! ## The numbers below a power of two -/

theorem scaled_le_of_lt {m s k e : ℕ} (hm : m < 2 ^ 53) (hnormal : 2 ^ 52 ≤ m ∨ s = 0)
    (h : m * 2 ^ s < 2 ^ (k + 53) * 2 ^ e) : m * 2 ^ s ≤ (2 ^ 53 - 1) * 2 ^ (k + e) := by
  by_cases hs : s ≤ k + e
  · exact Nat.mul_le_mul (by omega) (Nat.pow_le_pow_right (by decide) hs)
  · -- a larger unit needs a significand of 53 bits, and then the number is not below
    have hm' : 2 ^ 52 ≤ m := hnormal.resolve_right (by omega)
    have hle : 2 ^ (k + 53) * 2 ^ e ≤ m * 2 ^ s := by
      calc 2 ^ (k + 53) * 2 ^ e = 2 ^ 52 * 2 ^ (k + e + 1) := by
            rw [← Nat.pow_add, ← Nat.pow_add]
            congr 1
            omega
        _ ≤ m * 2 ^ s := Nat.mul_le_mul hm' (Nat.pow_le_pow_right (by decide) (by omega))
    omega

theorem dyadic_eq (m s e : ℕ) : dyadic m s e = ((m * 2 ^ s : ℕ) : ℚ) / ((2 ^ e : ℕ) : ℚ) := by
  rw [dyadic, Rat.mkRat_eq_div, Int.cast_natCast]

theorem dyadic_shift (m s e : ℕ) : dyadic m (s + e) e = m * 2 ^ s := by
  rw [dyadic_eq, div_eq_iff (by positivity)]
  push_cast
  ring

theorem dyadic_one (a s : ℕ) : dyadic (2 ^ a) s (a + s) = 1 := by
  rw [dyadic_eq, ← Nat.pow_add, div_self (by positivity)]

theorem dyadic_zero (s e : ℕ) : dyadic 0 s e = 0 := by
  rw [dyadic_eq, Nat.zero_mul, Nat.cast_zero, zero_div]

theorem dyadic_nonneg (m s e : ℕ) : 0 ≤ dyadic m s e := by
  rw [dyadic_eq]
  positivity

theorem dyadic_le_of_lt {m s k e : ℕ} (hm : m < 2 ^ 53) (hnormal : 2 ^ 52 ≤ m ∨ s = 0)
    (h : dyadic m s e < 2 ^ (k + 53)) : dyadic m s e ≤ 2 ^ (k + 53) - 2 ^ k := by
  have hunit : (2 : ℚ) ^ (k + 53) - 2 ^ k = (2 ^ 53 - 1) * 2 ^ k := by ring
  have hden : (0 : ℚ) < ((2 ^ e : ℕ) : ℚ) := by positivity
  rw [dyadic_eq, div_lt_iff₀ hden] at h
  have hlt : m * 2 ^ s < 2 ^ (k + 53) * 2 ^ e := by exact_mod_cast h
  have hle := scaled_le_of_lt hm hnormal hlt
  rw [hunit, dyadic_eq, div_le_iff₀ hden]
  calc ((m * 2 ^ s : ℕ) : ℚ) ≤ (((2 ^ 53 - 1) * 2 ^ (k + e) : ℕ) : ℚ) := by exact_mod_cast hle
    _ = (2 ^ 53 - 1) * 2 ^ k * ((2 ^ e : ℕ) : ℚ) := by
      push_cast
      ring

theorem neg_le_pow_sub {q : ℚ} (hq : 0 ≤ q) (k : ℕ) : -q ≤ 2 ^ (k + 53) - 2 ^ k := by
  have hunit : (2 : ℚ) ^ (k + 53) - 2 ^ k = (2 ^ 53 - 1) * 2 ^ k := by ring
  have hpos : (0 : ℚ) < 2 ^ k := by positivity
  rw [hunit]
  linarith

@[simp] theorem Finite.zero_value : Finite.zero.value = 0 := by
  have hzero : Finite.zero.magnitude = 0 := dyadic_zero 0 1074
  simp only [value, hzero, neg_zero, ite_self]

theorem Finite.magnitude_nonneg (x : Finite) : 0 ≤ x.magnitude := by
  rw [magnitude]
  exact dyadic_nonneg _ _ _

/-- The largest number below a power of two. -/
theorem Finite.value_le_of_lt_pow (x : Finite) {k : ℕ} (h : x.value < 2 ^ (k + 53)) :
    x.value ≤ 2 ^ (k + 53) - 2 ^ k := by
  cases hneg : x.neg with
  | true =>
    have hvalue : x.value = -x.magnitude := by simp only [value, hneg, if_true]
    rw [hvalue]
    exact neg_le_pow_sub x.magnitude_nonneg k
  | false =>
    have hvalue : x.value = x.magnitude := by
      simp only [value, hneg, Bool.false_eq_true, if_false]
    rw [hvalue, magnitude] at h ⊢
    exact dyadic_le_of_lt x.lt x.normal h

/-! ## Rounding -/

/-- The nearest integer, the even one of two. -/
def roundHalfEven (q : ℚ) : ℤ :=
  let r := q - ⌊q⌋
  if r < 1 / 2 then ⌊q⌋
  else if 1 / 2 < r then ⌊q⌋ + 1
  else if ⌊q⌋ % 2 = 0 then ⌊q⌋ else ⌊q⌋ + 1

theorem roundHalfEven_cases (q : ℚ) :
    roundHalfEven q = ⌊q⌋ ∨ roundHalfEven q = ⌊q⌋ + 1 ∧ (⌊q⌋ : ℚ) < q := by
  simp only [roundHalfEven]
  split
  · exact .inl rfl
  · next h =>
    have hlt : (⌊q⌋ : ℚ) < q := by linarith
    split
    · exact .inr ⟨rfl, hlt⟩
    · split
      · exact .inl rfl
      · exact .inr ⟨rfl, hlt⟩

theorem le_roundHalfEven {n : ℤ} {q : ℚ} (h : (n : ℚ) ≤ q) : n ≤ roundHalfEven q := by
  have hfloor : n ≤ ⌊q⌋ := Int.le_floor.mpr h
  rcases roundHalfEven_cases q with heq | ⟨heq, -⟩
  · rw [heq]
    exact hfloor
  · rw [heq]
    omega

theorem roundHalfEven_le {n : ℤ} {q : ℚ} (h : q ≤ n) : roundHalfEven q ≤ n := by
  have hfloor : ⌊q⌋ ≤ n := by
    have hle := (Int.floor_le q).trans h
    exact_mod_cast hle
  rcases roundHalfEven_cases q with heq | ⟨heq, hlt⟩
  · rw [heq]
    exact hfloor
  · have hstrict : (⌊q⌋ : ℚ) < n := hlt.trans_le h
    have hint : ⌊q⌋ < n := by exact_mod_cast hstrict
    rw [heq]
    omega

/-- Rounding is off by half a unit at most. -/
theorem abs_roundHalfEven_sub_le (q : ℚ) : |(roundHalfEven q : ℚ) - q| ≤ 1 / 2 := by
  have hlo := Int.floor_le q
  have hhi := Int.lt_floor_add_one q
  simp only [roundHalfEven]
  split_ifs <;> push_cast <;> rw [abs_le] <;> constructor <;> linarith

theorem roundHalfEven_mono {p q : ℚ} (h : p ≤ q) : roundHalfEven p ≤ roundHalfEven q := by
  rcases (Int.floor_mono h).lt_or_eq with hlt | heq
  · -- an integer lies between the two
    calc roundHalfEven p ≤ ⌊q⌋ := by
          apply roundHalfEven_le
          have hfloor : (⌊p⌋ + 1 : ℤ) ≤ ⌊q⌋ := hlt
          exact (Int.lt_floor_add_one p).le.trans (by exact_mod_cast hfloor)
      _ ≤ roundHalfEven q := le_roundHalfEven (Int.floor_le q)
  · simp only [roundHalfEven, heq]
    split_ifs <;> first | omega | linarith

end Binary64
