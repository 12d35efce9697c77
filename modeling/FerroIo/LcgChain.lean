import FerroIo.FanOut

/- The chain that `map_blocking` computes for each item, beside the Python loop that
   it is benchmarked against.

   `lcg` works on 64-bit words, with a multiplication and an addition that wrap;
   `lcgWork` on unbounded integers, with one mask for both.

   Main result: `map_blocking_chain`. The two give the same value after any number of
   steps; mapping a list with `m` iterations and the result with `n` is mapping it with
   `m + n`; and no two distinct items have the same output. The last is because a step
   can be taken back (`lcgBack`): the multiplier is odd, so it has an inverse modulo
   2^64. -/
namespace FerroIo
open JoinOrder

/-- `_lcg_work` of `benchmarks/bench.py`, with `iterations` for `C_ITERS`. -/
def lcgWork (iterations v : ℕ) : ℕ :=
  (fun x => (x * 2862933555777941757 + 3037000493) &&& 0xFFFFFFFFFFFFFFFF)^[iterations] v

/-- The step before `x`: the factor is the inverse of the multiplier modulo 2^64. -/
def lcgBack (x : UInt64) : UInt64 := (x - 3037000493) * 16133697096952638549

/-! ## One chain -/

/-- The mask reduces modulo 2^64. -/
theorem lcgWork_eq (iterations v : ℕ) : lcgWork iterations v =
    (fun x => (x * 2862933555777941757 + 3037000493) % 2 ^ 64)^[iterations] v := by
  have hmask : (fun x : ℕ => (x * 2862933555777941757 + 3037000493) &&& 0xFFFFFFFFFFFFFFFF) =
      fun x => (x * 2862933555777941757 + 3037000493) % 2 ^ 64 := by
    funext x
    exact Nat.and_two_pow_sub_one_eq_mod _ 64
  rw [lcgWork, hmask]

theorem lcg_lcgWork (iterations : ℕ) (v : UInt64) :
    (lcg^[iterations] v).toNat = lcgWork iterations v.toNat := by
  rw [lcg_toNat, lcgWork_eq]

example : lcgWork 2 7 = (lcg^[2] 7).toNat := by decide

theorem lcgBack_lcg : Function.LeftInverse lcgBack lcg := by
  intro x
  calc lcgBack (lcg x) = x * 2862933555777941757 * 16133697096952638549 := by
        rw [lcgBack, lcg, UInt64.add_sub_cancel]
    _ = x * (2862933555777941757 * 16133697096952638549) := UInt64.mul_assoc _ _ _
    _ = x * 1 := congrArg (x * ·) (by decide)
    _ = x := UInt64.mul_one x

/-- Going back as many steps as the chain took gives the item again. -/
theorem lcgBack_iterate (n : ℕ) : Function.LeftInverse lcgBack^[n] lcg^[n] :=
  lcgBack_lcg.iterate n

/-! ## Lists -/

/-- A call of `map_blocking` in which no task fails. -/
abbrev Served (items : List UInt64) (iterations : UInt64) :=
  Delivery (blockingTasks items iterations (fun _ => none) fun _ => none)

theorem served_eq {items : List UInt64} {iterations : UInt64} (set : Served items iterations) :
    mapBlocking set = .ok (items.map lcg^[iterations.toNat]) :=
  (map_blocking_exact set).1 fun _ _ => rfl

theorem map_add {m n : UInt64} (h : m.toNat + n.toNat < 2 ^ 64) (items : List UInt64) :
    (items.map lcg^[m.toNat]).map lcg^[n.toNat] = items.map lcg^[(m + n).toNat] := by
  have hadd : (m + n).toNat = n.toNat + m.toNat := by
    rw [UInt64.toNat_add, Nat.mod_eq_of_lt h, Nat.add_comm]
  rw [List.map_map, hadd, Function.iterate_add]

/-- Equal outputs stand where equal items do. -/
theorem getElem?_of_map {items : List UInt64} (n : ℕ) {i j : ℕ}
    (h : (items.map lcg^[n])[i]? = (items.map lcg^[n])[j]?) : items[i]? = items[j]? := by
  rw [List.getElem?_map, List.getElem?_map] at h
  exact Option.map_injective (lcgBack_iterate n).injective h

/-- What `map_blocking` computes, beside the loop over unbounded integers. -/
theorem map_blocking_chain (items : List UInt64) (m n : UInt64) :
    (∀ v : UInt64, (lcg^[n.toNat] v).toNat = lcgWork n.toNat v.toNat) ∧
    Function.Injective lcg^[n.toNat] ∧
    (∀ set : Served items n, ∃ out, mapBlocking set = .ok out ∧
      out.map UInt64.toNat = items.map (fun v => lcgWork n.toNat v.toNat) ∧
      ∀ i j : ℕ, out[i]? = out[j]? → items[i]? = items[j]?) ∧
    (m.toNat + n.toNat < 2 ^ 64 → ∀ set : Served items m, ∃ mid, mapBlocking set = .ok mid ∧
      ∀ (next : Served mid n) (once : Served items (m + n)),
        mapBlocking next = mapBlocking once) := by
  refine ⟨lcg_lcgWork n.toNat, (lcgBack_iterate n.toNat).injective, fun set => ?_,
    fun h set => ?_⟩
  · refine ⟨_, served_eq set, ?_, fun i j => getElem?_of_map n.toNat⟩
    rw [List.map_map]
    exact List.map_congr_left fun v _ => lcg_lcgWork n.toNat v
  · refine ⟨_, served_eq set, fun next once => ?_⟩
    rw [served_eq next, served_eq once, map_add h]

end FerroIo
