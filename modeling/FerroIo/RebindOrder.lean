import FerroIo.InstallUndo

/- `_rebind_to`, in whatever order `sys.modules` lists the modules.

   Main result: `rebindTo_any_order`. When all that modules raise is caught by
   `except Exception`, the call binds exactly the modules that its docstring describes
   (`IsRebound`) to its target; the order of `sys.modules` makes no difference, and a
   second call changes nothing. Which modules are bound depends on the set of those
   listed only (`rebindTo_eq`), so a module may have several names, and one that raises
   or an entry None may stand anywhere. -/
namespace FerroIo

variable {Obj : Type*} [DecidableEq Obj]

/-- The module that `_rebind_to(target)` looks for. -/
def opposite (env : Env Obj) (target : Value Obj) (w : World Obj) : Value Obj :=
  if target = some env.ferroIo then w.original else some env.ferroIo

/-- A module that `_rebind_to(target)` binds to `target`: there are two modules to
    swap, it is listed, is neither `ferro_io` nor the target, and its `asyncio`
    attribute is readable, writable and the opposite module. -/
def IsRebound (env : Env Obj) (target : Value Obj) (w : World Obj) (m : Obj) : Prop :=
  target ≠ none ∧ opposite env target w ≠ none ∧ some m ∈ w.modules.values ∧
    m ≠ env.ferroIo ∧ some m ≠ target ∧ env.readFault m = none ∧ env.writeFault m = none ∧
    w.getattr m "asyncio" = opposite env target w

instance (env : Env Obj) (target : Value Obj) (w : World Obj) (m : Obj) :
    Decidable (IsRebound env target w m) :=
  inferInstanceAs (Decidable (_ ∧ _))

/-- Those modules are bound to the target, and nothing else changes. -/
def reboundTo (env : Env Obj) (target : Value Obj) (w : World Obj) : World Obj :=
  { w with attr := fun m n =>
      if n = "asyncio" ∧ IsRebound env target w m then some target else w.attr m n }

section
variable {env : Env Obj} {target : Value Obj} {w : World Obj}

/-- With nothing to swap, no module is bound. -/
theorem reboundTo_of_none (h : target = none ∨ opposite env target w = none) :
    reboundTo env target w = w := by
  have hnot : ∀ m, ¬ IsRebound env target w m := by
    intro m hm
    cases h with
    | inl htarget => exact hm.1 htarget
    | inr hother => exact hm.2.1 hother
  simp [reboundTo, hnot]

theorem reboundTo_of_some {t other : Obj} (hother : opposite env (some t) w = some other) :
    reboundTo env (some t) w = rebound env other t w.modules.values w := by
  have hiff : ∀ m, IsRebound env (some t) w m ↔
      Rebinds env other t w.modules.values w m := by
    intro m
    simp [IsRebound, Rebinds, hother]
  simp [reboundTo, rebound, hiff]

/-- What the call does, whatever its target. -/
theorem rebindTo_eq (h : env.Catchable) (target : Value Obj) (w : World Obj) :
    rebindTo env target w = (.ok (), reboundTo env target w) := by
  cases target with
  | none => rw [reboundTo_of_none (.inl rfl)]; rfl
  | some t =>
    have hswap : opposite env (some t) w = if t = env.ferroIo then w.original else some env.ferroIo := by
      simp only [opposite, Option.some.injEq]
    cases hother : opposite env (some t) w with
    | none =>
      rw [reboundTo_of_none (.inr hother)]
      simp only [rebindTo, ← hswap, hother]
    | some other =>
      rw [reboundTo_of_some hother]
      simp only [rebindTo, ← hswap, hother, rebindLoop_of_catchable h]

/-- Another order of the same entries. -/
theorem reboundTo_perm {d : OrderedDict String (Value Obj)}
    (h : d.entries.Perm w.modules.entries) :
    reboundTo env target { w with modules := d } =
      { reboundTo env target w with modules := d } := by
  have hlisted : ∀ v, v ∈ d.values ↔ v ∈ w.modules.values := fun _ => (h.map Prod.snd).mem_iff
  have hiff : ∀ m, IsRebound env target { w with modules := d } m ↔ IsRebound env target w m := by
    intro m
    simp only [IsRebound, opposite, World.getattr, hlisted]
  simp only [reboundTo, hiff]

theorem reboundTo_asyncio (m : Obj) : (reboundTo env target w).attr m "asyncio" =
    if IsRebound env target w m then some target else w.attr m "asyncio" := by
  simp [reboundTo]

theorem reboundTo_other {n : String} (hn : n ≠ "asyncio") (m : Obj) :
    (reboundTo env target w).attr m n = w.attr m n := by
  simp [reboundTo, hn]

theorem reboundTo_frame : Frame w (reboundTo env target w) :=
  ⟨rfl, rfl, rfl, fun m _ hn => reboundTo_other hn m⟩

/-- A module that one call leaves alone is left alone by the next. -/
theorem not_isRebound_again {m : Obj} (hm : ¬ IsRebound env target w m) :
    ¬ IsRebound env target (reboundTo env target w) m := by
  have hget : (reboundTo env target w).getattr m "asyncio" = w.getattr m "asyncio" := by
    simp only [World.getattr, reboundTo_asyncio, if_neg hm]
  have hother : opposite env target (reboundTo env target w) = opposite env target w := rfl
  intro hagain
  apply hm
  simp only [IsRebound, hget, hother] at hagain ⊢
  exact hagain

theorem reboundTo_twice :
    reboundTo env target (reboundTo env target w) = reboundTo env target w := by
  refine Frame.eq reboundTo_frame ?_
  intro m
  rw [reboundTo_asyncio]
  by_cases hm : IsRebound env target w m
  · -- bound already, whether or not it is bound again
    simp only [reboundTo_asyncio, if_pos hm, ite_self]
  · rw [if_neg (not_isRebound_again hm)]

end

/-- What `_rebind_to` does to the modules, in any order and any number of times. -/
theorem rebindTo_any_order (env : Env Obj) (hcatch : env.Catchable) (target : Value Obj)
    (w : World Obj) :
    let after := rebindTo env target w
    after.1 = .ok () ∧
    (∀ m, IsRebound env target w m → after.2.attr m "asyncio" = some target) ∧
    (∀ m n, ¬ (n = "asyncio" ∧ IsRebound env target w m) → after.2.attr m n = w.attr m n) ∧
    (after.2.modules = w.modules ∧ after.2.original = w.original ∧
      after.2.installed = w.installed) ∧
    (∀ d : OrderedDict String (Value Obj), d.entries.Perm w.modules.entries →
      rebindTo env target { w with modules := d } = (.ok (), { after.2 with modules := d })) ∧
    rebindTo env target after.2 = after := by
  intro after
  have hafter : after = (.ok (), reboundTo env target w) := rebindTo_eq hcatch target w
  rw [hafter]
  refine ⟨rfl, ?_, ?_, ⟨rfl, rfl, rfl⟩, ?_, ?_⟩
  · intro m hm
    rw [reboundTo_asyncio, if_pos hm]
  · intro m n hmn
    exact if_neg hmn
  · intro d hperm
    rw [rebindTo_eq hcatch, reboundTo_perm hperm]
  · rw [rebindTo_eq hcatch, reboundTo_twice]

/-- Module 2 raises when it is read and module 3 when it is written; module 4 is listed
    under two names, with an entry None between them. All are bound to stdlib asyncio. -/
def faultyEnv : Env Nat where
  ferroIo := 1
  readFault m := if m = 2 then some .exception else none
  writeFault m := if m = 3 then some .exception else none

def faultyWorld : World Nat where
  modules := ⟨[("asyncio", some 0), ("bad", some 2), ("worse", some 3), ("main", some 4),
    ("gone", none), ("__main__", some 4)], by decide⟩
  attr m n := if 2 ≤ m ∧ n = "asyncio" then some (some 0) else none
  original := some 0
  installed := false

theorem faultyEnv_catchable : faultyEnv.Catchable where
  read m := by
    simp only [faultyEnv]
    split <;> simp
  write m := by
    simp only [faultyEnv]
    split <;> simp

/-- The two that raise keep their binding, and the third is bound all the same. -/
theorem rebindTo_past_faults :
    (rebindTo faultyEnv (some 1) faultyWorld).2.attr 4 "asyncio" = some (some 1) ∧
    (rebindTo faultyEnv (some 1) faultyWorld).2.attr 2 "asyncio" = some (some 0) ∧
    (rebindTo faultyEnv (some 1) faultyWorld).2.attr 3 "asyncio" = some (some 0) := by
  have h := rebindTo_any_order faultyEnv faultyEnv_catchable (some 1) faultyWorld
  exact ⟨h.2.1 4 (by decide), h.2.2.1 2 "asyncio" (by decide), h.2.2.1 3 "asyncio" (by decide)⟩

end FerroIo
