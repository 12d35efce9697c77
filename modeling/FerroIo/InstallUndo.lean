import FerroIo.Install

/- `install` followed at once by `uninstall`, with every attribute readable and
   writable.

   Main result: `install_uninstall`. The module table is what it was, and so is
   every attribute except the `asyncio` attribute of
     1. a loaded module that was bound to `ferro_io` before `install` (the README's
        Mode 1): `uninstall` binds whatever is bound to `ferro_io`;
     2. stdlib asyncio itself, if it is listed under a second name and bound to
        itself: `install` rebinds it and `uninstall` skips its own target.
   `install_uninstall_identity_iff` reads off when the two are an identity. -/
namespace FerroIo

variable {Obj : Type*}

theorem getattr_eq_some {w : World Obj} {m o : Obj} {n : String} :
    w.getattr m n = some o ↔ w.attr m n = some (some o) := by
  cases h : w.attr m n <;> simp [World.getattr, h]

section
variable [DecidableEq Obj]

/-- The world while installed, when nothing raises. -/
def installedWorld (env : Env Obj) (rebindExisting : Bool) (std : Obj) (w : World Obj) :
    World Obj :=
  let entered := { w with
    original := some std
    modules := w.modules.set "asyncio" (some env.ferroIo) }
  { (if rebindExisting then rebound env std env.ferroIo entered.modules.values entered
      else entered) with installed := true }

/-- The world after that, when nothing raises either. -/
def uninstalledWorld (env : Env Obj) (std : Obj) (w : World Obj) : World Obj :=
  let restored := { w with modules := w.modules.set "asyncio" (some std) }
  { rebound env env.ferroIo std restored.modules.values restored with installed := false }

theorem install_eq {env : Env Obj} (hread : ∀ m, env.readFault m = none)
    (hwrite : ∀ m, env.writeFault m = none) (rebindExisting : Bool) {w : World Obj} {std : Obj}
    (hinst : w.installed = false) (hstd : w.modules.get "asyncio" = some (some std)) :
    install env rebindExisting w = (.ok (), installedWorld env rebindExisting std w) := by
  have horig : w.module "asyncio" = some std := by simp [World.module, hstd]
  cases rebindExisting with
  | false => simp [install, hinst, horig, installedWorld]
  | true =>
    simp only [install, hinst, horig, rebindExistingModules, rebindTo,
      rebindLoop_of_no_fault hread hwrite]
    rfl

theorem uninstall_eq {env : Env Obj} (hread : ∀ m, env.readFault m = none)
    (hwrite : ∀ m, env.writeFault m = none) {w : World Obj} {std : Obj}
    (hinst : w.installed = true) (horig : w.original = some std) (hne : std ≠ env.ferroIo) :
    uninstall env w = (.ok (), uninstalledWorld env std w) := by
  obtain ⟨modules, attr, original, installed⟩ := w
  subst hinst horig
  simp only [uninstall, rebindTo, hne, if_false, if_true, rebindLoop_of_no_fault hread hwrite,
    uninstalledWorld]

theorem installedWorld_asyncio (env : Env Obj) (rebindExisting : Bool) (std : Obj) (w : World Obj)
    (m : Obj) : (installedWorld env rebindExisting std w).attr m "asyncio" =
      if rebindExisting ∧ m ≠ env.ferroIo ∧ some m ∈ (w.modules.pop "asyncio").values ∧
          env.readFault m = none ∧ env.writeFault m = none ∧
          w.attr m "asyncio" = some (some std)
      then some (some env.ferroIo) else w.attr m "asyncio" := by
  cases rebindExisting with
  | false => simp [installedWorld]
  | true =>
    simp only [installedWorld, if_true, rebound_asyncio, Rebinds, getattr_eq_some,
      OrderedDict.mem_values_set, Option.some.injEq]
    by_cases hm : m = env.ferroIo
    · simp [hm]
    · simp [hm]

theorem uninstalledWorld_asyncio (env : Env Obj) (std : Obj) (w : World Obj) (m : Obj) :
    (uninstalledWorld env std w).attr m "asyncio" =
      if some m ∈ (w.modules.set "asyncio" (some std)).values ∧ m ≠ env.ferroIo ∧ m ≠ std ∧
          env.readFault m = none ∧ env.writeFault m = none ∧
          w.attr m "asyncio" = some (some env.ferroIo)
      then some (some std) else w.attr m "asyncio" := by
  simp only [uninstalledWorld, rebound_asyncio, Rebinds, getattr_eq_some]

section
variable {env : Env Obj} {w : World Obj} {std : Obj}

theorem undo_eq (hread : ∀ m, env.readFault m = none) (hwrite : ∀ m, env.writeFault m = none)
    (rebindExisting : Bool) (hinst : w.installed = false)
    (hstd : w.modules.get "asyncio" = some (some std)) (hne : std ≠ env.ferroIo) :
    uninstall env (install env rebindExisting w).2 =
      (.ok (), uninstalledWorld env std (installedWorld env rebindExisting std w)) := by
  have horig : (installedWorld env rebindExisting std w).original = some std := by
    cases rebindExisting <;> rfl
  rw [install_eq hread hwrite rebindExisting hinst hstd]
  exact uninstall_eq hread hwrite rfl horig hne

/-- Writing the entry back restores the table, order included. -/
theorem undo_modules (rebindExisting : Bool) (hstd : w.modules.get "asyncio" = some (some std)) :
    (installedWorld env rebindExisting std w).modules.set "asyncio" (some std) = w.modules := by
  have hmods : (installedWorld env rebindExisting std w).modules =
      w.modules.set "asyncio" (some env.ferroIo) := by
    cases rebindExisting <;> rfl
  rw [hmods, OrderedDict.set_set, OrderedDict.set_of_get hstd]

theorem undo_other (rebindExisting : Bool) (m : Obj) {n : String} (hn : n ≠ "asyncio") :
    (uninstalledWorld env std (installedWorld env rebindExisting std w)).attr m n =
      w.attr m n := by
  simp only [uninstalledWorld, rebound_other hn]
  cases rebindExisting with
  | false => rfl
  | true => exact rebound_other hn _ _ _ _ _ _

/-- Of the modules other than stdlib asyncio, those bound to `ferro_io` before end
    up bound to stdlib asyncio, and no other binding changes. -/
theorem undo_asyncio (hread : ∀ m, env.readFault m = none)
    (hwrite : ∀ m, env.writeFault m = none) (rebindExisting : Bool)
    (hstd : w.modules.get "asyncio" = some (some std)) (hne : std ≠ env.ferroIo)
    (m : Obj) (hm : m ≠ std) :
    (uninstalledWorld env std (installedWorld env rebindExisting std w)).attr m "asyncio" =
      if some m ∈ w.modules.values ∧ m ≠ env.ferroIo ∧
          w.attr m "asyncio" = some (some env.ferroIo)
      then some (some std) else w.attr m "asyncio" := by
  have hlisted : some m ∈ w.modules.values ↔ some m ∈ (w.modules.pop "asyncio").values := by
    simp [OrderedDict.mem_values_of_get hstd, hm]
  simp only [uninstalledWorld_asyncio, installedWorld_asyncio, undo_modules rebindExisting hstd,
    hread, hwrite]
  by_cases hstdm : w.attr m "asyncio" = some (some std)
  · -- bound to stdlib asyncio: rebound by the first loop, and then back
    simp [hstdm, hm, hlisted, hne]
    tauto
  · simp [hstdm, hm]

/-- Stdlib asyncio's own attribute: `uninstall` does not undo what `install` did. -/
theorem undo_asyncio_std (hread : ∀ m, env.readFault m = none)
    (hwrite : ∀ m, env.writeFault m = none) (rebindExisting : Bool)
    (hstd : w.modules.get "asyncio" = some (some std)) (hne : std ≠ env.ferroIo) :
    (uninstalledWorld env std (installedWorld env rebindExisting std w)).attr std "asyncio" =
      if rebindExisting ∧ some std ∈ (w.modules.pop "asyncio").values ∧
          w.attr std "asyncio" = some (some std)
      then some (some env.ferroIo) else w.attr std "asyncio" := by
  simp only [uninstalledWorld_asyncio, installedWorld_asyncio, undo_modules rebindExisting hstd,
    hread, hwrite]
  simp [hne]

end

/-- What `install` and `uninstall` in a row leave of the module table and of every
    attribute. -/
theorem install_uninstall (env : Env Obj) (hread : ∀ m, env.readFault m = none)
    (hwrite : ∀ m, env.writeFault m = none) (rebindExisting : Bool) (w : World Obj) (std : Obj)
    (hinst : w.installed = false) (hstd : w.modules.get "asyncio" = some (some std))
    (hne : std ≠ env.ferroIo) :
    let inside := install env rebindExisting w
    let after := uninstall env inside.2
    inside.1 = .ok () ∧ after.1 = .ok () ∧ after.2.modules = w.modules ∧
    (∀ m n, n ≠ "asyncio" → after.2.attr m n = w.attr m n) ∧
    (∀ m, m ≠ std → after.2.attr m "asyncio" =
      if some m ∈ w.modules.values ∧ m ≠ env.ferroIo ∧
          w.attr m "asyncio" = some (some env.ferroIo)
      then some (some std) else w.attr m "asyncio") ∧
    after.2.attr std "asyncio" =
      if rebindExisting ∧ some std ∈ (w.modules.pop "asyncio").values ∧
          w.attr std "asyncio" = some (some std)
      then some (some env.ferroIo) else w.attr std "asyncio" := by
  intro inside after
  have hinside : inside = (.ok (), installedWorld env rebindExisting std w) :=
    install_eq hread hwrite rebindExisting hinst hstd
  have hafter : after = _ := undo_eq hread hwrite rebindExisting hinst hstd hne
  rw [hinside, hafter]
  refine ⟨rfl, rfl, undo_modules rebindExisting hstd, ?_, ?_, ?_⟩
  · intro m n hn
    exact undo_other rebindExisting m hn
  · intro m hm
    exact undo_asyncio hread hwrite rebindExisting hstd hne m hm
  · exact undo_asyncio_std hread hwrite rebindExisting hstd hne

/-- A table with stdlib asyncio, `ferro_io` and one more module. -/
def threeModules : OrderedDict String (Value Nat) :=
  ⟨[("asyncio", some 0), ("ferro_io", some 1), ("main", some 2)], by decide⟩

/-- Module 2 starts bound to `target`. -/
def bindingWorld (target : Nat) : World Nat where
  modules := threeModules
  attr m n := if m = 2 ∧ n = "asyncio" then some (some target) else none
  original := some 0
  installed := false

def plainEnv : Env Nat := { ferroIo := 1, readFault := fun _ => none, writeFault := fun _ => none }

/-- A module bound to stdlib asyncio is bound to it again. -/
theorem install_uninstall_stdlib :
    let after := uninstall plainEnv (install plainEnv true (bindingWorld 0)).2
    after.2.modules = threeModules ∧ after.2.attr 2 "asyncio" = some (some 0) := by
  have h := install_uninstall plainEnv (fun _ => rfl) (fun _ => rfl) true (bindingWorld 0) 0
    rfl rfl (by decide)
  exact ⟨h.2.2.1, h.2.2.2.2.1 2 (by decide)⟩

/-- Stdlib asyncio under two names, bound to itself. -/
def aliasWorld : World Nat where
  modules := ⟨[("asyncio", some 0), ("aio", some 0), ("ferro_io", some 1)], by decide⟩
  attr m n := if m = 0 ∧ n = "asyncio" then some (some 0) else none
  original := some 0
  installed := false

/-- The README's Mode 1 module, `import ferro_io as asyncio`, loses its binding, and
    stdlib asyncio under a second name keeps that to `ferro_io`. -/
theorem install_uninstall_mode_one :
    (bindingWorld 1).installed = false ∧ aliasWorld.installed = false ∧
    (bindingWorld 1).modules.get "asyncio" = some (some 0) ∧
    aliasWorld.modules.get "asyncio" = some (some 0) ∧
    (bindingWorld 1).attr 2 "asyncio" = some (some 1) ∧
    (uninstall plainEnv (install plainEnv true (bindingWorld 1)).2).2.attr 2 "asyncio" =
      some (some 0) ∧
    aliasWorld.attr 0 "asyncio" = some (some 0) ∧
    (uninstall plainEnv (install plainEnv true aliasWorld).2).2.attr 0 "asyncio" =
      some (some 1) := by
  decide

/-- When the two are an identity on the module table and on every attribute. -/
theorem install_uninstall_identity_iff (env : Env Obj) (hread : ∀ m, env.readFault m = none)
    (hwrite : ∀ m, env.writeFault m = none) (rebindExisting : Bool) (w : World Obj) (std : Obj)
    (hinst : w.installed = false) (hstd : w.modules.get "asyncio" = some (some std))
    (hne : std ≠ env.ferroIo) :
    let after := uninstall env (install env rebindExisting w).2
    (after.2.modules = w.modules ∧ after.2.attr = w.attr) ↔
      (∀ m, m ≠ std → m ≠ env.ferroIo → some m ∈ w.modules.values →
        w.attr m "asyncio" ≠ some (some env.ferroIo)) ∧
      ¬ (rebindExisting ∧ some std ∈ (w.modules.pop "asyncio").values ∧
        w.attr std "asyncio" = some (some std)) := by
  intro after
  have hafter : after = _ := undo_eq hread hwrite rebindExisting hinst hstd hne
  rw [hafter]
  have hmods := undo_asyncio hread hwrite rebindExisting hstd hne
  have hself := undo_asyncio_std hread hwrite rebindExisting hstd hne
  constructor
  · intro ⟨_, hattr⟩
    refine ⟨?_, ?_⟩
    · intro m hm hmf hlisted hbound
      have h := hmods m hm
      rw [if_pos ⟨hlisted, hmf, hbound⟩, hattr, hbound] at h
      simp [hne.symm] at h
    · intro h
      rw [if_pos h, hattr, h.2.2] at hself
      simp [hne] at hself
  · intro ⟨hother, hstdself⟩
    refine ⟨undo_modules rebindExisting hstd, ?_⟩
    funext m n
    by_cases hn : n = "asyncio"
    · subst hn
      by_cases hm : m = std
      · rw [hm, hself, if_neg hstdself]
      · rw [hmods m hm]
        exact if_neg fun h => hother m hm h.2.1 h.1 h.2.2
    · exact undo_other rebindExisting m hn

end

end FerroIo
