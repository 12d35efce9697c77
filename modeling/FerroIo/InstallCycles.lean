import FerroIo.InstallAgain
import FerroIo.RebindOrder

/- Any number of `install` and `uninstall` calls in a row, in any order and with either
   `rebind_existing`.

   What the calls leave of the world depends on four bits of the calls only (`Switch`):
   whether `ferro_io` is installed, whether the `install` in force rebound, whether some
   `uninstall` and whether some rebinding `install` took effect. `cycled` writes the world
   down from them.

   Main result: `install_cycles`. Every sequence of calls leaves the world that `cycled`
   gives for its bits. So what repeated calls change for good has been changed when the
   first `uninstall` returns: a module of the README's Mode 1 is bound to stdlib asyncio
   from then on, and stdlib asyncio under a second name to `ferro_io` from the first
   rebinding `install` on; every later cycle restores the world exactly. -/
namespace FerroIo

variable {Obj : Type*}

inductive InstallCall where
  | install (rebindExisting : Bool)
  | uninstall
  deriving DecidableEq, Repr

def InstallCall.event : InstallCall → InstallEvent Obj
  | .install rebindExisting => .install rebindExisting
  | .uninstall => .uninstall

/-- What the calls so far amount to. -/
structure Switch where
  installed : Bool
  /-- `rebind_existing` of the last `install` that took effect. -/
  rebinds : Bool
  /-- Some `uninstall` took effect. -/
  undone : Bool
  /-- Some `install(rebind_existing=True)` took effect. -/
  rebound : Bool
  deriving DecidableEq, Repr

def Switch.off : Switch :=
  { installed := false, rebinds := false, undone := false, rebound := false }

def Switch.step (c : Switch) : InstallCall → Switch
  | .install rebindExisting =>
    if c.installed then c
    else { c with
      installed := true, rebinds := rebindExisting, rebound := c.rebound || rebindExisting }
  | .uninstall => if c.installed then { c with installed := false, undone := true } else c

theorem World.eq_of {w w' : World Obj} (hmodules : w.modules = w'.modules)
    (hattr : ∀ m n, w.attr m n = w'.attr m n) (horiginal : w.original = w'.original)
    (hinstalled : w.installed = w'.installed) : w = w' := by
  obtain ⟨modules, attr, original, installed⟩ := w
  obtain ⟨modules', attr', original', installed'⟩ := w'
  obtain rfl : modules = modules' := hmodules
  obtain rfl : original = original' := horiginal
  obtain rfl : installed = installed' := hinstalled
  obtain rfl : attr = attr' := by
    funext m n
    exact hattr m n
  rfl

section
variable [DecidableEq Obj]

def World.call (env : Env Obj) (w : World Obj) (call : InstallCall) : World Obj :=
  w.step env call.event

/-- A module whose `asyncio` attribute the calls can change: it is listed under another
    name than `asyncio`, is not `ferro_io`, and can be read and written. -/
def Patchable (env : Env Obj) (w : World Obj) (m : Obj) : Prop :=
  m ≠ env.ferroIo ∧ some m ∈ (w.modules.pop "asyncio").values ∧ env.readFault m = none ∧
    env.writeFault m = none

instance (env : Env Obj) (w : World Obj) (m : Obj) : Decidable (Patchable env w m) :=
  inferInstanceAs (Decidable (_ ∧ _))

/-- A module that follows the switch: it was bound to stdlib asyncio, or to `ferro_io` and
    has been bound to stdlib asyncio by an `uninstall`. -/
def Swings (env : Env Obj) (std : Obj) (w : World Obj) (c : Switch) (m : Obj) : Prop :=
  w.attr m "asyncio" = some (some std) ∨
    c.undone = true ∧ w.attr m "asyncio" = some (some env.ferroIo)

instance (env : Env Obj) (std : Obj) (w : World Obj) (c : Switch) (m : Obj) :
    Decidable (Swings env std w c m) :=
  inferInstanceAs (Decidable (_ ∨ _))

/-- The `asyncio` attribute of a module after the calls. -/
def cycledAttr (env : Env Obj) (std : Obj) (w : World Obj) (c : Switch) (m : Obj) :
    Option (Value Obj) :=
  if ¬ Patchable env w m then w.attr m "asyncio"
  else if m = std then
    -- stdlib asyncio under a second name: `install` rebinds it and `uninstall` skips it
    if c.rebound ∧ w.attr m "asyncio" = some (some std) then some (some env.ferroIo)
    else w.attr m "asyncio"
  else if Swings env std w c m then
    some (some (if c.installed ∧ c.rebinds then env.ferroIo else std))
  else w.attr m "asyncio"

/-- The world after the calls, from the world before them. -/
def cycled (env : Env Obj) (std : Obj) (w : World Obj) (c : Switch) : World Obj where
  modules := if c.installed then w.modules.set "asyncio" (some env.ferroIo) else w.modules
  attr m n := if n = "asyncio" then cycledAttr env std w c m else w.attr m n
  original := if c.installed ∨ c.undone then some std else w.original
  installed := c.installed

/-! ## One call -/

/-- Where nothing but exceptions is raised, both calls return. -/
theorem install_returns {env : Env Obj} (h : env.Catchable) (rebindExisting : Bool)
    (w : World Obj) : (install env rebindExisting w).1 = .ok () := by
  cases hinst : w.installed with
  | true => rw [install_of_installed env rebindExisting hinst]
  | false =>
    rw [install_entered env rebindExisting hinst]
    cases rebindExisting with
    | false => rfl
    | true =>
      simp only [rebindEntered, if_true, rebindTo_eq h]

theorem uninstall_returns {env : Env Obj} (h : env.Catchable) (w : World Obj) :
    (uninstall env w).1 = .ok () := by
  cases hinst : w.installed with
  | false => rw [uninstall_of_not_installed env hinst]
  | true =>
    rw [uninstall_restored env hinst]
    simp only [rebindTo_eq h]

theorem uninstall_of_installed {env : Env Obj} (h : env.Catchable) {w : World Obj} {std : Obj}
    (hinst : w.installed = true) (horig : w.original = some std) :
    (uninstall env w).2 = uninstalledWorld env std w := by
  have hends : (uninstall env w).2.installed = false := by
    rcases uninstall_cases env hinst with ⟨w', -, heq⟩ | ⟨e, w', -, heq⟩
    · rw [heq]
    · have hok := uninstall_returns h w
      rw [heq] at hok
      cases hok
  have hspec := uninstall_of_ends env hinst hends
  rw [horig] at hspec
  exact hspec

section
variable {env : Env Obj} {w : World Obj} {std : Obj} {c : Switch}

theorem cycled_asyncio (m : Obj) :
    (cycled env std w c).attr m "asyncio" = cycledAttr env std w c m := by
  simp [cycled]

/-- What is not yet installed starts from the table it ends with. -/
theorem cycled_modules (hc : c.installed = false) : (cycled env std w c).modules = w.modules := by
  simp [cycled, hc]

/-- Which binding an `install` changes, seen from the world before any call. -/
theorem installedWorld_cycled (hc : c.installed = false) (rebindExisting : Bool) (m : Obj) :
    (installedWorld env rebindExisting std (cycled env std w c)).attr m "asyncio" =
      if rebindExisting ∧ Patchable env w m ∧ cycledAttr env std w c m = some (some std)
      then some (some env.ferroIo) else cycledAttr env std w c m := by
  simp only [installedWorld_asyncio, cycled_asyncio, cycled_modules hc, Patchable, and_assoc]

/-- And which an `uninstall` changes. -/
theorem uninstalledWorld_cycled (hstd : w.modules.get "asyncio" = some (some std))
    (hc : c.installed = true) (m : Obj) :
    (uninstalledWorld env std (cycled env std w c)).attr m "asyncio" =
      if m ≠ std ∧ Patchable env w m ∧ cycledAttr env std w c m = some (some env.ferroIo)
      then some (some std) else cycledAttr env std w c m := by
  have hmods : (cycled env std w c).modules.set "asyncio" (some std) = w.modules := by
    simp only [cycled, hc, if_true, OrderedDict.set_set, OrderedDict.set_of_get hstd]
  rw [uninstalledWorld_asyncio, cycled_asyncio, hmods]
  by_cases hm : m = std
  · simp [hm]
  · have hlisted : some m ∈ w.modules.values ↔ some m ∈ (w.modules.pop "asyncio").values := by
      simp [OrderedDict.mem_values_of_get hstd, hm]
    simp only [hlisted, Patchable, hm, ne_eq, not_false_eq_true, true_and]
    congr 1
    exact propext (by tauto)

theorem cycledAttr_of_not {m : Obj} (hp : ¬ Patchable env w m) :
    cycledAttr env std w c m = w.attr m "asyncio" :=
  if_pos hp

theorem cycledAttr_std (hp : Patchable env w std) :
    cycledAttr env std w c std =
      if c.rebound ∧ w.attr std "asyncio" = some (some std) then some (some env.ferroIo)
      else w.attr std "asyncio" := by
  simp [cycledAttr, hp]

theorem cycledAttr_of_swings {m : Obj} (hp : Patchable env w m) (hm : m ≠ std)
    (hs : Swings env std w c m) :
    cycledAttr env std w c m =
      some (some (if c.installed ∧ c.rebinds then env.ferroIo else std)) := by
  simp [cycledAttr, hp, hm, hs]

theorem cycledAttr_of_not_swings {m : Obj} (hm : m ≠ std) (hs : ¬ Swings env std w c m) :
    cycledAttr env std w c m = w.attr m "asyncio" := by
  simp [cycledAttr, hm, hs]

theorem cycledAttr_install (hne : std ≠ env.ferroIo) (hc : c.installed = false)
    (rebindExisting : Bool) (m : Obj) :
    (if rebindExisting ∧ Patchable env w m ∧ cycledAttr env std w c m = some (some std)
      then some (some env.ferroIo) else cycledAttr env std w c m) =
      cycledAttr env std w (c.step (.install rebindExisting)) m := by
  by_cases hp : Patchable env w m
  · by_cases hm : m = std
    · subst hm
      rw [cycledAttr_std hp, cycledAttr_std hp]
      by_cases ha : w.attr m "asyncio" = some (some m)
      · cases rebindExisting <;> cases hr : c.rebound <;>
          simp [Switch.step, hp, hc, hr, ha, hne.symm]
      · simp [ha]
    · have hswings : Swings env std w (c.step (.install rebindExisting)) m ↔
          Swings env std w c m := by
        simp [Swings, Switch.step, hc]
      by_cases hs : Swings env std w c m
      · rw [cycledAttr_of_swings hp hm hs, cycledAttr_of_swings hp hm (hswings.mpr hs)]
        cases rebindExisting <;> simp [Switch.step, hp, hc]
      · have ha : w.attr m "asyncio" ≠ some (some std) := fun ha => hs (.inl ha)
        rw [cycledAttr_of_not_swings hm hs, cycledAttr_of_not_swings hm fun h => hs (hswings.mp h)]
        simp [ha]
  · simp [cycledAttr_of_not hp, hp]

theorem cycledAttr_uninstall (hne : std ≠ env.ferroIo) (hc : c.installed = true) (m : Obj) :
    (if m ≠ std ∧ Patchable env w m ∧ cycledAttr env std w c m = some (some env.ferroIo)
      then some (some std) else cycledAttr env std w c m) =
      cycledAttr env std w (c.step .uninstall) m := by
  by_cases hp : Patchable env w m
  · by_cases hm : m = std
    · subst hm
      rw [cycledAttr_std hp, cycledAttr_std hp]
      simp [Switch.step, hc]
    · have hswings : Swings env std w (c.step .uninstall) m ↔
          w.attr m "asyncio" = some (some std) ∨ w.attr m "asyncio" = some (some env.ferroIo) := by
        simp [Swings, Switch.step, hc]
      by_cases hs : Swings env std w c m
      · rw [cycledAttr_of_swings hp hm hs,
          cycledAttr_of_swings hp hm (hswings.mpr (hs.imp id And.right))]
        cases hr : c.rebinds <;> simp [Switch.step, hp, hm, hc, hr, hne]
      · have ha : w.attr m "asyncio" ≠ some (some std) := fun ha => hs (.inl ha)
        rw [cycledAttr_of_not_swings hm hs]
        by_cases hf : w.attr m "asyncio" = some (some env.ferroIo)
        · -- bound to `ferro_io` before any call: the first `uninstall` finds it
          rw [cycledAttr_of_swings hp hm (hswings.mpr (.inr hf))]
          simp [Switch.step, hp, hm, hf, hc]
        · have hs' : ¬ Swings env std w (c.step .uninstall) m :=
            fun h => (hswings.mp h).elim ha hf
          rw [cycledAttr_of_not_swings hm hs']
          simp [hf]
  · simp [cycledAttr_of_not hp, hp]

theorem cycled_install (hne : std ≠ env.ferroIo) (hc : c.installed = false)
    (rebindExisting : Bool) :
    installedWorld env rebindExisting std (cycled env std w c) =
      cycled env std w (c.step (.install rebindExisting)) := by
  refine World.eq_of ?_ (fun m n => ?_) ?_ ?_
  · cases rebindExisting <;> simp [installedWorld, rebound, cycled, Switch.step, hc]
  · by_cases hn : n = "asyncio"
    · subst hn
      rw [installedWorld_cycled hc, cycledAttr_install hne hc, cycled_asyncio]
    · cases rebindExisting <;> simp [installedWorld, rebound, cycled, hn]
  · cases rebindExisting <;> simp [installedWorld, rebound, cycled, Switch.step, hc]
  · simp [installedWorld, cycled, Switch.step, hc]

theorem cycled_uninstall (hstd : w.modules.get "asyncio" = some (some std))
    (hne : std ≠ env.ferroIo) (hc : c.installed = true) :
    uninstalledWorld env std (cycled env std w c) = cycled env std w (c.step .uninstall) := by
  refine World.eq_of ?_ (fun m n => ?_) ?_ ?_
  · simp [uninstalledWorld, rebound, cycled, Switch.step, hc, OrderedDict.set_set,
      OrderedDict.set_of_get hstd]
  · by_cases hn : n = "asyncio"
    · subst hn
      rw [uninstalledWorld_cycled hstd hc, cycledAttr_uninstall hne hc, cycled_asyncio]
    · simp [uninstalledWorld, rebound, cycled, hn]
  · simp [uninstalledWorld, rebound, cycled, Switch.step, hc]
  · simp [uninstalledWorld, cycled, Switch.step, hc]

/-- One call takes the world of the bits before it to that of the bits after it. -/
theorem cycled_step (hcatch : env.Catchable) (hstd : w.modules.get "asyncio" = some (some std))
    (hne : std ≠ env.ferroIo) (c : Switch) (call : InstallCall) :
    (cycled env std w c).call env call = cycled env std w (c.step call) := by
  cases call with
  | install rebindExisting =>
    cases hc : c.installed with
    | true =>
      simp only [World.call, InstallCall.event, World.step, Switch.step, hc, if_true]
      rw [install_of_installed env rebindExisting hc]
    | false =>
      rw [← cycled_install hne hc]
      refine install_of_ok hc ?_ (install_returns hcatch rebindExisting _)
      simp only [World.module, cycled_modules hc, hstd, Option.getD_some]
  | uninstall =>
    cases hc : c.installed with
    | false =>
      simp only [World.call, InstallCall.event, World.step, Switch.step, hc, Bool.false_eq_true,
        if_false]
      rw [uninstall_of_not_installed env hc]
    | true =>
      rw [← cycled_uninstall hstd hne hc]
      refine uninstall_of_installed hcatch hc ?_
      simp [cycled, hc]

/-- Before any call. -/
theorem cycled_off (hinst : w.installed = false) : cycled env std w .off = w := by
  have hattr : ∀ m, cycledAttr env std w .off m = w.attr m "asyncio" := by
    intro m
    by_cases ha : w.attr m "asyncio" = some (some std)
    · simp [cycledAttr, Switch.off, Swings, ha]
    · simp [cycledAttr, Switch.off, Swings, ha]
  refine World.eq_of rfl (fun m n => ?_) rfl hinst.symm
  by_cases hn : n = "asyncio"
  · subst hn
    rw [cycled_asyncio, hattr]
  · simp [cycled, hn]

/-- While not installed, it makes no difference whether the last `install` rebound. -/
theorem cycled_rebinds (hc : c.installed = false) (rebinds : Bool) :
    cycled env std w { c with rebinds := rebinds } = cycled env std w c := by
  have hattr : ∀ m, cycledAttr env std w { c with rebinds := rebinds } m =
      cycledAttr env std w c m := by
    intro m
    simp only [cycledAttr, Swings, hc, Bool.false_eq_true, false_and, if_false]
  refine World.eq_of rfl (fun m n => ?_) rfl rfl
  simp only [cycled, hattr]

end

/-- What any sequence of calls leaves of the world. Once an `uninstall` has taken effect,
and an `install` that rebinds if this one does, a further cycle changes nothing. -/
theorem install_cycles (env : Env Obj) (hcatch : env.Catchable) (w : World Obj) (std : Obj)
    (hinst : w.installed = false) (hstd : w.modules.get "asyncio" = some (some std))
    (hne : std ≠ env.ferroIo) (calls : List InstallCall) :
    let c := EventRun.run Switch.step .off calls
    EventRun.run (World.call env) w calls = cycled env std w c ∧
    ∀ rebindExisting : Bool, c.installed = false → c.undone = true →
      (rebindExisting = true → c.rebound = true) →
      EventRun.run (World.call env) w (calls ++ [.install rebindExisting, .uninstall]) =
        EventRun.run (World.call env) w calls := by
  intro c
  have hrun : ∀ calls, EventRun.run (World.call env) w calls =
      cycled env std w (EventRun.run Switch.step .off calls) := by
    intro calls
    calc EventRun.run (World.call env) w calls
        = EventRun.run (World.call env) (cycled env std w .off) calls := by rw [cycled_off hinst]
      _ = cycled env std w (EventRun.run Switch.step .off calls) :=
        EventRun.run_map (cycled env std w) (cycled_step hcatch hstd hne) .off calls
  refine ⟨hrun calls, ?_⟩
  intro rebindExisting hc hundone hrebound
  have hsame : (c.step (.install rebindExisting)).step .uninstall =
      { c with rebinds := rebindExisting } := by
    have hor : (c.rebound || rebindExisting) = c.rebound := by
      cases rebindExisting with
      | false => exact Bool.or_false _
      | true => rw [hrebound rfl, Bool.or_true]
    simp [Switch.step, hc, hor, hundone]
  rw [hrun, hrun, EventRun.run_append]
  calc cycled env std w ((c.step (.install rebindExisting)).step .uninstall)
      = cycled env std w { c with rebinds := rebindExisting } := by rw [hsame]
    _ = cycled env std w c := cycled_rebinds hc rebindExisting

theorem plainEnv_catchable : plainEnv.Catchable where
  read m := by simp [plainEnv]
  write m := by simp [plainEnv]

/-- The module of the README's Mode 1, bound to `ferro_io` before: from the first
`uninstall` on it is bound to stdlib asyncio, whatever cycles follow. -/
theorem install_cycles_mode_one :
    (EventRun.run (World.call plainEnv) (bindingWorld 1) [.install true, .uninstall]).attr 2
      "asyncio" = some (some 0) ∧
    EventRun.run (World.call plainEnv) (bindingWorld 1)
        ([.install true, .uninstall] ++ [.install true, .uninstall]) =
      EventRun.run (World.call plainEnv) (bindingWorld 1) [.install true, .uninstall] := by
  have h := install_cycles plainEnv plainEnv_catchable (bindingWorld 1) 0 rfl rfl (by decide)
    [.install true, .uninstall]
  exact ⟨by rw [h.1]; decide, h.2 true rfl rfl fun _ => rfl⟩

end

end FerroIo
