import FerroIo.Delegation
import FerroIo.InstallRuns

/- Looking a name up on `ferro_io`, which falls through to stdlib asyncio, in every
   state that `install` and `uninstall` lead to.

   Correspondence (Python and Rust ↔ Lean):
     `getattr(m, name)`, with `ferro_io.__getattr__`  ↔ `lookup`
     `ferro_io._asyncio`                              ↔ the fallback of `nameTables`
     `py.import("asyncio")` and a method's name       ↔ `importLookup`

   Main result: `names_resolve`. In every run `ferro_io`'s `_asyncio` stays stdlib
   asyncio, and every name resolves on `ferro_io` in at most two steps: to its own
   binding, else to that of stdlib asyncio, else to an AttributeError. If `_asyncio`
   were `ferro_io` itself, no name it does not bind would resolve (`lookup_cycle`).

   The loop of `_rebind_to` skips `ferro_io`, so its namespace is left alone
   (`rebindLoop_namespace`); that, and what the `asyncio` entry can hold, is the
   invariant (`Linked`). -/
namespace FerroIo

open Delegation (Tables resolve)

variable {Obj : Type*}

section
variable [DecidableEq Obj]

/-- A module's namespace is its attributes. `ferro_io` has a `__getattr__` that asks
    what its `_asyncio` is bound to; other modules have none. -/
def nameTables (ferroIo : Obj) (w : World Obj) : Tables Obj String (Value Obj) where
  binding := w.attr
  fallback m := if m = ferroIo then (w.attr ferroIo "_asyncio").join else none

/-- `getattr(m, name)`: a value, or the AttributeError of the module asked last. -/
def lookup (ferroIo : Obj) (w : World Obj) (fuel : Nat) (m : Obj) (name : String) :
    Option (Except Obj (Value Obj)) :=
  resolve (nameTables ferroIo w) fuel m name

/-- The name of a method of what `import asyncio` gives while there is an entry. -/
def importLookup (ferroIo : Obj) (w : World Obj) (fuel : Nat) (name : String) :
    Option (Except Obj (Value Obj)) :=
  match w.module "asyncio" with
  | some m => lookup ferroIo w fuel m name
  | none => none

/-- What a name stands for, given its binding: stdlib asyncio is asked last. -/
def answer (std : Obj) (binding : Option (Value Obj)) : Except Obj (Value Obj) :=
  match binding with
  | some v => .ok v
  | none => .error std

/-- Steps of a program that imports modules: none is loaded or unloaded under the name
    `asyncio`, which is in the table, and the body of `ferro_io` is not run again. -/
def Imports (env : Env Obj) : World Obj → InstallEvent Obj → Prop
  | _, .load name mod => name ≠ "asyncio" ∧ mod ≠ env.ferroIo
  | _, .unload name => name ≠ "asyncio"
  | _, .install _ => True
  | _, .uninstall => True

/-! ## The namespace of `ferro_io` -/

theorem rebindModule_namespace (env : Env Obj) (other target : Obj) {mod : Obj}
    (hmod : mod ≠ env.ferroIo) (w : World Obj) :
    (rebindModule env other target mod w).2.attr env.ferroIo = w.attr env.ferroIo := by
  rcases rebindModule_cases env other target mod w with ⟨-, heq⟩ | ⟨-, heq⟩ | ⟨-, heq⟩
  · rw [heq]
  · rw [heq]
  · rw [heq]
    funext n
    simp [World.setattr, hmod.symm]

theorem rebindLoop_namespace (env : Env Obj) (other target : Obj) (mods : List (Value Obj))
    (w : World Obj) :
    (rebindLoop env other target mods w).2.attr env.ferroIo = w.attr env.ferroIo :=
  rebindLoop_preserves (P := fun w' => w'.attr env.ferroIo = w.attr env.ferroIo)
    (fun _ w' hmod h => (rebindModule_namespace env other target hmod w').trans h) mods rfl

theorem rebindTo_namespace (env : Env Obj) (target : Value Obj) (w : World Obj) :
    (rebindTo env target w).2.attr env.ferroIo = w.attr env.ferroIo := by
  simp only [rebindTo]
  split
  · rfl
  · split
    · rfl
    · exact rebindLoop_namespace _ _ _ _ _

/-! ## The invariant -/

/-- `v` is the stdlib module or `ferro_io`. -/
def OneOfTwo (env : Env Obj) (std : Obj) (v : Value Obj) : Prop :=
  v = some std ∨ v = some env.ferroIo

/-- `ferro_io`'s own names are as they were, and the `asyncio` entry holds one of the
    two modules, and so does what `uninstall` would restore. -/
structure Linked (env : Env Obj) (std : Obj) (start w : World Obj) : Prop where
  namespace_eq : w.attr env.ferroIo = start.attr env.ferroIo
  entry : ∃ v, w.modules.get "asyncio" = some v ∧ OneOfTwo env std v
  original : w.installed = true → OneOfTwo env std w.original

variable {env : Env Obj} {std : Obj} {start w : World Obj}

omit [DecidableEq Obj] in
/-- Rebinding the modules keeps the links, whatever becomes of the flag. -/
theorem linked_of_frame {w' : World Obj} (h : Linked env std start w) (hframe : Frame w w')
    (hattr : w'.attr env.ferroIo = w.attr env.ferroIo) (horig : OneOfTwo env std w.original)
    (flag : Bool) : Linked env std start { w' with installed := flag } where
  namespace_eq := hattr.trans h.namespace_eq
  entry := by
    obtain ⟨v, hv, htwo⟩ := h.entry
    exact ⟨v, (congrArg (·.get "asyncio") hframe.modules).trans hv, htwo⟩
  original := fun _ => hframe.original ▸ horig

theorem rebindEntered_namespace (env : Env Obj) (rebindExisting : Bool) (w : World Obj) :
    (rebindEntered env rebindExisting w).2.attr env.ferroIo = w.attr env.ferroIo := by
  cases rebindExisting with
  | false => rfl
  | true => exact rebindTo_namespace env (some env.ferroIo) (w.entered env)

theorem linked_install (h : Linked env std start w) (rebindExisting : Bool) :
    Linked env std start (install env rebindExisting w).2 := by
  cases hinst : w.installed with
  | true =>
    rw [install_of_installed env rebindExisting hinst]
    exact h
  | false =>
    obtain ⟨v, hv, htwo⟩ := h.entry
    have horig : OneOfTwo env std (w.entered env).original := by
      simpa [World.entered, World.module, hv] using htwo
    have hentered : Linked env std start (w.entered env) :=
      ⟨h.namespace_eq, ⟨some env.ferroIo, OrderedDict.get_set_self _ _ _, .inr rfl⟩,
        fun _ => horig⟩
    obtain ⟨flag, heq⟩ := install_leaves env rebindExisting hinst
    rw [heq]
    exact linked_of_frame hentered (rebindEntered_frame env rebindExisting w)
      (rebindEntered_namespace env rebindExisting w) horig flag

theorem linked_uninstall (h : Linked env std start w) :
    Linked env std start (uninstall env w).2 := by
  cases hinst : w.installed with
  | false =>
    rw [uninstall_of_not_installed env hinst]
    exact h
  | true =>
    have horig := h.original hinst
    have hrestored : Linked env std start w.restored := by
      refine ⟨h.namespace_eq, ⟨w.original, ?_, horig⟩, h.original⟩
      rcases horig with horig | horig <;> simp [World.restored, horig]
    obtain ⟨flag, heq⟩ := uninstall_leaves env hinst
    rw [heq]
    exact linked_of_frame hrestored (rebindTo_frame env w.original w.restored)
      (rebindTo_namespace env w.original w.restored) horig flag

/-- Step lemma. -/
theorem linked_step (h : Linked env std start w) (e : InstallEvent Obj) (he : Imports env w e) :
    Linked env std start (w.step env e) := by
  cases e with
  | install rebindExisting => exact linked_install h rebindExisting
  | uninstall => exact linked_uninstall h
  | load name mod =>
    obtain ⟨hname, hmod⟩ := he
    have hget : (w.modules.set name (some mod)).get "asyncio" = w.modules.get "asyncio" := by
      rw [OrderedDict.get_set, if_neg hname]
    simp only [World.step, load]
    split
    · refine ⟨?_, hget ▸ h.entry, h.original⟩
      rw [← h.namespace_eq]
      funext n
      simp [World.setattr, Ne.symm hmod]
    · exact ⟨h.namespace_eq, hget ▸ h.entry, h.original⟩
  | unload name =>
    have hname : name ≠ "asyncio" := he
    have hget : (w.modules.pop name).get "asyncio" = w.modules.get "asyncio" := by
      rw [OrderedDict.get_pop, if_neg hname]
    exact ⟨h.namespace_eq, hget ▸ h.entry, h.original⟩

/-! ## Resolving a name -/

/-- While `_asyncio` is stdlib asyncio a fallback leads from `ferro_io` to it, and
    none leads on. -/
theorem lookup_terminates (hne : std ≠ env.ferroIo)
    (hint : w.attr env.ferroIo "_asyncio" = some (some std)) (m : Obj) (name : String) :
    ∃ r, ∀ fuel, 2 ≤ fuel → lookup env.ferroIo w fuel m name = some r := by
  have hrank : ∀ m m', (nameTables env.ferroIo w).fallback m = some m' →
      (if m' = env.ferroIo then 1 else 0) < (if m = env.ferroIo then 1 else 0) := by
    intro m m' hm
    by_cases hf : m = env.ferroIo
    · simp only [nameTables, if_pos hf, hint, Option.join_some, Option.some.injEq] at hm
      simp [← hm, hne, hf]
    · simp only [nameTables, if_neg hf] at hm
      cases hm
  have hbound : (if m = env.ferroIo then 1 else 0) < 2 := by split <;> omega
  obtain ⟨r, hr⟩ := Delegation.resolve_of_rank (fun m => if m = env.ferroIo then 1 else 0)
    hrank name 2 m hbound
  exact ⟨r, fun fuel hfuel => Delegation.resolve_mono hr hfuel⟩

theorem lookup_std (hne : std ≠ env.ferroIo) (name : String) (fuel : Nat) :
    lookup env.ferroIo w (fuel + 1) std name = some (answer std (w.attr std name)) := by
  cases hb : w.attr std name with
  | some v => exact Delegation.resolve_own hb fuel
  | none => exact Delegation.resolve_missing hb (if_neg hne) fuel

theorem lookup_ferroIo (hne : std ≠ env.ferroIo)
    (hint : w.attr env.ferroIo "_asyncio" = some (some std)) (name : String) (fuel : Nat) :
    lookup env.ferroIo w (fuel + 2) env.ferroIo name =
      some (answer std ((w.attr env.ferroIo name).or (w.attr std name))) := by
  cases hb : w.attr env.ferroIo name with
  | some v => exact Delegation.resolve_own hb (fuel + 1)
  | none =>
    have hfall : (nameTables env.ferroIo w).fallback env.ferroIo = some std := by
      simp [nameTables, hint]
    calc lookup env.ferroIo w (fuel + 2) env.ferroIo name
        = lookup env.ferroIo w (fuel + 1) std name := Delegation.resolve_fallback hb hfall (fuel + 1)
      _ = some (answer std (w.attr std name)) := lookup_std hne name fuel

/-- What a rebinding of `_asyncio` would do: a name that `ferro_io` does not bind is
    looked up forever. -/
theorem lookup_cycle (hint : w.attr env.ferroIo "_asyncio" = some (some env.ferroIo))
    {name : String} (hb : w.attr env.ferroIo name = none) (fuel : Nat) :
    lookup env.ferroIo w fuel env.ferroIo name = none := by
  apply Delegation.resolve_cycle hb
  simp [nameTables, hint]

/-- Names resolve through `ferro_io` in every state of every run, and so do those that
    are looked up on what `import asyncio` gives. -/
theorem names_resolve (env : Env Obj) (std : Obj) (start : World Obj) (hne : std ≠ env.ferroIo)
    (hint : start.attr env.ferroIo "_asyncio" = some (some std))
    (hstd : start.modules.get "asyncio" = some (some std)) (hinst : start.installed = false)
    (es : List (InstallEvent Obj)) (hes : EventRun.Meets (World.step env) (Imports env) start es) :
    let w := EventRun.run (World.step env) start es
    w.attr env.ferroIo "_asyncio" = some (some std) ∧
    (∀ m name, ∃ r, ∀ fuel, 2 ≤ fuel → lookup env.ferroIo w fuel m name = some r) ∧
    (∀ name fuel, 2 ≤ fuel → lookup env.ferroIo w fuel env.ferroIo name =
      some (answer std ((w.attr env.ferroIo name).or (w.attr std name)))) ∧
    ((w.module "asyncio" = some std ∧ ∀ name fuel, 2 ≤ fuel →
        importLookup env.ferroIo w fuel name = some (answer std (w.attr std name))) ∨
      (w.module "asyncio" = some env.ferroIo ∧ ∀ name fuel, 2 ≤ fuel →
        importLookup env.ferroIo w fuel name =
          some (answer std ((w.attr env.ferroIo name).or (w.attr std name))))) := by
  intro w
  have hlinked : Linked env std start w := by
    refine EventRun.run_inv_of_meets (I := Linked env std start)
      (fun w e h he => linked_step h e he) ⟨rfl, ⟨some std, hstd, .inl rfl⟩, ?_⟩ hes
    intro h
    exact absurd (hinst.symm.trans h) (by decide)
  have hint' : w.attr env.ferroIo "_asyncio" = some (some std) := by
    rw [hlinked.namespace_eq, hint]
  have hferro : ∀ name fuel, 2 ≤ fuel → lookup env.ferroIo w fuel env.ferroIo name =
      some (answer std ((w.attr env.ferroIo name).or (w.attr std name))) := by
    intro name fuel hfuel
    exact Delegation.resolve_mono (lookup_ferroIo hne hint' name 0) hfuel
  refine ⟨hint', lookup_terminates hne hint', hferro, ?_⟩
  obtain ⟨v, hv, rfl | rfl⟩ := hlinked.entry
  · have hmod : w.module "asyncio" = some std := by simp [World.module, hv]
    refine .inl ⟨hmod, ?_⟩
    intro name fuel hfuel
    simp only [importLookup, hmod]
    exact Delegation.resolve_mono (lookup_std hne name 1) hfuel
  · have hmod : w.module "asyncio" = some env.ferroIo := by simp [World.module, hv]
    refine .inr ⟨hmod, ?_⟩
    intro name fuel hfuel
    simp only [importLookup, hmod]
    exact hferro name fuel hfuel

/-- `ferro_io` just imported: it binds `_asyncio` and `sleep`, stdlib asyncio binds
    `sleep` and `Future`. -/
def importedWorld : World Nat where
  modules := threeModules
  attr m n :=
    if m = 1 ∧ n = "_asyncio" then some (some 0)
    else if m = 1 ∧ n = "sleep" then some (some 10)
    else if m = 0 ∧ n = "sleep" then some (some 11)
    else if m = 0 ∧ n = "Future" then some (some 12)
    else none
  original := none
  installed := false

/-- An own name, a passed-through name and a missing one, while installed. -/
theorem names_resolve_installed :
    let w := EventRun.run (World.step plainEnv) importedWorld [.install true, .load "late" 3]
    importLookup 1 w 2 "sleep" = some (.ok (some 10)) ∧
    importLookup 1 w 2 "Future" = some (.ok (some 12)) ∧
    importLookup 1 w 2 "missing" = some (.error 0) := by
  have h := names_resolve plainEnv 0 importedWorld (by decide) rfl rfl rfl
    [.install true, .load "late" 3] (by simp [EventRun.Meets, Imports, plainEnv])
  rcases h.2.2.2 with ⟨hmod, -⟩ | ⟨-, hlook⟩
  · exact absurd hmod (by decide)
  · exact ⟨hlook "sleep" 2 (by decide), hlook "Future" 2 (by decide),
      hlook "missing" 2 (by decide)⟩

end

end FerroIo
