import FerroIo.OrderedDict

/- `ferro_io/_install.py`: the `asyncio` entry of `sys.modules` and the `asyncio`
   attribute of every loaded module.

   A call returns what it raises together with the world it leaves behind, since
   `install` and `uninstall` have no handler of their own and an exception that
   is not a subclass of `Exception` ends them half way.

   Correspondence (Python ↔ Lean):
     `sys.modules`, module attributes       ↔ `World.modules`, `World.attr`
     `_original_asyncio`, `_installed`      ↔ `World.original`, `World.installed`
     `install` / `uninstall`                ↔ `install` / `uninstall`
     `_rebind_existing_modules`             ↔ `rebindExistingModules`
     `_rebind_to`, its loop and loop body   ↔ `rebindTo`, `rebindLoop`, `rebindModule`

   `rebindLoop_frame` is what the loop leaves alone however it ends, and
   `rebindLoop_ok` what it does when it ends by itself. -/
namespace FerroIo

/-- A Python value as far as the code looks at it: `None`, or an object that `is`
    tells apart from the others. -/
abbrev Value (Obj : Type*) := Option Obj

/-- An exception from reading or writing an attribute: one that
    `except Exception` catches, or one that it does not. -/
inductive Fault where
  | exception
  | baseException
  deriving DecidableEq, Repr

/-- The `ferro_io` module, and what reading and writing the `asyncio` attribute of
    a module raises, if anything. -/
structure Env (Obj : Type*) where
  ferroIo : Obj
  readFault : Obj → Option Fault
  writeFault : Obj → Option Fault

structure World (Obj : Type*) where
  modules : OrderedDict String (Value Obj)
  attr : Obj → String → Option (Value Obj)
  original : Value Obj
  installed : Bool

variable {Obj : Type*}

/-- `getattr(mod, name, None)`. -/
def World.getattr (w : World Obj) (mod : Obj) (name : String) : Value Obj :=
  (w.attr mod name).getD none

/-- `sys.modules.get(name)`: `None` also when the entry is `None`. -/
def World.module (w : World Obj) (name : String) : Value Obj :=
  (w.modules.get name).getD none

/-- `w'` differs from `w` at most in `asyncio` attributes. -/
structure Frame (w w' : World Obj) : Prop where
  modules : w'.modules = w.modules
  original : w'.original = w.original
  installed : w'.installed = w.installed
  attr : ∀ m n, n ≠ "asyncio" → w'.attr m n = w.attr m n

theorem Frame.refl (w : World Obj) : Frame w w := ⟨rfl, rfl, rfl, fun _ _ _ => rfl⟩

theorem Frame.symm {w w' : World Obj} (h : Frame w w') : Frame w' w where
  modules := h.modules.symm
  original := h.original.symm
  installed := h.installed.symm
  attr m n hn := (h.attr m n hn).symm

theorem Frame.trans {w w' w'' : World Obj} (h : Frame w w') (h' : Frame w' w'') : Frame w w'' where
  modules := h'.modules.trans h.modules
  original := h'.original.trans h.original
  installed := h'.installed.trans h.installed
  attr m n hn := (h'.attr m n hn).trans (h.attr m n hn)

theorem Frame.eq {w w' : World Obj} (h : Frame w w')
    (hattr : ∀ m, w'.attr m "asyncio" = w.attr m "asyncio") : w' = w := by
  obtain ⟨modules, attr, original, installed⟩ := w
  obtain ⟨modules', attr', original', installed'⟩ := w'
  obtain rfl : modules' = modules := h.modules
  obtain rfl : original' = original := h.original
  obtain rfl : installed' = installed := h.installed
  have heq : attr' = attr := by
    funext m n
    by_cases hn : n = "asyncio"
    · rw [hn]
      exact hattr m
    · exact h.attr m n hn
  rw [heq]

section
variable [DecidableEq Obj]

def World.setattr (w : World Obj) (mod : Obj) (name : String) (v : Value Obj) : World Obj :=
  { w with attr := fun m n => if m = mod ∧ n = name then some v else w.attr m n }

/-- The body of the loop, for a module it does not skip. -/
def rebindModule (env : Env Obj) (other target mod : Obj) (w : World Obj) :
    Except Fault Unit × World Obj :=
  match env.readFault mod with
  | some .baseException => (.error .baseException, w)
  | some .exception => (.ok (), w)
  | none =>
    if w.getattr mod "asyncio" = some other then
      match env.writeFault mod with
      | some .baseException => (.error .baseException, w)
      | some .exception => (.ok (), w)
      | none => (.ok (), w.setattr mod "asyncio" (some target))
    else (.ok (), w)

def rebindLoop (env : Env Obj) (other target : Obj) :
    List (Value Obj) → World Obj → Except Fault Unit × World Obj
  | [], w => (.ok (), w)
  | none :: mods, w => rebindLoop env other target mods w
  | some mod :: mods, w =>
    if mod = env.ferroIo ∨ mod = target then rebindLoop env other target mods w
    else match rebindModule env other target mod w with
      | (.ok _, w) => rebindLoop env other target mods w
      | (.error e, w) => (.error e, w)

def rebindTo (env : Env Obj) (target : Value Obj) (w : World Obj) :
    Except Fault Unit × World Obj :=
  match target with
  | none => (.ok (), w)
  | some target =>
    match (if target = env.ferroIo then w.original else some env.ferroIo) with
    | none => (.ok (), w)
    | some other => rebindLoop env other target w.modules.values w

def rebindExistingModules (env : Env Obj) (w : World Obj) : Except Fault Unit × World Obj :=
  rebindTo env (some env.ferroIo) w

def install (env : Env Obj) (rebindExisting : Bool) (w : World Obj) :
    Except Fault Unit × World Obj :=
  if w.installed then (.ok (), w)
  else
    let w := { w with original := w.module "asyncio" }
    let w := { w with modules := w.modules.set "asyncio" (some env.ferroIo) }
    match (if rebindExisting then rebindExistingModules env w else (.ok (), w)) with
    | (.ok _, w) => (.ok (), { w with installed := true })
    | (.error e, w) => (.error e, w)

def uninstall (env : Env Obj) (w : World Obj) : Except Fault Unit × World Obj :=
  if w.installed then
    let w := match w.original with
      | some original => { w with modules := w.modules.set "asyncio" (some original) }
      | none => { w with modules := w.modules.pop "asyncio" }
    match rebindTo env w.original w with
    | (.ok _, w) => (.ok (), { w with installed := false })
    | (.error e, w) => (.error e, w)
  else (.ok (), w)

/-! ## The loop -/

/-- A module that the loop binds to its target: it is listed, is neither
    `ferro_io` nor the target, was bound to the other module, and can be read and
    written. -/
def Rebinds (env : Env Obj) (other target : Obj) (mods : List (Value Obj)) (w : World Obj)
    (m : Obj) : Prop :=
  some m ∈ mods ∧ m ≠ env.ferroIo ∧ m ≠ target ∧ env.readFault m = none ∧
    env.writeFault m = none ∧ w.getattr m "asyncio" = some other

instance (env : Env Obj) (other target : Obj) (mods : List (Value Obj)) (w : World Obj)
    (m : Obj) : Decidable (Rebinds env other target mods w m) :=
  inferInstanceAs (Decidable (_ ∧ _))

/-- Every module the loop is to bind is bound to its target, and nothing else
    changes. -/
def rebound (env : Env Obj) (other target : Obj) (mods : List (Value Obj)) (w : World Obj) :
    World Obj :=
  { w with attr := fun m n =>
      if n = "asyncio" ∧ Rebinds env other target mods w m then some (some target)
      else w.attr m n }

theorem rebound_asyncio (env : Env Obj) (other target : Obj) (mods : List (Value Obj))
    (w : World Obj) (m : Obj) : (rebound env other target mods w).attr m "asyncio" =
      if Rebinds env other target mods w m then some (some target) else w.attr m "asyncio" := by
  simp [rebound]

theorem rebound_other {n : String} (hn : n ≠ "asyncio") (env : Env Obj) (other target : Obj)
    (mods : List (Value Obj)) (w : World Obj) (m : Obj) :
    (rebound env other target mods w).attr m n = w.attr m n := by
  simp [rebound, hn]

theorem rebound_frame (env : Env Obj) (other target : Obj) (mods : List (Value Obj))
    (w : World Obj) : Frame w (rebound env other target mods w) :=
  ⟨rfl, rfl, rfl, fun m _ hn => rebound_other hn env other target mods w m⟩

theorem rebound_of_not {env : Env Obj} {other target : Obj} {mods : List (Value Obj)}
    {w : World Obj} (h : ∀ m, ¬ Rebinds env other target mods w m) :
    rebound env other target mods w = w := by
  simp [rebound, h]

/-- The `asyncio` attribute is readable, writable and the other module. -/
def Bindable (env : Env Obj) (other mod : Obj) (w : World Obj) : Prop :=
  env.readFault mod = none ∧ env.writeFault mod = none ∧ w.getattr mod "asyncio" = some other

/-- All that the body can do: end the loop, leave the module alone, or bind it. -/
theorem rebindModule_cases (env : Env Obj) (other target mod : Obj) (w : World Obj) :
    ((env.readFault mod = some .baseException ∨ env.writeFault mod = some .baseException) ∧
      rebindModule env other target mod w = (.error .baseException, w)) ∨
    (¬ Bindable env other mod w ∧ rebindModule env other target mod w = (.ok (), w)) ∨
    (Bindable env other mod w ∧
      rebindModule env other target mod w = (.ok (), w.setattr mod "asyncio" (some target))) := by
  cases hr : env.readFault mod with
  | some fault =>
    cases fault with
    | exception => exact .inr (.inl ⟨by simp [Bindable, hr], by simp [rebindModule, hr]⟩)
    | baseException => exact .inl ⟨.inl rfl, by simp [rebindModule, hr]⟩
  | none =>
    by_cases ho : w.getattr mod "asyncio" = some other
    · cases hw : env.writeFault mod with
      | some fault =>
        cases fault with
        | exception =>
          exact .inr (.inl ⟨by simp [Bindable, hw], by simp [rebindModule, hr, hw]⟩)
        | baseException => exact .inl ⟨.inr rfl, by simp [rebindModule, hr, hw, ho]⟩
      | none => exact .inr (.inr ⟨⟨hr, hw, ho⟩, by simp [rebindModule, hr, hw, ho]⟩)
    · exact .inr (.inl ⟨by simp [Bindable, ho], by simp [rebindModule, hr, ho]⟩)

theorem rebindModule_frame (env : Env Obj) (other target mod : Obj) (w : World Obj) :
    Frame w (rebindModule env other target mod w).2 := by
  rcases rebindModule_cases env other target mod w with ⟨-, heq⟩ | ⟨-, heq⟩ | ⟨-, heq⟩
  · rw [heq]
    exact Frame.refl w
  · rw [heq]
    exact Frame.refl w
  · rw [heq]
    refine ⟨rfl, rfl, rfl, ?_⟩
    intro m n hn
    simp [World.setattr, hn]

/-- What the body of the loop preserves, the loop preserves, however it ends. -/
theorem rebindLoop_preserves {env : Env Obj} {other target : Obj} {P : World Obj → Prop}
    (hbody : ∀ mod w, mod ≠ env.ferroIo → P w → P (rebindModule env other target mod w).2)
    (mods : List (Value Obj)) {w : World Obj} (hw : P w) :
    P (rebindLoop env other target mods w).2 := by
  induction mods generalizing w with
  | nil => exact hw
  | cons v mods ih =>
    cases v with
    | none => exact ih hw
    | some mod =>
      simp only [rebindLoop]
      split
      · exact ih hw
      · next hskip =>
        have hmod := hbody mod w (fun hf => hskip (.inl hf)) hw
        split
        · next w' heq =>
          rw [heq] at hmod
          exact ih hmod
        · next e w' heq =>
          rw [heq] at hmod
          exact hmod

/-- However the loop ends, it touches `asyncio` attributes only. -/
theorem rebindLoop_frame (env : Env Obj) (other target : Obj) (mods : List (Value Obj))
    (w : World Obj) : Frame w (rebindLoop env other target mods w).2 :=
  rebindLoop_preserves (fun mod w' _ h => h.trans (rebindModule_frame env other target mod w'))
    mods (Frame.refl w)

omit [DecidableEq Obj] in
/-- A list of one module that the loop does not skip. -/
theorem rebinds_single {env : Env Obj} {other target mod : Obj} {w : World Obj}
    (hf : mod ≠ env.ferroIo) (ht : mod ≠ target) (m : Obj) :
    Rebinds env other target [some mod] w m ↔ m = mod ∧ Bindable env other mod w := by
  constructor
  · rintro ⟨hm, -, -, hready⟩
    obtain rfl := Option.some.inj (List.mem_singleton.mp hm)
    exact ⟨rfl, hready⟩
  · rintro ⟨rfl, hready⟩
    exact ⟨List.mem_singleton_self _, hf, ht, hready⟩

theorem rebindModule_ok (env : Env Obj) (other target mod : Obj) (w : World Obj)
    (hf : mod ≠ env.ferroIo) (ht : mod ≠ target)
    (h : (rebindModule env other target mod w).1 = .ok ()) :
    (rebindModule env other target mod w).2 = rebound env other target [some mod] w := by
  have hsingle : ∀ m, Rebinds env other target [some mod] w m ↔
      m = mod ∧ Bindable env other mod w := rebinds_single hf ht
  rcases rebindModule_cases env other target mod w with ⟨-, heq⟩ | ⟨hnot, heq⟩ | ⟨hready, heq⟩
  · rw [heq] at h
    cases h
  · rw [heq, rebound_of_not]
    intro m hm
    exact hnot ((hsingle m).mp hm).2
  · rw [heq]
    simp [World.setattr, rebound, hsingle, hready, and_comm]

/-- One more value at the head of the list: its module is bound first. -/
theorem rebound_cons (env : Env Obj) (other target : Obj) (v : Value Obj)
    (mods : List (Value Obj)) (w : World Obj) :
    rebound env other target (v :: mods) w =
      rebound env other target mods (rebound env other target [v] w) := by
  have hframe := (rebound_frame env other target [v] w).trans (rebound_frame env other target mods _)
  refine Frame.eq (hframe.symm.trans (rebound_frame env other target (v :: mods) w)) ?_
  intro m
  by_cases hv : Rebinds env other target [v] w m
  · have hcons : Rebinds env other target (v :: mods) w m :=
      ⟨List.mem_cons.mpr (.inl (List.mem_singleton.mp hv.1)), hv.2⟩
    -- bound by the first loop, whether or not it is bound again
    simp only [rebound_asyncio, if_pos hcons, if_pos hv, ite_self]
  · have hsame : (rebound env other target [v] w).attr m "asyncio" = w.attr m "asyncio" := by
      rw [rebound_asyncio, if_neg hv]
    have hiff : Rebinds env other target (v :: mods) w m ↔
        Rebinds env other target mods (rebound env other target [v] w) m := by
      simp only [Rebinds, World.getattr, hsame, List.mem_cons, List.not_mem_nil, or_false] at hv ⊢
      tauto
    simp only [rebound_asyncio, hiff, if_neg hv]

/-- A value the loop skips. -/
theorem rebound_skip {env : Env Obj} {other target : Obj} {v : Value Obj}
    (hv : ∀ m, v = some m → m = env.ferroIo ∨ m = target) (w : World Obj) :
    rebound env other target [v] w = w := by
  apply rebound_of_not
  intro m ⟨hm, hf, ht, _⟩
  rcases hv m (List.mem_singleton.mp hm).symm with h | h
  · exact hf h
  · exact ht h

/-- What the loop does when nothing it reads or writes stops it. -/
theorem rebindLoop_ok {env : Env Obj} {other target : Obj} {mods : List (Value Obj)}
    {w : World Obj} (h : (rebindLoop env other target mods w).1 = .ok ()) :
    (rebindLoop env other target mods w).2 = rebound env other target mods w := by
  induction mods generalizing w with
  | nil => simp [rebindLoop, rebound, Rebinds]
  | cons v mods ih =>
    rw [rebound_cons]
    cases v with
    | none =>
      rw [rebound_skip (by simp)]
      exact ih h
    | some mod =>
      by_cases hskip : mod = env.ferroIo ∨ mod = target
      · simp only [rebindLoop, if_pos hskip] at h ⊢
        rw [rebound_skip (by simpa using hskip)]
        exact ih h
      · simp only [rebindLoop, if_neg hskip] at h ⊢
        have hmod := rebindModule_ok env other target mod w
          (fun hf => hskip (.inl hf)) (fun ht => hskip (.inr ht))
        cases hbody : rebindModule env other target mod w with
        | mk result w' =>
          rw [hbody] at h hmod
          cases result with
          | error e => simp at h
          | ok u =>
            rw [← hmod rfl]
            exact ih h

/-- Whatever a module raises is caught by `except Exception`. -/
structure Env.Catchable (env : Env Obj) : Prop where
  read : ∀ m, env.readFault m ≠ some .baseException
  write : ∀ m, env.writeFault m ≠ some .baseException

theorem rebindModule_of_catchable {env : Env Obj} (h : env.Catchable) (other target mod : Obj)
    (w : World Obj) : (rebindModule env other target mod w).1 = .ok () := by
  rcases rebindModule_cases env other target mod w with ⟨hfault, -⟩ | ⟨-, heq⟩ | ⟨-, heq⟩
  · cases hfault with
    | inl hr => exact absurd hr (h.read mod)
    | inr hw => exact absurd hw (h.write mod)
  · rw [heq]
  · rw [heq]

/-- A module that raises does not stop the loop. -/
theorem rebindLoop_of_catchable {env : Env Obj} (h : env.Catchable) (other target : Obj)
    (mods : List (Value Obj)) (w : World Obj) :
    rebindLoop env other target mods w = (.ok (), rebound env other target mods w) := by
  have hok : (rebindLoop env other target mods w).1 = .ok () := by
    induction mods generalizing w with
    | nil => rfl
    | cons v mods ih =>
      cases v with
      | none => exact ih w
      | some mod =>
        have hbody := rebindModule_of_catchable h other target mod w
        simp only [rebindLoop]
        split
        · exact ih w
        · split
          · next w' _ => exact ih w'
          · next e w' heq =>
            rw [heq] at hbody
            cases hbody
  exact Prod.ext hok (rebindLoop_ok hok)

/-- With every attribute readable and writable the loop ends by itself. -/
theorem rebindLoop_of_no_fault {env : Env Obj}
    (hread : ∀ m, env.readFault m = none) (hwrite : ∀ m, env.writeFault m = none)
    (other target : Obj) (mods : List (Value Obj)) (w : World Obj) :
    rebindLoop env other target mods w = (.ok (), rebound env other target mods w) :=
  rebindLoop_of_catchable ⟨by simp [hread], by simp [hwrite]⟩ other target mods w

end

end FerroIo
