import FerroIo.InstallRuns
import Mathlib.Logic.Function.Iterate

/- `install` of `ferro_io/_install.py`, one access to shared state at a time: the flag,
   the saved original, the `asyncio` entry, the list of modules, and the `asyncio`
   attribute of each module that the loop visits.

   A step may be given a fault, which its attribute access then raises; every other
   step ignores it. `accessFault` is the fault that an environment gives it, and
   `install_steps` says that a call that is left alone takes, step by step, the one
   step `install` of the model. -/
namespace FerroIo

variable {Obj : Type*}

/-- What a call of `install` does next. `readAttr other m mods` and `writeAttr other m
    mods` are the two accesses to a module `m` of the loop, `mods` being the rest. -/
inductive InstallPc (Obj : Type*) where
  | readFlag
  | readEntry
  | writeOriginal (v : Value Obj)
  | writeEntry
  | readOriginal
  | listModules (other : Obj)
  | readAttr (other m : Obj) (mods : List (Value Obj))
  | writeAttr (other m : Obj) (mods : List (Value Obj))
  | writeFlag
  | returned
  | raised (fault : Fault)
  deriving DecidableEq

section
variable [DecidableEq Obj]

/-- The loop goes on to the next module that it does not skip. -/
def nextModule (ferroIo other : Obj) : List (Value Obj) → InstallPc Obj
  | [] => .writeFlag
  | none :: mods => nextModule ferroIo other mods
  | some m :: mods =>
    if m = ferroIo then nextModule ferroIo other mods else .readAttr other m mods

/-- One step of a call. -/
def installStep (ferroIo : Obj) (rebindExisting : Bool) (fault : Option Fault) (w : World Obj) :
    InstallPc Obj → World Obj × InstallPc Obj
  | .readFlag => (w, if w.installed then .returned else .readEntry)
  | .readEntry => (w, .writeOriginal (w.module "asyncio"))
  | .writeOriginal v => ({ w with original := v }, .writeEntry)
  | .writeEntry =>
    ({ w with modules := w.modules.set "asyncio" (some ferroIo) },
      if rebindExisting then .readOriginal else .writeFlag)
  | .readOriginal => match w.original with
    | some other => (w, .listModules other)
    | none => (w, .writeFlag)
  | .listModules other => (w, nextModule ferroIo other w.modules.values)
  | .readAttr other m mods => match fault with
    | some .baseException => (w, .raised .baseException)
    | some .exception => (w, nextModule ferroIo other mods)
    | none =>
      if w.getattr m "asyncio" = some other then (w, .writeAttr other m mods)
      else (w, nextModule ferroIo other mods)
  | .writeAttr other m mods => match fault with
    | some .baseException => (w, .raised .baseException)
    | some .exception => (w, nextModule ferroIo other mods)
    | none => (w.setattr m "asyncio" (some ferroIo), nextModule ferroIo other mods)
  | .writeFlag => ({ w with installed := true }, .returned)
  | .returned => (w, .returned)
  | .raised e => (w, .raised e)

/-- What the access of a step raises in the given environment. -/
def accessFault (env : Env Obj) : InstallPc Obj → Option Fault
  | .readAttr _ m _ => env.readFault m
  | .writeAttr _ m _ => env.writeFault m
  | _ => none

/-- A step of a call that nobody else's steps come between. -/
def callStep (env : Env Obj) (rebindExisting : Bool) (s : World Obj × InstallPc Obj) :
    World Obj × InstallPc Obj :=
  installStep env.ferroIo rebindExisting (accessFault env s.2) s.1 s.2

/-- Where a call is when it has ended. -/
def InstallPc.ended : Except Fault Unit → InstallPc Obj
  | .ok _ => .returned
  | .error e => .raised e

/-! ## A call by itself -/

variable {env : Env Obj} {rebindExisting : Bool}

theorem steps_trans {s t u : World Obj × InstallPc Obj}
    (h : ∃ n, (callStep env rebindExisting)^[n] s = t)
    (h' : ∃ n, (callStep env rebindExisting)^[n] t = u) :
    ∃ n, (callStep env rebindExisting)^[n] s = u := by
  obtain ⟨n, hn⟩ := h
  obtain ⟨n', hn'⟩ := h'
  exact ⟨n' + n, by rw [Function.iterate_add_apply, hn, hn']⟩

/-- The accesses to one module are the body of the loop. -/
theorem module_steps (other m : Obj) (mods : List (Value Obj)) (w : World Obj) :
    ∃ n, (callStep env rebindExisting)^[n] (w, .readAttr other m mods) =
      match rebindModule env other env.ferroIo m w with
      | (.ok _, w') => (w', nextModule env.ferroIo other mods)
      | (.error e, w') => (w', .raised e) := by
  cases hr : env.readFault m with
  | some fault =>
    refine ⟨1, ?_⟩
    cases fault <;> simp [callStep, installStep, accessFault, rebindModule, hr]
  | none =>
    by_cases ho : w.getattr m "asyncio" = some other
    · refine ⟨2, ?_⟩
      cases hw : env.writeFault m with
      | some fault =>
        cases fault <;> simp [callStep, installStep, accessFault, rebindModule, hr, hw, ho]
      | none => simp [callStep, installStep, accessFault, rebindModule, hr, hw, ho]
    · refine ⟨1, ?_⟩
      simp [callStep, installStep, accessFault, rebindModule, hr, ho]

/-- The steps of the loop are the loop. -/
theorem loop_steps (other : Obj) (mods : List (Value Obj)) (w : World Obj) :
    ∃ n, (callStep env rebindExisting)^[n] (w, nextModule env.ferroIo other mods) =
      match rebindLoop env other env.ferroIo mods w with
      | (.ok _, w') => (w', .writeFlag)
      | (.error e, w') => (w', .raised e) := by
  induction mods generalizing w with
  | nil => exact ⟨0, rfl⟩
  | cons v mods ih =>
    cases v with
    | none => exact ih w
    | some m =>
      by_cases hm : m = env.ferroIo
      · simp only [nextModule, rebindLoop, hm, if_true, true_or]
        exact ih w
      · simp only [nextModule, rebindLoop, hm, if_false, or_self]
        refine steps_trans (module_steps other m mods w) ?_
        cases hbody : rebindModule env other env.ferroIo m w with
        | mk result w' =>
          cases result with
          | ok u => exact ih w'
          | error e => exact ⟨0, rfl⟩

/-- A call by itself does, step by step, what `install` does. -/
theorem install_steps (env : Env Obj) (rebindExisting : Bool) (w : World Obj) :
    ∃ n, (callStep env rebindExisting)^[n] (w, .readFlag) =
      ((install env rebindExisting w).2, .ended (install env rebindExisting w).1) := by
  cases hinst : w.installed with
  | true =>
    refine ⟨1, ?_⟩
    simp [callStep, installStep, install, hinst, InstallPc.ended]
  | false =>
    -- the four steps before the modules are rebound
    have hentered : ∃ n, (callStep env rebindExisting)^[n] (w, .readFlag) =
        (w.entered env, if rebindExisting then .readOriginal else .writeFlag) := by
      refine ⟨4, ?_⟩
      simp [callStep, installStep, hinst, World.entered]
    have hrebound : ∃ n, (callStep env rebindExisting)^[n] (w.entered env,
        if rebindExisting then .readOriginal else .writeFlag) =
          match rebindEntered env rebindExisting w with
          | (.ok _, w') => (w', .writeFlag)
          | (.error e, w') => (w', .raised e) := by
      cases rebindExisting with
      | false => exact ⟨0, rfl⟩
      | true =>
        simp only [rebindEntered, rebindTo, if_true]
        cases horig : (w.entered env).original with
        | none =>
          refine ⟨1, ?_⟩
          simp [callStep, installStep, horig]
        | some other =>
          refine steps_trans ⟨2, ?_⟩ (loop_steps other (w.entered env).modules.values _)
          simp [callStep, installStep, horig]
    refine steps_trans (steps_trans hentered hrebound) ?_
    rcases install_cases env rebindExisting hinst with ⟨w', hto, heq⟩ | ⟨e, w', hto, heq⟩
    · rw [hto, heq]
      exact ⟨1, rfl⟩
    · rw [hto, heq]
      exact ⟨0, rfl⟩

end

end FerroIo
