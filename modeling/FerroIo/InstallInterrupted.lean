import FerroIo.EventRun
import FerroIo.InstallSteps

/- An `install` that an exception cuts short in its loop, and the calls that follow.

   The exception may come at any access to a module's attribute (`cutShort`). By then
   the entry is replaced, and the flag that lets `uninstall` undo it is not set; the
   next `install` takes `ferro_io` itself for the original.

   Main result: `interrupted_undone_iff`. Whatever calls of `install` and `uninstall`
   follow, the `asyncio` entry is what it was before only if it was `ferro_io` already
   then. The invariant of the calls that follow is `Stuck`. -/
namespace FerroIo

variable {Obj : Type*}

inductive ModuleCall where
  | install (rebindExisting : Bool)
  | uninstall
  deriving DecidableEq, Repr

/-- A call of the module, with what reading and writing attributes raises while it
    runs. -/
structure Retry (Obj : Type*) where
  readFault : Obj → Option Fault
  writeFault : Obj → Option Fault
  call : ModuleCall

section
variable [DecidableEq Obj]

/-- The call leaves the world in a state, whether it returns or raises. -/
def Retry.run (ferroIo : Obj) (w : World Obj) (r : Retry Obj) : World Obj :=
  let env : Env Obj := ⟨ferroIo, r.readFault, r.writeFault⟩
  match r.call with
  | .install rebindExisting => (install env rebindExisting w).2
  | .uninstall => (uninstall env w).2

/-- The state of a call after as many steps as there are faults. -/
def cutShort (ferroIo : Obj) (rebindExisting : Bool) (w : World Obj)
    (faults : List (Option Fault)) : World Obj × InstallPc Obj :=
  EventRun.run (fun s fault => installStep ferroIo rebindExisting fault s.1 s.2)
    (w, .readFlag) faults

/-- The entry is `ferro_io`, and so is what `uninstall` would restore. -/
structure Stuck (ferroIo : Obj) (w : World Obj) : Prop where
  entry : w.modules.get "asyncio" = some (some ferroIo)
  original : w.installed = true → w.original = some ferroIo

/-- What a call has done to the entry and the flag, by where it is. -/
def Patched (ferroIo : Obj) (w : World Obj) : InstallPc Obj → Prop
  | .readFlag | .returned => True
  | .readEntry | .writeOriginal _ | .writeEntry => w.installed = false
  | _ => w.installed = false ∧ w.modules.get "asyncio" = some (some ferroIo)

theorem patched_nextModule {ferroIo : Obj} {w : World Obj} (hinst : w.installed = false)
    (hentry : w.modules.get "asyncio" = some (some ferroIo)) (other : Obj)
    (mods : List (Value Obj)) : Patched ferroIo w (nextModule ferroIo other mods) := by
  induction mods with
  | nil => exact ⟨hinst, hentry⟩
  | cons v mods ih =>
    cases v with
    | none => exact ih
    | some m =>
      simp only [nextModule]
      split
      · exact ih
      · exact ⟨hinst, hentry⟩

/-- Step lemma. -/
theorem patched_step {ferroIo : Obj} (rebindExisting : Bool) (fault : Option Fault)
    {w : World Obj} {pc : InstallPc Obj} (h : Patched ferroIo w pc) :
    Patched ferroIo (installStep ferroIo rebindExisting fault w pc).1
      (installStep ferroIo rebindExisting fault w pc).2 := by
  cases pc with
  | readFlag =>
    cases hinst : w.installed with
    | true => simp [installStep, hinst, Patched]
    | false => simp [installStep, hinst, Patched]
  | readEntry => exact h
  | writeOriginal v => exact h
  | writeEntry =>
    have hinst : w.installed = false := h
    cases rebindExisting <;> simp [installStep, Patched, hinst]
  | readOriginal =>
    simp only [installStep]
    split <;> exact h
  | listModules other => exact patched_nextModule h.1 h.2 _ _
  | readAttr other m mods =>
    simp only [installStep]
    split
    · exact h
    · exact patched_nextModule h.1 h.2 _ _
    · split
      · exact h
      · exact patched_nextModule h.1 h.2 _ _
  | writeAttr other m mods =>
    simp only [installStep]
    split
    · exact h
    · exact patched_nextModule h.1 h.2 _ _
    · exact patched_nextModule (w := w.setattr m "asyncio" (some ferroIo)) h.1 h.2 _ _
  | writeFlag => trivial
  | returned => trivial
  | raised e => exact h

theorem stuck_of_raised {ferroIo : Obj} {rebindExisting : Bool} {w w' : World Obj}
    {faults : List (Option Fault)} {e : Fault}
    (hcut : cutShort ferroIo rebindExisting w faults = (w', .raised e)) : Stuck ferroIo w' := by
  have h : Patched ferroIo (cutShort ferroIo rebindExisting w faults).1
      (cutShort ferroIo rebindExisting w faults).2 :=
    EventRun.run_inv (I := fun s : World Obj × InstallPc Obj => Patched ferroIo s.1 s.2)
      (s := (w, .readFlag)) (fun s fault h => patched_step rebindExisting fault h) trivial faults
  rw [hcut] at h
  exact ⟨h.2, fun hinst => absurd (h.1.symm.trans hinst) (by decide)⟩

/-! ## The calls that follow -/

omit [DecidableEq Obj] in
/-- Rebinding the modules leaves the entry and the original alone. -/
theorem stuck_of_frame {ferroIo : Obj} {w w' : World Obj} (hframe : Frame w w')
    (hentry : w.modules.get "asyncio" = some (some ferroIo)) (horig : w.original = some ferroIo)
    (flag : Bool) : Stuck ferroIo { w' with installed := flag } where
  entry := (congrArg (·.get "asyncio") hframe.modules).trans hentry
  original := fun _ => hframe.original.trans horig

theorem stuck_install {env : Env Obj} {w : World Obj} (h : Stuck env.ferroIo w)
    (rebindExisting : Bool) : Stuck env.ferroIo (install env rebindExisting w).2 := by
  cases hinst : w.installed with
  | true =>
    rw [install_of_installed env rebindExisting hinst]
    exact h
  | false =>
    have hentry : (w.entered env).modules.get "asyncio" = some (some env.ferroIo) :=
      OrderedDict.get_set_self _ _ _
    have horig : (w.entered env).original = some env.ferroIo := by
      simp [World.entered, World.module, h.entry]
    obtain ⟨flag, heq⟩ := install_leaves env rebindExisting hinst
    rw [heq]
    exact stuck_of_frame (rebindEntered_frame env rebindExisting w) hentry horig flag

theorem stuck_uninstall {env : Env Obj} {w : World Obj} (h : Stuck env.ferroIo w) :
    Stuck env.ferroIo (uninstall env w).2 := by
  cases hinst : w.installed with
  | false =>
    rw [uninstall_of_not_installed env hinst]
    exact h
  | true =>
    have horig := h.original hinst
    have hentry : w.restored.modules.get "asyncio" = some (some env.ferroIo) := by
      simp [World.restored, horig]
    obtain ⟨flag, heq⟩ := uninstall_leaves env hinst
    rw [heq]
    exact stuck_of_frame (rebindTo_frame env w.original w.restored) hentry horig flag

theorem stuck_retry {ferroIo : Obj} {w : World Obj} (h : Stuck ferroIo w) (r : Retry Obj) :
    Stuck ferroIo (r.run ferroIo w) := by
  simp only [Retry.run]
  split
  · have h' : Stuck (Env.mk ferroIo r.readFault r.writeFault).ferroIo w := h
    exact stuck_install h' _
  · have h' : Stuck (Env.mk ferroIo r.readFault r.writeFault).ferroIo w := h
    exact stuck_uninstall h'

/-- When the calls that follow an interrupted `install` leave the entry as it was
    before it: whatever they are, if and only if it was `ferro_io`. -/
theorem interrupted_undone_iff (ferroIo : Obj) (rebindExisting : Bool) (w w' : World Obj)
    (faults : List (Option Fault)) (e : Fault)
    (hcut : cutShort ferroIo rebindExisting w faults = (w', .raised e)) (later : List (Retry Obj)) :
    (EventRun.run (Retry.run ferroIo) w' later).modules.get "asyncio" =
        w.modules.get "asyncio" ↔
      w.modules.get "asyncio" = some (some ferroIo) := by
  have hstuck : Stuck ferroIo (EventRun.run (Retry.run ferroIo) w' later) :=
    EventRun.run_inv (I := Stuck ferroIo) (fun w r h => stuck_retry h r)
      (stuck_of_raised hcut) later
  rw [hstuck.entry]
  exact eq_comm

/-- The first six steps of a call, up to its first attribute access, which raises. -/
def firstReadRaises : List (Option Fault) :=
  List.replicate 6 none ++ [some .baseException]

/-- `ferro_io` is listed as `asyncio` already. -/
def selfWorld : World Nat where
  modules := ⟨[("asyncio", some 1), ("main", some 2)], by decide⟩
  attr _ _ := none
  original := none
  installed := false

def noFault (call : ModuleCall) : Retry Nat := ⟨fun _ => none, fun _ => none, call⟩

theorem interrupted_undone_self :
    (EventRun.run (Retry.run 1) (cutShort 1 true selfWorld firstReadRaises).1
      [noFault (.install true), noFault .uninstall]).modules.get "asyncio" = some (some 1) := by
  have hentry : selfWorld.modules.get "asyncio" = some (some 1) := rfl
  have hcut : cutShort 1 true selfWorld firstReadRaises =
      ((cutShort 1 true selfWorld firstReadRaises).1, .raised .baseException) :=
    Prod.ext rfl (by decide)
  rw [← hentry]
  exact (interrupted_undone_iff 1 true selfWorld _ firstReadRaises .baseException hcut
    [noFault (.install true), noFault .uninstall]).mpr hentry

/-- An interrupted `install`, and then `uninstall` alone or after another `install`:
    `ferro_io` stays in place of stdlib asyncio. -/
theorem interrupted_not_undone :
    let cut := cutShort 1 true (bindingWorld 0) firstReadRaises
    cut.2 = .raised .baseException ∧
    (bindingWorld 0).modules.get "asyncio" = some (some 0) ∧
    (EventRun.run (Retry.run 1) cut.1 [noFault .uninstall]).modules.get "asyncio" = some (some 1) ∧
    (EventRun.run (Retry.run 1) cut.1 [noFault (.install true), noFault .uninstall]).modules.get "asyncio" =
      some (some 1) := by
  decide

end

end FerroIo
