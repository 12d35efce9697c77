import FerroIo.EventRun
import FerroIo.InstallUndo

/- Runs of `install`, `uninstall` and the steps of a program around them.

   Main result: `uninstall_restores`. Take any run, an `install` in it that takes
   effect and the `uninstall` that undoes it, with anything in between that leaves
   the installation in force, calls that raise half way included. Then the
   `asyncio` entry is what it was just before that `install`, absent if there was
   none (a `None` entry counts as none), and
     1. if the entry held a module other than `ferro_io`, no loaded module but
        `ferro_io` and that module itself, with a readable and writable attribute,
        is bound to `ferro_io`;
     2. if there was no entry, `uninstall` has nothing to bind the modules to
        (`if target is None: return`) and leaves every attribute as it is. -/
namespace FerroIo

variable {Obj : Type*}

/-- A step of a program: `load` puts a module into the table and runs its
    `import asyncio`, `unload` takes an entry out, that of `asyncio` included. -/
inductive InstallEvent (Obj : Type*) where
  | install (rebindExisting : Bool)
  | uninstall
  | load (name : String) (mod : Obj)
  | unload (name : String)
  deriving DecidableEq, Repr

section
variable [DecidableEq Obj]

def load (name : String) (mod : Obj) (w : World Obj) : World Obj :=
  let w := { w with modules := w.modules.set name (some mod) }
  match w.module "asyncio" with
  | some held => w.setattr mod "asyncio" (some held)
  | none => w

def World.step (env : Env Obj) (w : World Obj) : InstallEvent Obj → World Obj
  | .install rebindExisting => (install env rebindExisting w).2
  | .uninstall => (uninstall env w).2
  | .load name mod => load name mod w
  | .unload name => { w with modules := w.modules.pop name }

/-- The table with the entry put back, as `uninstall` starts. -/
def World.restored (w : World Obj) : World Obj :=
  { w with modules := match w.original with
      | some original => w.modules.set "asyncio" (some original)
      | none => w.modules.pop "asyncio" }

theorem rebindTo_frame (env : Env Obj) (target : Value Obj) (w : World Obj) :
    Frame w (rebindTo env target w).2 := by
  simp only [rebindTo]
  split
  · exact Frame.refl w
  · split
    · exact Frame.refl w
    · exact rebindLoop_frame _ _ _ _ _

/-- The world with the original saved and the entry replaced, as `install` goes on to
    rebind the modules. -/
def World.entered (env : Env Obj) (w : World Obj) : World Obj :=
  { w with
    original := w.module "asyncio"
    modules := w.modules.set "asyncio" (some env.ferroIo) }

/-- The rebinding of `install(rebind_existing=..)`, on the world it is done in. -/
def rebindEntered (env : Env Obj) (rebindExisting : Bool) (w : World Obj) :
    Except Fault Unit × World Obj :=
  if rebindExisting then rebindTo env (some env.ferroIo) (w.entered env) else (.ok (), w.entered env)

theorem rebindEntered_frame (env : Env Obj) (rebindExisting : Bool) (w : World Obj) :
    Frame (w.entered env) (rebindEntered env rebindExisting w).2 := by
  cases rebindExisting with
  | false => exact Frame.refl _
  | true => exact rebindTo_frame env (some env.ferroIo) (w.entered env)

/-- The guards at the top of the two. -/
theorem install_of_installed (env : Env Obj) (rebindExisting : Bool) {w : World Obj}
    (hw : w.installed = true) : install env rebindExisting w = (.ok (), w) := by
  simp [install, hw]

theorem uninstall_of_not_installed (env : Env Obj) {w : World Obj} (hw : w.installed = false) :
    uninstall env w = (.ok (), w) := by
  simp [uninstall, hw]

theorem install_entered (env : Env Obj) (rebindExisting : Bool) {w : World Obj}
    (hw : w.installed = false) :
    install env rebindExisting w = match rebindEntered env rebindExisting w with
      | (.ok _, w') => (.ok (), { w' with installed := true })
      | (.error e, w') => (.error e, w') := by
  obtain ⟨modules, attr, original, installed⟩ := w
  subst hw
  cases rebindExisting <;> rfl

theorem uninstall_restored (env : Env Obj) {w : World Obj} (hw : w.installed = true) :
    uninstall env w = match rebindTo env w.original w.restored with
      | (.ok _, w') => (.ok (), { w' with installed := false })
      | (.error e, w') => (.error e, w') := by
  obtain ⟨modules, attr, original, installed⟩ := w
  subst hw
  cases original <;> rfl

/-- What `install` does while not installed: it ends by itself, or it raises and does
    not count as installed. -/
theorem install_cases (env : Env Obj) (rebindExisting : Bool) {w : World Obj}
    (hw : w.installed = false) :
    (∃ w', rebindEntered env rebindExisting w = (.ok (), w') ∧
      install env rebindExisting w = (.ok (), { w' with installed := true })) ∨
    ∃ e w', rebindEntered env rebindExisting w = (.error e, w') ∧
      install env rebindExisting w = (.error e, w') := by
  rw [install_entered env rebindExisting hw]
  cases hto : rebindEntered env rebindExisting w with
  | mk result w' =>
    cases result with
    | ok u => exact .inl ⟨w', rfl, rfl⟩
    | error e => exact .inr ⟨e, w', rfl, rfl⟩

/-- What `uninstall` does while installed: it ends by itself, or it raises and
    stays installed. -/
theorem uninstall_cases (env : Env Obj) {w : World Obj} (hw : w.installed = true) :
    (∃ w', rebindTo env w.original w.restored = (.ok (), w') ∧
      uninstall env w = (.ok (), { w' with installed := false })) ∨
    ∃ e w', rebindTo env w.original w.restored = (.error e, w') ∧
      uninstall env w = (.error e, w') := by
  rw [uninstall_restored env hw]
  cases hto : rebindTo env w.original w.restored with
  | mk result w' =>
    cases result with
    | ok u => exact .inl ⟨w', rfl, rfl⟩
    | error e => exact .inr ⟨e, w', rfl, rfl⟩

/-- However `install` ends, it has changed the world by its rebinding, and the flag. -/
theorem install_leaves (env : Env Obj) (rebindExisting : Bool) {w : World Obj}
    (hw : w.installed = false) : ∃ flag, (install env rebindExisting w).2 =
      { (rebindEntered env rebindExisting w).2 with installed := flag } := by
  rcases install_cases env rebindExisting hw with ⟨w', hto, heq⟩ | ⟨e, w', hto, heq⟩
  · exact ⟨true, by rw [heq, hto]⟩
  · exact ⟨w'.installed, by rw [heq, hto]⟩

/-- However `uninstall` ends, it has changed the world by its rebinding, and the flag. -/
theorem uninstall_leaves (env : Env Obj) {w : World Obj} (hw : w.installed = true) :
    ∃ flag, (uninstall env w).2 =
      { (rebindTo env w.original w.restored).2 with installed := flag } := by
  rcases uninstall_cases env hw with ⟨w', hto, heq⟩ | ⟨e, w', hto, heq⟩
  · exact ⟨false, by rw [heq, hto]⟩
  · exact ⟨w'.installed, by rw [heq, hto]⟩

/-- The original is written by an `install` that takes effect and by nothing else. -/
theorem step_original (env : Env Obj) {w : World Obj} (hw : w.installed = true)
    (e : InstallEvent Obj) : (w.step env e).original = w.original := by
  cases e with
  | install rebindExisting => simp only [World.step, install_of_installed env rebindExisting hw]
  | uninstall =>
    obtain ⟨flag, heq⟩ := uninstall_leaves env hw
    simp only [World.step, heq]
    exact (rebindTo_frame env w.original w.restored).original
  | load name mod =>
    simp only [World.step, load]
    split <;> rfl
  | unload name => rfl

theorem run_original (env : Env Obj) {w : World Obj} {es : List (InstallEvent Obj)}
    (h : EventRun.Throughout (World.step env) (fun w => w.installed = true) w es) :
    (EventRun.run (World.step env) w es).original = w.original := by
  induction es generalizing w with
  | nil => rfl
  | cons e es ih =>
    calc (EventRun.run (World.step env) (w.step env e) es).original
        = (w.step env e).original := ih h.2
      _ = w.original := step_original env h.1 e

/-- An `install` that takes effect saves the entry it finds. -/
theorem install_original (env : Env Obj) (rebindExisting : Bool) {w : World Obj}
    (hw : w.installed = false) :
    (install env rebindExisting w).2.original = w.module "asyncio" := by
  obtain ⟨flag, heq⟩ := install_leaves env rebindExisting hw
  rw [heq]
  exact (rebindEntered_frame env rebindExisting w).original

/-- What an `install` that takes effect leaves, by the module it saves. -/
theorem install_of_ok {env : Env Obj} {rebindExisting : Bool} {w : World Obj} {std : Obj}
    (hw : w.installed = false) (hstd : w.module "asyncio" = some std)
    (hok : (install env rebindExisting w).1 = .ok ()) :
    (install env rebindExisting w).2 = installedWorld env rebindExisting std w := by
  have hentered : w.entered env = { w with
      original := some std, modules := w.modules.set "asyncio" (some env.ferroIo) } := by
    simp only [World.entered, hstd]
  rcases install_cases env rebindExisting hw with ⟨w', hto, heq⟩ | ⟨e, w', hto, heq⟩
  · rw [heq]
    cases rebindExisting with
    | false =>
      have hw' : w.entered env = w' := (Prod.mk.inj hto).2
      simp only [← hw', hentered, installedWorld, Bool.false_eq_true, if_false]
    | true =>
      have horig : (w.entered env).original = some std := hstd
      simp only [rebindEntered, rebindTo, if_true, horig] at hto
      have hloop := rebindLoop_ok (congrArg Prod.fst hto)
      rw [hto, hentered] at hloop
      have hw' : w' = _ := hloop
      simp only [hw', installedWorld, if_true]
  · rw [heq] at hok
    cases hok

/-- What an `uninstall` that takes effect leaves, by the original it restores. -/
theorem uninstall_of_ends (env : Env Obj) {w : World Obj} (hw : w.installed = true)
    (hend : (uninstall env w).2.installed = false) :
    (uninstall env w).2 = match w.original with
      | some original => uninstalledWorld env original w
      | none => { w with modules := w.modules.pop "asyncio", installed := false } := by
  rcases uninstall_cases env hw with ⟨w', hto, heq⟩ | ⟨e, w', hto, heq⟩
  · rw [heq]
    cases horig : w.original with
    | none =>
      rw [horig] at hto
      have hw' : w.restored = w' := (Prod.mk.inj hto).2
      simp only [← hw', World.restored, horig]
    | some original =>
      have hother : (if original = env.ferroIo then w.restored.original else some env.ferroIo) =
          some env.ferroIo := by
        split
        · next h => exact horig.trans (congrArg some h)
        · rfl
      simp only [horig, rebindTo, hother] at hto
      have hloop := rebindLoop_ok (congrArg Prod.fst hto)
      rw [hto] at hloop
      have hw' : w' = rebound env env.ferroIo original w.restored.modules.values w.restored := hloop
      have hrestored : w.restored =
          { w with modules := w.modules.set "asyncio" (some original) } := by
        simp only [World.restored, horig]
      simp only [hw', hrestored, uninstalledWorld]
  · -- it raised, so it is still installed
    have hframe := (rebindTo_frame env w.original w.restored).installed
    rw [hto] at hframe
    rw [heq] at hend
    exact absurd (hend.symm.trans (hframe.trans hw)) (by decide)

/-- The original at the end of an installation is the entry at its start. -/
theorem original_of_run (env : Env Obj) {w : World Obj} (hw : w.installed = false)
    (rebindExisting : Bool) {mid : List (InstallEvent Obj)}
    (hmid : EventRun.Throughout (World.step env) (fun w => w.installed = true)
      (w.step env (.install rebindExisting)) mid) :
    (EventRun.run (World.step env) (w.step env (.install rebindExisting)) mid).original =
      w.module "asyncio" := by
  calc (EventRun.run (World.step env) (w.step env (.install rebindExisting)) mid).original
      = (w.step env (.install rebindExisting)).original := run_original env hmid
    _ = w.module "asyncio" := install_original env rebindExisting hw

theorem installed_of_throughout (env : Env Obj) {w : World Obj} {es : List (InstallEvent Obj)}
    (h : EventRun.Throughout (World.step env) (fun w => w.installed = true) w es) :
    (EventRun.run (World.step env) w es).installed = true :=
  EventRun.throughout_iff.mp h es (List.prefix_refl es)

/-- After a completed `uninstall` that had a module to restore. -/
theorem uninstalledWorld_unbound (env : Env Obj) {original : Obj} (hne : original ≠ env.ferroIo)
    (w : World Obj) {m : Obj} (hlisted : some m ∈ (uninstalledWorld env original w).modules.values)
    (hf : m ≠ env.ferroIo) (ho : m ≠ original) (hread : env.readFault m = none)
    (hwrite : env.writeFault m = none) :
    (uninstalledWorld env original w).attr m "asyncio" ≠ some (some env.ferroIo) := by
  intro hbound
  rw [uninstalledWorld_asyncio] at hbound
  split at hbound
  · exact hne (Option.some.inj (Option.some.inj hbound))
  · next hnot => exact hnot ⟨hlisted, hf, ho, hread, hwrite, hbound⟩

/-- What the `uninstall` that undoes an `install` restores, in any run. -/
theorem uninstall_restores (env : Env Obj) (start : World Obj) (pre mid : List (InstallEvent Obj))
    (rebindExisting : Bool)
    (hpre : (EventRun.run (World.step env) start pre).installed = false)
    (hmid : EventRun.Throughout (World.step env) (fun w => w.installed = true)
      (EventRun.run (World.step env) start (pre ++ [.install rebindExisting])) mid)
    (hend : (EventRun.run (World.step env) start
      (pre ++ [.install rebindExisting] ++ mid ++ [.uninstall])).installed = false) :
    let before := EventRun.run (World.step env) start pre
    let inside := EventRun.run (World.step env) start (pre ++ [.install rebindExisting] ++ mid)
    let after := EventRun.run (World.step env) start
      (pre ++ [.install rebindExisting] ++ mid ++ [.uninstall])
    after.modules.get "asyncio" = (before.module "asyncio").map some ∧
    (∀ original, before.module "asyncio" = some original → original ≠ env.ferroIo →
      ∀ m, some m ∈ after.modules.values → m ≠ env.ferroIo → m ≠ original →
        env.readFault m = none → env.writeFault m = none →
        after.attr m "asyncio" ≠ some (some env.ferroIo)) ∧
    (before.module "asyncio" = none → after.attr = inside.attr) := by
  intro before inside after
  simp only [EventRun.run_append, EventRun.run_cons, EventRun.run_nil] at hmid hend
  have horig : inside.original = before.module "asyncio" := by
    simp only [inside, EventRun.run_append]
    exact original_of_run env hpre rebindExisting hmid
  have hinst : inside.installed = true := by
    simp only [inside, EventRun.run_append]
    exact installed_of_throughout env hmid
  have hafter : after = (uninstall env inside).2 := by
    simp only [after, inside, EventRun.run_append]
    rfl
  have hends : (uninstall env inside).2.installed = false := by
    simp only [inside, EventRun.run_append]
    exact hend
  have hspec := uninstall_of_ends env hinst hends
  rw [← hafter, horig] at hspec
  cases hbefore : before.module "asyncio" with
  | none =>
    simp only [hbefore] at hspec
    rw [hspec]
    refine ⟨OrderedDict.get_pop_self _ _, ?_, fun _ => rfl⟩
    intro original h
    cases h
  | some original =>
    simp only [hbefore] at hspec
    rw [hspec]
    refine ⟨OrderedDict.get_set_self _ _ _, ?_, ?_⟩
    · intro o ho hne m hlisted hf hm hread hwrite
      cases ho
      exact uninstalledWorld_unbound env hne inside hlisted hf hm hread hwrite
    · intro h
      cases h

/-- A module that is loaded while installed is bound to stdlib asyncio afterwards. -/
theorem uninstall_restores_late_load :
    (EventRun.run (World.step plainEnv) (bindingWorld 0)
      ([] ++ [.install true] ++ [.load "late" 3] ++ [.uninstall])).attr 3 "asyncio" ≠
        some (some 1) :=
  (uninstall_restores plainEnv (bindingWorld 0) [] [.load "late" 3] true rfl (by decide)
    rfl).2.1 0 rfl (by decide) 3 (by decide) (by decide) (by decide) rfl rfl

/-- With the entry deleted before `install`, a module loaded while installed keeps
    its binding to `ferro_io`; so does stdlib asyncio loaded under a second name,
    which `install` rebinds and `uninstall` skips. -/
theorem late_load_stays_bound :
    let before := EventRun.run (World.step plainEnv) (bindingWorld 0) [.unload "asyncio"]
    let after := EventRun.run (World.step plainEnv) (bindingWorld 0)
      [.unload "asyncio", .install true, .load "late" 3, .uninstall]
    let aliased := EventRun.run (World.step plainEnv) (bindingWorld 0)
      [.load "aio" 0, .install true, .uninstall]
    before.installed = false ∧ after.installed = false ∧ aliased.installed = false ∧
    before.modules.get "asyncio" = none ∧ after.modules.get "asyncio" = none ∧
    after.modules.get "late" = some (some 3) ∧ after.attr 3 "asyncio" = some (some 1) ∧
    aliased.modules.get "asyncio" = some (some 0) ∧
    aliased.attr 0 "asyncio" = some (some 1) := by
  decide

end

end FerroIo
