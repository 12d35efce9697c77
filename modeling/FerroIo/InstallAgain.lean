import FerroIo.InstallRuns

/- What a call of `install(rebind_existing=True)` that returns has achieved, after any
   run before it.

   Main result: `install_delivers`. While not installed the call replaces the entry and
   leaves no module bound to stdlib asyncio. While installed it changes nothing
   (`if _installed: return`): a module that is bound to stdlib asyncio by then, since an
   earlier call did not rebind or since it bound itself later, stays so. The entry is
   `ferro_io` all the same, unless an `uninstall` was cut short. -/
namespace FerroIo

variable {Obj : Type*}

/-- A step of the program, or a module binding its `asyncio` attribute to a value. -/
inductive SessionEvent (Obj : Type*) where
  | program (e : InstallEvent Obj)
  | bind (mod : Obj) (v : Value Obj)

section
variable [DecidableEq Obj]

def World.session (env : Env Obj) (w : World Obj) : SessionEvent Obj → World Obj
  | .program e => w.step env e
  | .bind mod v => w.setattr mod "asyncio" v

/-- Every `uninstall` returns, and no module is loaded or unloaded under the name
    `asyncio`. -/
def Undisturbed (env : Env Obj) (w : World Obj) : SessionEvent Obj → Prop
  | .program .uninstall => (uninstall env w).1 = .ok ()
  | .program (.load name _) => name ≠ "asyncio"
  | .program (.unload name) => name ≠ "asyncio"
  | _ => True

/-- While installed, the entry is `ferro_io`. -/
def InForceEntry (env : Env Obj) (w : World Obj) : Prop :=
  w.installed = true → w.modules.get "asyncio" = some (some env.ferroIo)

theorem inForceEntry_step {env : Env Obj} {w : World Obj} (h : InForceEntry env w)
    (e : SessionEvent Obj) (he : Undisturbed env w e) : InForceEntry env (w.session env e) := by
  cases e with
  | bind mod v => exact h
  | program e =>
    cases e with
    | install rebindExisting =>
      cases hinst : w.installed with
      | true =>
        simp only [World.session, World.step, install_of_installed env rebindExisting hinst]
        exact h
      | false =>
        obtain ⟨flag, heq⟩ := install_leaves env rebindExisting hinst
        intro _
        simp only [World.session, World.step, heq]
        calc (rebindEntered env rebindExisting w).2.modules.get "asyncio"
            = (w.entered env).modules.get "asyncio" :=
              congrArg (·.get "asyncio") (rebindEntered_frame env rebindExisting w).modules
          _ = some (some env.ferroIo) := OrderedDict.get_set_self _ _ _
    | uninstall =>
      have hok : (uninstall env w).1 = .ok () := he
      cases hinst : w.installed with
      | false =>
        simp only [World.session, World.step, uninstall_of_not_installed env hinst]
        exact h
      | true =>
        rcases uninstall_cases env hinst with ⟨w', -, heq⟩ | ⟨e, w', -, heq⟩
        · intro hflag
          simp [World.session, World.step, heq] at hflag
        · rw [heq] at hok
          cases hok
    | load name mod =>
      have hname : name ≠ "asyncio" := he
      have hget : (w.modules.set name (some mod)).get "asyncio" = w.modules.get "asyncio" := by
        rw [OrderedDict.get_set, if_neg hname]
      simp only [World.session, World.step, load]
      split
      · exact fun hinst => hget.trans (h hinst)
      · exact fun hinst => hget.trans (h hinst)
    | unload name =>
      have hname : name ≠ "asyncio" := he
      have hget : (w.modules.pop name).get "asyncio" = w.modules.get "asyncio" := by
        rw [OrderedDict.get_pop, if_neg hname]
      exact fun hinst => hget.trans (h hinst)

/-- After an `install` that took effect and rebound. -/
theorem installedWorld_unbound (env : Env Obj) {std : Obj} (hne : std ≠ env.ferroIo)
    (w : World Obj) {m : Obj} (hlisted : some m ∈ (installedWorld env true std w).modules.values)
    (hf : m ≠ env.ferroIo) (hread : env.readFault m = none) (hwrite : env.writeFault m = none) :
    (installedWorld env true std w).attr m "asyncio" ≠ some (some std) := by
  have hmods : (installedWorld env true std w).modules =
      w.modules.set "asyncio" (some env.ferroIo) := rfl
  have hpop : some m ∈ (w.modules.pop "asyncio").values := by
    rw [hmods, OrderedDict.mem_values_set] at hlisted
    exact hlisted.resolve_left fun h => hf (Option.some.inj h)
  intro hbound
  rw [installedWorld_asyncio] at hbound
  split at hbound
  · exact hne (Option.some.inj (Option.some.inj hbound)).symm
  · next hnot => exact hnot ⟨rfl, hf, hpop, hread, hwrite, hbound⟩

/-- What `install(rebind_existing=True)` achieves in every state that a program
    reaches. -/
theorem install_delivers (env : Env Obj) (start : World Obj) (hstart : start.installed = false)
    (es : List (SessionEvent Obj)) :
    let w := EventRun.run (World.session env) start es
    let after := install env true w
    (w.installed = false → ∀ std, w.module "asyncio" = some std → std ≠ env.ferroIo →
      after.1 = .ok () →
        after.2.modules.get "asyncio" = some (some env.ferroIo) ∧
        ∀ m, some m ∈ after.2.modules.values → m ≠ env.ferroIo → m ≠ std →
          env.readFault m = none → env.writeFault m = none →
          after.2.attr m "asyncio" ≠ some (some std)) ∧
    (w.installed = true → after = (.ok (), w) ∧
      (EventRun.Meets (World.session env) (Undisturbed env) start es →
        w.modules.get "asyncio" = some (some env.ferroIo))) := by
  intro w after
  refine ⟨?_, ?_⟩
  · intro hinst std hstd hne hok
    have hworld : after.2 = installedWorld env true std w := install_of_ok hinst hstd hok
    rw [hworld]
    refine ⟨OrderedDict.get_set_self _ _ _, ?_⟩
    intro m hlisted hf _ hread hwrite
    exact installedWorld_unbound env hne w hlisted hf hread hwrite
  · intro hinst
    refine ⟨install_of_installed env true hinst, ?_⟩
    intro hes
    have hentry : InForceEntry env w := by
      refine EventRun.run_inv_of_meets (I := InForceEntry env)
        (fun w e h he => inForceEntry_step h e he) ?_ hes
      intro h
      exact absurd (hstart.symm.trans h) (by decide)
    exact hentry hinst

/-- From the clean state: the module bound to stdlib asyncio is rebound. -/
theorem install_delivers_clean :
    (install plainEnv true (bindingWorld 0)).2.modules.get "asyncio" = some (some 1) ∧
    (install plainEnv true (bindingWorld 0)).2.attr 2 "asyncio" ≠ some (some 0) := by
  have h := (install_delivers plainEnv (bindingWorld 0) rfl []).1 rfl 0 rfl (by decide) rfl
  exact ⟨h.1, h.2 2 (by decide) (by decide) (by decide) rfl rfl⟩

/-- Writing the attribute of module 3 raises what `except Exception` lets through. -/
def stubbornEnv : Env Nat where
  ferroIo := 1
  readFault _ := none
  writeFault m := if m = 3 then some .baseException else none

/-- After `install(rebind_existing=False)`, or when a module has bound itself to stdlib
    asyncio since, the call leaves the module bound to it; and after an `uninstall` that
    was cut short it leaves stdlib asyncio in the entry. -/
theorem install_again_keeps :
    let earlier := EventRun.run (World.session plainEnv) (bindingWorld 0)
      [.program (.install false)]
    let bound := EventRun.run (World.session plainEnv) (bindingWorld 0)
      [.program (.install true), .bind 2 (some 0)]
    let cut := EventRun.run (World.session stubbornEnv) (bindingWorld 0)
      [.program (.install false), .program (.load "late" 3), .program .uninstall]
    earlier.original = some 0 ∧ (install plainEnv true earlier).1 = .ok () ∧
    (install plainEnv true earlier).2.modules.get "main" = some (some 2) ∧
    (install plainEnv true earlier).2.attr 2 "asyncio" = some (some 0) ∧
    bound.original = some 0 ∧ (install plainEnv true bound).1 = .ok () ∧
    (install plainEnv true bound).2.attr 2 "asyncio" = some (some 0) ∧
    cut.original = some 0 ∧ (install stubbornEnv true cut).1 = .ok () ∧
    (install stubbornEnv true cut).2.modules.get "asyncio" = some (some 0) := by
  decide

end

end FerroIo
