import FerroIo.ModuleBody
import FerroIo.NameLookup

/- The body of `ferro_io/__init__.py`, run when the module is first imported: which names it
   binds, and what the names of stdlib asyncio are on `ferro_io` from then on.

   Correspondence (Python ↔ Lean):
     the statements at the top level         ↔ `moduleBody`
     `__all__`                               ↔ `exported`
     `import ferro_io`, run first            ↔ `importFerroIo`
     `from ferro_io import *`                ↔ `starImport`
   Classes, functions and values of the module's own are `own`, by the name they are first
   bound to. What the module has before its body runs is `given`: what the import system
   binds (`__name__`, `__file__`, ..) and what every module has (`__dict__`, ..). The first
   call of `install` or `uninstall` imports `ferro_io._install` and so binds `_install` on
   `ferro_io`; that name is left out, with `asyncio` (`boundByCalls`).

   Main results:
     1. `symbols_match`: in every state that `install` and `uninstall` lead to, a name that
        is neither defined by the body nor given nor bound by these calls is on `ferro_io`,
        and on what `import asyncio` gives, the very object that it is on stdlib asyncio;
     2. `star_import`: `from ferro_io import *` raises an AttributeError exactly where stdlib
        asyncio has no `timeout` or no `TaskGroup` (Python 3.9 and 3.10): `__all__` lists
        both, and the body leaves them out. -/
namespace FerroIo

open ModuleBody (Names Stmt Item Missing ownNames)

variable {Obj : Type*}

/-- The annotation of `_rt` makes the body begin with `__annotations__`. -/
def moduleBody : List (Item String) := [
  .always (.define "__annotations__"),
  .always (.define "annotations"),
  .always (.define "_asyncio"),
  .always (.define "_signal"),
  .always (.define "_threading"),
  .always (.define "Any"),
  .always (.define "_ferro_io"),
  .always (.define "AsyncRuntime"),
  .always (.define "async_sleep"),
  .always (.define "__version__"),
  .always (.rename "_async_sleep" "async_sleep"),
  .always (.define "__all__"),
  .always (.define "_asyncio_futures"),
  .always (.define "_future_add_to_awaited_by"),
  .ifHasattr "TaskGroup" [.define "_FastTaskGroup", .rename "TaskGroup" "_FastTaskGroup"],
  .always (.define "_rt"),
  .always (.define "_rt_lock"),
  .always (.define "_runtime"),
  .always (.define "_SigintGuard"),
  .always (.define "_with_eager_factory"),
  .always (.define "run"),
  .always (.define "Runner"),
  .always (.define "sleep"),
  .always (.aliasOf "gather"),
  .always (.aliasOf "wait_for"),
  .ifHasattr "timeout" [.aliasOf "timeout"],
  .always (.aliasOf "create_task"),
  .always (.aliasOf "ensure_future"),
  .always (.aliasOf "shield"),
  .always (.aliasOf "iscoroutine"),
  .always (.aliasOf "iscoroutinefunction"),
  .always (.aliasOf "Queue"),
  .always (.aliasOf "Event"),
  .always (.aliasOf "Lock"),
  .always (.aliasOf "Semaphore"),
  .always (.aliasOf "BoundedSemaphore"),
  .always (.aliasOf "Condition"),
  .always (.aliasOf "TimeoutError"),
  .always (.aliasOf "CancelledError"),
  .always (.define "get_event_loop"),
  .always (.define "new_event_loop"),
  .always (.define "run_in_executor"),
  .always (.define "install"),
  .always (.define "uninstall"),
  .always (.define "__getattr__")]

def exported : List String := [
  "AsyncRuntime", "async_sleep", "__version__", "Runner", "install", "uninstall",
  "run", "sleep", "gather", "wait_for", "timeout", "create_task", "ensure_future", "shield",
  "iscoroutine", "iscoroutinefunction", "get_event_loop", "new_event_loop", "run_in_executor",
  "Queue", "Event", "Lock", "Semaphore", "BoundedSemaphore", "Condition", "TaskGroup",
  "TimeoutError", "CancelledError"]

/-- What `install` and `uninstall` calls bind: `asyncio` on modules, and on `ferro_io` the
    submodule that they import. -/
def boundByCalls : List String := ["asyncio", "_install"]

def importFerroIo (std : Names String (Value Obj)) (own : String → Value Obj)
    (given : Names String (Value Obj)) :
    Except (Missing String) (Names String (Value Obj)) :=
  ModuleBody.exec std own moduleBody given

/-- The names of `__all__` are read from the module in order; the first that is not found
    ends the import. -/
def starImport [DecidableEq Obj] (ferroIo : Obj) (w : World Obj) (fuel : Nat) :
    List String → Except String (List (String × Value Obj))
  | [] => .ok []
  | name :: rest =>
    match lookup ferroIo w fuel ferroIo name with
    | some (.ok v) => (starImport ferroIo w fuel rest).map ((name, v) :: ·)
    | _ => .error name

/-! ## The body -/

section
variable {std : Names String (Value Obj)} {own : String → Value Obj}
  {given ns : Names String (Value Obj)}

/-- The body by the two attributes it asks for. -/
def bodyStmts (hasTaskGroup hasTimeout : Bool) : List (Stmt String) :=
  ModuleBody.stmts (fun n => if n = "TaskGroup" then hasTaskGroup else hasTimeout) moduleBody

theorem stmts_eq (has : String → Bool) :
    ModuleBody.stmts has moduleBody = bodyStmts (has "TaskGroup") (has "timeout") := by
  simp [bodyStmts, moduleBody, ModuleBody.stmts, Item.stmts]

theorem renamesBound_body (hasTaskGroup hasTimeout : Bool) :
    ModuleBody.RenamesBound [] (bodyStmts hasTaskGroup hasTimeout) := by
  cases hasTaskGroup <;> cases hasTimeout <;>
    simp [bodyStmts, moduleBody, ModuleBody.stmts, Item.stmts, ModuleBody.RenamesBound, Stmt.name]

/-- The names that the body takes from stdlib asyncio whatever its version. -/
def taken : List String := (bodyStmts false false).filterMap Stmt.attribute

theorem taken_subset (hasTaskGroup hasTimeout : Bool) :
    ∀ name ∈ taken, name ∈ (bodyStmts hasTaskGroup hasTimeout).filterMap Stmt.attribute := by
  cases hasTaskGroup <;> cases hasTimeout <;> decide

theorem attribute_body (hasTaskGroup hasTimeout : Bool) :
    ∀ name ∈ (bodyStmts hasTaskGroup hasTimeout).filterMap Stmt.attribute,
      name ∈ taken ∨ hasTimeout = true ∧ name = "timeout" := by
  cases hasTaskGroup <;> cases hasTimeout <;> decide

/-- The first import of `ferro_io` succeeds where stdlib asyncio has these names. -/
theorem importFerroIo_ok_iff :
    (∃ ns, importFerroIo std own given = .ok ns) ↔ ∀ name ∈ taken, (std name).isSome := by
  have hren : ModuleBody.RenamesBound []
      (ModuleBody.stmts (fun n => (std n).isSome) moduleBody) := by
    rw [stmts_eq]
    exact renamesBound_body _ _
  unfold importFerroIo
  rw [ModuleBody.exec_ok_iff hren, stmts_eq]
  constructor
  · intro h name hname
    exact h name (taken_subset _ _ name hname)
  · intro h name hname
    rcases attribute_body _ _ name hname with htaken | ⟨htimeout, rfl⟩
    · exact h name htaken
    · exact htimeout

theorem ne_asyncio {name : String} (h : name ∉ boundByCalls) : name ≠ "asyncio" := by
  rintro rfl
  exact h (by decide)

theorem imported_asyncio (h : importFerroIo std own given = .ok ns) :
    ns "_asyncio" = some (own "_asyncio") := by
  refine ModuleBody.exec_defined h ?_ (by decide)
  rw [stmts_eq]
  decide

theorem imported_newEventLoop (h : importFerroIo std own given = .ok ns) :
    ns "new_event_loop" = some (own "new_event_loop") := by
  refine ModuleBody.exec_defined h ?_ (by decide)
  rw [stmts_eq]
  decide

/-- A name that the body does not define resolves as on stdlib asyncio. -/
theorem imported_or (h : importFerroIo std own given = .ok ns) {name : String}
    (hname : name ∉ ownNames moduleBody) (hgiven : given name = none) :
    (ns name).or (std name) = std name := by
  rcases ModuleBody.exec_foreign h hname with hkept | hsame
  · rw [hkept, hgiven]
    rfl
  · rw [hsame, Option.or_self]

/-- Every exported name but two is bound by the body in every version. -/
theorem exported_bound (hasTaskGroup hasTimeout : Bool) :
    ∀ name ∈ exported, name = "timeout" ∨ name = "TaskGroup" ∨
      name ∈ (bodyStmts hasTaskGroup hasTimeout).map Stmt.name := by
  cases hasTaskGroup <;> cases hasTimeout <;> decide

theorem timeout_mem_body (hasTaskGroup hasTimeout : Bool) :
    "timeout" ∈ (bodyStmts hasTaskGroup hasTimeout).map Stmt.name ↔ hasTimeout = true := by
  cases hasTaskGroup <;> cases hasTimeout <;> decide

theorem taskGroup_mem_body (hasTaskGroup hasTimeout : Bool) :
    "TaskGroup" ∈ (bodyStmts hasTaskGroup hasTimeout).map Stmt.name ↔ hasTaskGroup = true := by
  cases hasTaskGroup <;> cases hasTimeout <;> decide

end

/-- `ferro_io` has been imported, and nothing has been installed. -/
structure Imported (env : Env Obj) (std : Obj) (own : String → Value Obj)
    (given : Names String (Value Obj)) (start : World Obj) : Prop where
  ne : std ≠ env.ferroIo
  entry : start.modules.get "asyncio" = some (some std)
  installed : start.installed = false
  asyncio : own "_asyncio" = some std
  body : importFerroIo (start.attr std) own given = .ok (start.attr env.ferroIo)

/-- The modules, and what stdlib asyncio and `ferro_io` bind to their names. -/
inductive Thing where
  | std
  | ferroIo
  | late
  | ofStd (name : String)
  | ofFerroIo (name : String)
  deriving DecidableEq, Repr

def thingEnv : Env Thing where
  ferroIo := .ferroIo
  readFault _ := none
  writeFault _ := none

/-- A stdlib asyncio that has every name but the missing ones. -/
def stdThings (missing : List String) : Names String (Value Thing) := fun name =>
  if name ∈ missing then none else some (some (.ofStd name))

def ownThings : String → Value Thing := fun name =>
  if name = "_asyncio" then some .std else some (.ofFerroIo name)

def importedThings (missing : List String) : World Thing where
  modules := ⟨[("asyncio", some .std), ("ferro_io", some .ferroIo)], by decide⟩
  attr
    | .std, name => stdThings missing name
    | .ferroIo, name =>
      match importFerroIo (stdThings missing) ownThings fun _ => none with
      | .ok ns => ns name
      | .error _ => none
    | _, _ => none
  original := none
  installed := false

theorem importedThings_imported {missing : List String} (h : ∀ name ∈ taken, name ∉ missing) :
    Imported thingEnv .std ownThings (fun _ => none) (importedThings missing) where
  ne := by decide
  entry := rfl
  installed := rfl
  asyncio := rfl
  body := by
    have hsome : ∀ name ∈ taken, (stdThings missing name).isSome := by
      intro name hname
      simp [stdThings, h name hname]
    obtain ⟨ns, hns⟩ : ∃ ns, importFerroIo (stdThings missing) ownThings (fun _ => none) = .ok ns :=
      importFerroIo_ok_iff.mpr hsome
    have hattr : (importedThings missing).attr thingEnv.ferroIo = ns := by
      funext name
      simp only [importedThings, thingEnv, hns]
    rw [hattr]
    exact hns

/-! ## Every state after the import -/

section
variable [DecidableEq Obj] {env : Env Obj} {std : Obj} {own : String → Value Obj}
  {given : Names String (Value Obj)} {start w : World Obj}

/-- No step changes an attribute other than `asyncio`. -/
theorem names_step (w : World Obj) (e : InstallEvent Obj) (m : Obj) {n : String}
    (hn : n ≠ "asyncio") : (w.step env e).attr m n = w.attr m n := by
  cases e with
  | install rebindExisting =>
    simp only [World.step]
    cases hinst : w.installed with
    | true => rw [install_of_installed env rebindExisting hinst]
    | false =>
      obtain ⟨flag, heq⟩ := install_leaves env rebindExisting hinst
      rw [heq]
      exact (rebindEntered_frame env rebindExisting w).attr m n hn
  | uninstall =>
    simp only [World.step]
    cases hinst : w.installed with
    | false => rw [uninstall_of_not_installed env hinst]
    | true =>
      obtain ⟨flag, heq⟩ := uninstall_leaves env hinst
      rw [heq]
      exact (rebindTo_frame env w.original w.restored).attr m n hn
  | load name mod =>
    simp only [World.step, load]
    split
    · simp [World.setattr, hn]
    · rfl
  | unload name => rfl

/-- What holds of the modules in every state of a run. -/
structure NamesKept (env : Env Obj) (std : Obj) (start w : World Obj) : Prop where
  linked : Linked env std start w
  names : ∀ m n, n ≠ "asyncio" → w.attr m n = start.attr m n

omit [DecidableEq Obj] in
theorem Imported.namesKept (h : Imported env std own given start) :
    NamesKept env std start start := by
  refine ⟨⟨rfl, ⟨some std, h.entry, .inl rfl⟩, ?_⟩, fun _ _ _ => rfl⟩
  intro hinst
  exact absurd (h.installed.symm.trans hinst) (by decide)

theorem namesKept_step (h : NamesKept env std start w) (e : InstallEvent Obj)
    (he : Imports env w e) : NamesKept env std start (w.step env e) := by
  refine ⟨linked_step h.linked e he, ?_⟩
  intro m n hn
  rw [names_step w e m hn]
  exact h.names m n hn

theorem namesKept_run (h : NamesKept env std start w) {es : List (InstallEvent Obj)}
    (hes : EventRun.Meets (World.step env) (Imports env) w es) :
    NamesKept env std start (EventRun.run (World.step env) w es) :=
  EventRun.run_inv_of_meets (I := NamesKept env std start)
    (fun _ e h he => namesKept_step h e he) h hes

omit [DecidableEq Obj] in
theorem Linked.module (h : Linked env std start w) :
    ∃ held, w.module "asyncio" = some held ∧ OneOfTwo env std (some held) := by
  obtain ⟨v, hv, rfl | rfl⟩ := h.entry
  · exact ⟨std, by simp [World.module, hv], .inl rfl⟩
  · exact ⟨env.ferroIo, by simp [World.module, hv], .inr rfl⟩

omit [DecidableEq Obj] in
theorem Imported.intact (h : Imported env std own given start) (hw : NamesKept env std start w) :
    w.attr env.ferroIo "_asyncio" = some (some std) := by
  rw [hw.names _ _ (by decide), imported_asyncio h.body, h.asyncio]

theorem Imported.lookup_eq (h : Imported env std own given start)
    (hw : NamesKept env std start w) {name : String} (hname : name ≠ "asyncio") {fuel : Nat}
    (hfuel : 2 ≤ fuel) : lookup env.ferroIo w fuel env.ferroIo name =
      some (answer std ((start.attr env.ferroIo name).or (start.attr std name))) := by
  rw [← hw.names _ _ hname, ← hw.names _ _ hname]
  exact Delegation.resolve_mono (lookup_ferroIo h.ne (h.intact hw) name 0) hfuel

/-- What a program finds by a name that is `ferro_io`'s neither by its body nor otherwise,
    in every state of every run. -/
theorem symbols_match (env : Env Obj) (std : Obj) (own : String → Value Obj)
    (given : Names String (Value Obj)) (start : World Obj) (h : Imported env std own given start)
    (es : List (InstallEvent Obj)) (hes : EventRun.Meets (World.step env) (Imports env) start es)
    (name : String) (hcalls : name ∉ boundByCalls) (hdefined : name ∉ ownNames moduleBody)
    (hgiven : given name = none) (fuel : Nat) (hfuel : 2 ≤ fuel) :
    let w := EventRun.run (World.step env) start es
    lookup env.ferroIo w fuel env.ferroIo name = some (answer std (start.attr std name)) ∧
      importLookup env.ferroIo w fuel name = some (answer std (start.attr std name)) := by
  intro w
  have hname : name ≠ "asyncio" := ne_asyncio hcalls
  have hw : NamesKept env std start w := namesKept_run h.namesKept hes
  have hferro : lookup env.ferroIo w fuel env.ferroIo name =
      some (answer std (start.attr std name)) := by
    rw [h.lookup_eq hw hname hfuel, imported_or h.body hdefined hgiven]
  refine ⟨hferro, ?_⟩
  obtain ⟨held, hheld, hstd | hferroIo⟩ := hw.linked.module
  · obtain rfl := Option.some.inj hstd
    simp only [importLookup, hheld]
    rw [← hw.names _ _ hname]
    exact Delegation.resolve_mono (lookup_std h.ne name 1) hfuel
  · obtain rfl := Option.some.inj hferroIo
    simp only [importLookup, hheld]
    exact hferro

/-- `asyncio.Future` while installed. -/
theorem symbols_match_future :
    importLookup .ferroIo (EventRun.run (World.step thingEnv) (importedThings []) [.install true])
      2 "Future" = some (.ok (some (.ofStd "Future"))) :=
  (symbols_match thingEnv .std ownThings (fun _ => none) (importedThings [])
    (importedThings_imported (by decide)) [.install true] ⟨trivial, trivial⟩ "Future" (by decide)
    (by decide) rfl 2 (by decide)).2

/-! ## `from ferro_io import *` -/

/-- The value of a name of `ferro_io`, if it is found. -/
def found (env : Env Obj) (std : Obj) (start : World Obj) (name : String) : Option (Value Obj) :=
  (start.attr env.ferroIo name).or (start.attr std name)

theorem starImport_eq (h : Imported env std own given start) (hw : NamesKept env std start w)
    {fuel : Nat} (hfuel : 2 ≤ fuel) {names : List String} (hnames : "asyncio" ∉ names) :
    starImport env.ferroIo w fuel names =
      match names.find? fun name => (found env std start name).isNone with
      | some name => .error name
      | none => .ok (names.map fun name => (name, (found env std start name).getD none)) := by
  induction names with
  | nil => rfl
  | cons name rest ih =>
    simp only [List.mem_cons, not_or] at hnames
    obtain ⟨hname, hrest⟩ := hnames
    have hlookup : lookup env.ferroIo w fuel env.ferroIo name =
        some (answer std (found env std start name)) := h.lookup_eq hw (Ne.symm hname) hfuel
    simp only [starImport, hlookup, ih hrest]
    cases hv : found env std start name with
    | none => simp [answer, hv]
    | some v =>
      simp only [answer, List.find?_cons, List.map_cons, hv, Option.isNone_some, Option.getD_some]
      cases rest.find? fun name => (found env std start name).isNone with
      | none => rfl
      | some missing => rfl

omit [DecidableEq Obj] in
theorem exported_found (h : Imported env std own given start) {name : String}
    (hmem : name ∈ exported) (htimeout : name ≠ "timeout") (htaskGroup : name ≠ "TaskGroup") :
    (found env std start name).isNone = false := by
  have hbound := ModuleBody.exec_bound (n := name) h.body
  rw [stmts_eq] at hbound
  have hsome : (start.attr env.ferroIo name).isSome :=
    hbound.mpr (.inr (((exported_bound _ _ name hmem).resolve_left htimeout).resolve_left
      htaskGroup))
  obtain ⟨v, hv⟩ := Option.isSome_iff_exists.mp hsome
  simp [found, hv]

omit [DecidableEq Obj] in
/-- A name that the body binds only where stdlib asyncio has it. -/
theorem found_isNone (h : Imported env std own given start) {name : String}
    (hgiven : given name = none)
    (hbody : name ∈ (bodyStmts (start.attr std "TaskGroup").isSome
      (start.attr std "timeout").isSome).map Stmt.name ↔ (start.attr std name).isSome) :
    (found env std start name).isNone ↔ start.attr std name = none := by
  have hbound := ModuleBody.exec_bound (n := name) h.body
  rw [stmts_eq, hbody, hgiven] at hbound
  cases hs : start.attr std name with
  | none =>
    have hnone : start.attr env.ferroIo name = none := by
      simpa [hs] using hbound
    simp [found, hs, hnone]
  | some v =>
    obtain ⟨v', hv'⟩ := Option.isSome_iff_exists.mp (hbound.mpr (.inr (by simp [hs])))
    simp [found, hv']

/-- What `from ferro_io import *` gives in every state of every run. -/
theorem star_import (env : Env Obj) (std : Obj) (own : String → Value Obj)
    (given : Names String (Value Obj)) (start : World Obj) (h : Imported env std own given start)
    (hgiven : given "timeout" = none ∧ given "TaskGroup" = none)
    (es : List (InstallEvent Obj)) (hes : EventRun.Meets (World.step env) (Imports env) start es)
    (fuel : Nat) (hfuel : 2 ≤ fuel) :
    starImport env.ferroIo (EventRun.run (World.step env) start es) fuel exported =
      if start.attr std "timeout" = none then .error "timeout"
      else if start.attr std "TaskGroup" = none then .error "TaskGroup"
      else .ok (exported.map fun name => (name, (found env std start name).getD none)) := by
  have htimeout := found_isNone h hgiven.1 (timeout_mem_body _ _)
  have htaskGroup := found_isNone h hgiven.2 (taskGroup_mem_body _ _)
  rw [starImport_eq h (namesKept_run h.namesKept hes) hfuel (by decide)]
  by_cases hno : start.attr std "timeout" = none
  · have hfind : exported.find? (fun name => (found env std start name).isNone) =
        some "timeout" := by
      refine List.find?_eq_some_iff_append.mpr
        ⟨htimeout.mpr hno, exported.take 10, exported.drop 11, rfl, ?_⟩
      intro name hmem
      have hother : ∀ name ∈ exported.take 10, name ≠ "timeout" ∧ name ≠ "TaskGroup" := by decide
      rw [exported_found h (List.mem_of_mem_take hmem) (hother name hmem).1 (hother name hmem).2]
      rfl
    rw [hfind, if_pos hno]
  · rw [if_neg hno]
    have hyes : ¬ (found env std start "timeout").isNone = true := fun hnone =>
      hno (htimeout.mp hnone)
    by_cases hno' : start.attr std "TaskGroup" = none
    · have hfind : exported.find? (fun name => (found env std start name).isNone) =
          some "TaskGroup" := by
        refine List.find?_eq_some_iff_append.mpr
          ⟨htaskGroup.mpr hno', exported.take 25, exported.drop 26, rfl, ?_⟩
        intro name hmem
        have hother : ∀ name ∈ exported.take 25, name ≠ "TaskGroup" := by decide
        by_cases hname : name = "timeout"
        · simpa [hname, Option.isSome_iff_ne_none] using hyes
        · rw [exported_found h (List.mem_of_mem_take hmem) hname (hother name hmem)]
          rfl
      rw [hfind, if_pos hno']
    · have hfind : exported.find? (fun name => (found env std start name).isNone) = none := by
        refine List.find?_eq_none.mpr ?_
        intro name hmem
        by_cases hname : name = "timeout"
        · rw [hname]
          exact hyes
        · by_cases hname' : name = "TaskGroup"
          · rw [hname']
            exact fun hnone => hno' (htaskGroup.mp hnone)
          · simp [exported_found h hmem hname hname']
      rw [hfind, if_neg hno']

/-- Python 3.10. -/
theorem star_import_before_timeout :
    starImport .ferroIo (importedThings ["timeout", "TaskGroup"]) 2 exported = .error "timeout" :=
  star_import thingEnv .std ownThings (fun _ => none) (importedThings ["timeout", "TaskGroup"])
    (importedThings_imported (by decide)) ⟨rfl, rfl⟩ [] trivial 2 (by decide)

end

end FerroIo
