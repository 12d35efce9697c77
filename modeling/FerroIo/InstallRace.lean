import FerroIo.EventRun
import FerroIo.InstallSteps

/- Threads that each call `install`, in any interleaving of their steps, with no lock
   between them.

   Main result: `race_undone_iff`. When all calls have returned, one `uninstall` does what
   it does after a single `install` if and only if the thread whose write of
   `_original_asyncio` came last had read the `asyncio` entry before any thread replaced
   it. Otherwise that thread read `ferro_io` there, and stdlib asyncio is forgotten.

   The invariant is `RaceInv`: what a thread's position says of the shared state
   (`Reached`), and what the loop of the last saver still has to bind (`Covers`). -/
namespace FerroIo

variable {K Obj : Type*}

/-- The threads' calls. The last three fields record the order of the steps, and no step
    reads them. -/
structure Race (K Obj : Type*) where
  world : World Obj
  pc : K → InstallPc Obj
  patched : Bool -- the entry has been replaced
  early : K → Bool -- the thread read the entry before that
  saver : Option K -- the thread that wrote `_original_asyncio` last

def Race.start (w : World Obj) : Race K Obj where
  world := w
  pc _ := .readFlag
  patched := false
  early _ := false
  saver := none

/-- Some thread has saved an original, and the entry is replaced. -/
def Race.Entered (s : Race K Obj) : Prop := s.patched = true ∧ s.saver ≠ none

section
variable [DecidableEq K] [DecidableEq Obj]

/-- The next step of thread `k`. -/
def Race.step (env : Env Obj) (rebindExisting : Bool) (s : Race K Obj) (k : K) : Race K Obj where
  world := (callStep env rebindExisting (s.world, s.pc k)).1
  pc := Function.update s.pc k (callStep env rebindExisting (s.world, s.pc k)).2
  patched := s.patched || s.pc k = .writeEntry
  early := if s.pc k = .readEntry then Function.update s.early k (!s.patched) else s.early
  saver := match s.pc k with
    | .writeOriginal _ => some k
    | _ => s.saver

end

section
variable (env : Env Obj) (rebindExisting : Bool) (std : Obj) (w₀ : World Obj)

/-- What the thread read in the entry. -/
def Race.saw (s : Race K Obj) (k : K) : Obj := if s.early k then std else env.ferroIo

/-- The modules that a single `install` binds to `ferro_io`. -/
def ToRebind [DecidableEq Obj] (m : Obj) : Prop :=
  Rebinds env std env.ferroIo (w₀.modules.set "asyncio" (some env.ferroIo)).values w₀ m

def Race.Bound (s : Race K Obj) (m : Obj) : Prop :=
  s.world.attr m "asyncio" = some (some env.ferroIo)

variable [DecidableEq Obj]

/-- The loop is at a listed module, and all the rest are listed. -/
def InLoop (s : Race K Obj) (other m : Obj) (mods : List (Value Obj)) : Prop :=
  s.Entered ∧ rebindExisting = true ∧ (other = std ∨ other = env.ferroIo) ∧ m ≠ env.ferroIo ∧
    ∀ v ∈ some m :: mods, v ∈ (w₀.modules.set "asyncio" (some env.ferroIo)).values

/-- What holds of the shared state when thread `k` is at a step. -/
def Reached (s : Race K Obj) (k : K) : InstallPc Obj → Prop
  | .readFlag | .readEntry | .raised _ => True
  | .writeOriginal v => v = some (s.saw env std k)
  | .writeEntry => s.saver ≠ none
  | .readOriginal => s.Entered ∧ rebindExisting = true
  | .listModules other => s.Entered ∧ rebindExisting = true ∧ (other = std ∨ other = env.ferroIo)
  | .readAttr other m mods => InLoop env rebindExisting std w₀ s other m mods
  | .writeAttr other m mods => InLoop env rebindExisting std w₀ s other m mods ∧
      env.readFault m = none ∧
      (s.Bound env m ∨ other = std ∧ w₀.attr m "asyncio" = some (some std))
  | .writeFlag => s.Entered
  | .returned => s.world.installed = true

/-- What the last saver `k` has bound by the time it is at a step, if the original that it
    saved is stdlib asyncio. -/
def Covers (s : Race K Obj) (k : K) : InstallPc Obj → Prop
  | .readFlag | .readEntry | .writeOriginal _ => False
  | .writeEntry | .readOriginal | .raised _ => True
  | .listModules other => s.early k = true → other = std
  | .readAttr other m mods | .writeAttr other m mods => s.early k = true → other = std ∧
      ∀ m', ToRebind env std w₀ m' → some m' ∈ some m :: mods ∨ s.Bound env m'
  | .writeFlag | .returned => s.early k = true → rebindExisting = true →
      ∀ m, ToRebind env std w₀ m → s.Bound env m

structure RaceInv (s : Race K Obj) : Prop where
  modules : s.world.modules =
    if s.patched then w₀.modules.set "asyncio" (some env.ferroIo) else w₀.modules
  attr : ∀ m n, s.world.attr m n = w₀.attr m n ∨
    rebindExisting = true ∧ n = "asyncio" ∧ ToRebind env std w₀ m ∧ s.Bound env m
  original : ∀ k, s.saver = some k → s.world.original = some (s.saw env std k)
  installed : s.world.installed = true → s.Entered
  reached : ∀ k, Reached env rebindExisting std w₀ s k (s.pc k)
  covers : ∀ k, s.saver = some k → Covers env rebindExisting std w₀ s k (s.pc k)

/-- Nothing that a thread `j` relies on is lost from `s` to `s'`. -/
structure Race.Keeps (s s' : Race K Obj) (j : K) : Prop where
  early : s'.early j = s.early j
  patched : s.patched = true → s'.patched = true
  saver : s.saver ≠ none → s'.saver ≠ none
  installed : s.world.installed = true → s'.world.installed = true
  bound : ∀ m, s.Bound env m → s'.Bound env m


end

section
variable {env : Env Obj} {rebindExisting : Bool} {std : Obj} {w₀ : World Obj}
  {s s' : Race K Obj}

theorem Race.Keeps.entered {j : K} (h : s.Keeps env s' j) (hs : s.Entered) : s'.Entered :=
  ⟨h.patched hs.1, h.saver hs.2⟩

theorem reached_keeps {j : K} (h : s.Keeps env s' j) {pc : InstallPc Obj}
    (hpc : Reached env rebindExisting std w₀ s j pc) :
    Reached env rebindExisting std w₀ s' j pc := by
  cases pc with
  | readFlag => trivial
  | readEntry => trivial
  | writeOriginal v => simpa only [Reached, Race.saw, h.early] using hpc
  | writeEntry => exact h.saver hpc
  | readOriginal => exact ⟨h.entered hpc.1, hpc.2⟩
  | listModules other => exact ⟨h.entered hpc.1, hpc.2⟩
  | readAttr other m mods => exact ⟨h.entered hpc.1, hpc.2⟩
  | writeAttr other m mods =>
    exact ⟨⟨h.entered hpc.1.1, hpc.1.2⟩, hpc.2.1, hpc.2.2.imp_left (h.bound m)⟩
  | writeFlag => exact h.entered hpc
  | returned => exact h.installed hpc
  | raised e => trivial

variable [DecidableEq Obj]

theorem covers_keeps {j : K} (h : s.Keeps env s' j) {pc : InstallPc Obj}
    (hpc : Covers env rebindExisting std w₀ s j pc) :
    Covers env rebindExisting std w₀ s' j pc := by
  cases pc with
  | readFlag => exact hpc
  | readEntry => exact hpc
  | writeOriginal v => exact hpc
  | writeEntry => trivial
  | readOriginal => trivial
  | listModules other => exact fun he => hpc (h.early ▸ he)
  | readAttr other m mods =>
    intro he
    obtain ⟨ho, hmods⟩ := hpc (h.early ▸ he)
    exact ⟨ho, fun m' hm' => (hmods m' hm').imp_right (h.bound m')⟩
  | writeAttr other m mods =>
    intro he
    obtain ⟨ho, hmods⟩ := hpc (h.early ▸ he)
    exact ⟨ho, fun m' hm' => (hmods m' hm').imp_right (h.bound m')⟩
  | writeFlag => exact fun he hb m hm => h.bound m (hpc (h.early ▸ he) hb m hm)
  | returned => exact fun he hb m hm => h.bound m (hpc (h.early ▸ he) hb m hm)
  | raised e => trivial

/-- The next module of the loop, or its end: every module that the loop does not skip is
    still to come. -/
theorem nextModule_cases (ferroIo other : Obj) (mods : List (Value Obj)) :
    (nextModule ferroIo other mods = .writeFlag ∧ ∀ m, some m ∈ mods → m = ferroIo) ∨
    ∃ m rest, nextModule ferroIo other mods = .readAttr other m rest ∧ m ≠ ferroIo ∧
      (∀ v ∈ some m :: rest, v ∈ mods) ∧
      ∀ m', some m' ∈ mods → m' ≠ ferroIo → some m' ∈ some m :: rest := by
  induction mods with
  | nil => exact .inl ⟨rfl, by simp⟩
  | cons v mods ih =>
    have hskip : (∀ m, v = some m → m = ferroIo) →
        nextModule ferroIo other (v :: mods) = nextModule ferroIo other mods →
        (nextModule ferroIo other (v :: mods) = .writeFlag ∧
          ∀ m, some m ∈ v :: mods → m = ferroIo) ∨
        ∃ m rest, nextModule ferroIo other (v :: mods) = .readAttr other m rest ∧ m ≠ ferroIo ∧
          (∀ v' ∈ some m :: rest, v' ∈ v :: mods) ∧
          ∀ m', some m' ∈ v :: mods → m' ≠ ferroIo → some m' ∈ some m :: rest := by
      intro hv heq
      rw [heq]
      rcases ih with ⟨hnext, hall⟩ | ⟨m, rest, hnext, hm, hsub, hall⟩
      · refine .inl ⟨hnext, fun m hm => ?_⟩
        rcases List.mem_cons.mp hm with h | h
        · exact hv m h.symm
        · exact hall m h
      · refine .inr ⟨m, rest, hnext, hm, fun v' h => List.mem_cons_of_mem v (hsub v' h), ?_⟩
        intro m' hm' hne
        rcases List.mem_cons.mp hm' with h | h
        · exact absurd (hv m' h.symm) hne
        · exact hall m' h hne
    cases v with
    | none => exact hskip (fun m h => nomatch h) rfl
    | some m =>
      by_cases hm : m = ferroIo
      · exact hskip (fun m' h => Option.some.inj h ▸ hm) (by simp [nextModule, hm])
      · refine .inr ⟨m, mods, by simp [nextModule, hm], hm, fun v h => h, fun m' h _ => h⟩

theorem reached_next {k : K} {other : Obj} {mods : List (Value Obj)} (hs : s.Entered)
    (hb : rebindExisting = true) (ho : other = std ∨ other = env.ferroIo)
    (hmods : ∀ v ∈ mods, v ∈ (w₀.modules.set "asyncio" (some env.ferroIo)).values) :
    Reached env rebindExisting std w₀ s k (nextModule env.ferroIo other mods) := by
  rcases nextModule_cases env.ferroIo other mods with ⟨heq, -⟩ | ⟨m, rest, heq, hm, hsub, -⟩
  · rw [heq]
    exact hs
  · rw [heq]
    exact ⟨hs, hb, ho, hm, fun v hv => hmods v (hsub v hv)⟩

theorem covers_next {k : K} {other : Obj} {mods : List (Value Obj)}
    (h : s.early k = true → other = std ∧
      ∀ m, ToRebind env std w₀ m → some m ∈ mods ∨ s.Bound env m) :
    Covers env rebindExisting std w₀ s k (nextModule env.ferroIo other mods) := by
  rcases nextModule_cases env.ferroIo other mods with ⟨heq, hall⟩ | ⟨m, rest, heq, -, -, hall⟩
  · rw [heq]
    intro he _ m hm
    rcases (h he).2 m hm with hmem | hbound
    · exact absurd (hall m hmem) hm.2.1
    · exact hbound
  · rw [heq]
    intro he
    refine ⟨(h he).1, fun m' hm' => ((h he).2 m' hm').imp_left fun hmem => ?_⟩
    exact hall m' hmem hm'.2.1

/-- What thread `k`'s step to `pc` has to keep for the invariant to hold after it. -/
theorem RaceInv.next [DecidableEq K] (h : RaceInv env rebindExisting std w₀ s) {k : K}
    {pc : InstallPc Obj} (hpcs : s'.pc = Function.update s.pc k pc)
    (hkeeps : ∀ j, j ≠ k → s.Keeps env s' j)
    (hsaver : ∀ j, j ≠ k → s'.saver = some j → s.saver = some j)
    (hmodules : s'.world.modules =
      if s'.patched then w₀.modules.set "asyncio" (some env.ferroIo) else w₀.modules)
    (hattr : ∀ m n, s'.world.attr m n = w₀.attr m n ∨
      rebindExisting = true ∧ n = "asyncio" ∧ ToRebind env std w₀ m ∧ s'.Bound env m)
    (horig : ∀ j, s'.saver = some j → s'.world.original = some (s'.saw env std j))
    (hinst : s'.world.installed = true → s'.Entered)
    (hreached : Reached env rebindExisting std w₀ s' k pc)
    (hcovers : s'.saver = some k → Covers env rebindExisting std w₀ s' k pc) :
    RaceInv env rebindExisting std w₀ s' where
  modules := hmodules
  attr := hattr
  original := horig
  installed := hinst
  reached := by
    -- another thread's position says no less than before
    have hothers : ∀ j, j ≠ k → Reached env rebindExisting std w₀ s' j (s.pc j) :=
      fun j hj => reached_keeps (hkeeps j hj) (h.reached j)
    rw [hpcs]
    exact (Function.forall_update_iff s.pc _).mpr ⟨hreached, hothers⟩
  covers := by
    have hothers : ∀ j, j ≠ k → s'.saver = some j →
        Covers env rebindExisting std w₀ s' j (s.pc j) :=
      fun j hj hjs => covers_keeps (hkeeps j hj) (h.covers j (hsaver j hj hjs))
    rw [hpcs]
    exact (Function.forall_update_iff s.pc fun j p => s'.saver = some j →
      Covers env rebindExisting std w₀ s' j p).mpr ⟨hcovers, hothers⟩

/-- A step that changes nothing but where the thread is. -/
theorem RaceInv.move [DecidableEq K] (h : RaceInv env rebindExisting std w₀ s) (k : K)
    {pc : InstallPc Obj} (hreached : Reached env rebindExisting std w₀ s k pc)
    (hcovers : s.saver = some k → Covers env rebindExisting std w₀ s k pc) :
    RaceInv env rebindExisting std w₀ { s with pc := Function.update s.pc k pc } := by
  have hkeeps : ∀ j, s.Keeps env { s with pc := Function.update s.pc k pc } j := by
    intro j
    exact ⟨rfl, id, id, id, fun _ hm => hm⟩
  refine h.next rfl (fun j _ => hkeeps j) (fun _ _ hj => hj) h.modules h.attr h.original
    h.installed ?_ ?_
  · exact reached_keeps (hkeeps k) hreached
  · exact fun hk => covers_keeps (hkeeps k) (hcovers hk)

section
variable [DecidableEq K]

theorem raceInv_readEntry (h : RaceInv env rebindExisting std w₀ s) {k : K}
    (hstd : w₀.module "asyncio" = some std) (hpc : s.pc k = .readEntry) :
    RaceInv env rebindExisting std w₀ (s.step env rebindExisting k) := by
  have hs' : s.step env rebindExisting k = { s with
      pc := Function.update s.pc k (.writeOriginal (s.world.module "asyncio"))
      early := Function.update s.early k (!s.patched) } := by
    simp [Race.step, callStep, installStep, hpc]
  -- a thread saves once, so the last saver does not come to read the entry
  have hsaver : s.saver ≠ some k := by
    intro hk
    have hcov := h.covers k hk
    rw [hpc] at hcov
    exact hcov
  have hne : ∀ j, s.saver = some j → j ≠ k := fun j hj hjk => hsaver (hjk ▸ hj)
  rw [hs']
  refine h.next rfl ?_ (fun _ _ hj => hj) h.modules h.attr ?_ h.installed ?_ ?_
  · intro j hj
    exact ⟨Function.update_of_ne hj _ _, id, id, id, fun _ hm => hm⟩
  · intro j hj
    simp only [Race.saw, Function.update_of_ne (hne j hj)]
    exact h.original j hj
  · -- the entry holds `ferro_io` once it is replaced
    simp only [Reached, Race.saw, Function.update_self, World.module, h.modules]
    cases hp : s.patched with
    | true => simp
    | false => simpa [World.module] using hstd
  · exact fun hk => absurd hk hsaver

theorem raceInv_writeOriginal (h : RaceInv env rebindExisting std w₀ s) {k : K}
    {v : Value Obj} (hpc : s.pc k = .writeOriginal v) :
    RaceInv env rebindExisting std w₀ (s.step env rebindExisting k) := by
  have hs' : s.step env rebindExisting k = { s with
      world := { s.world with original := v }
      pc := Function.update s.pc k .writeEntry
      saver := some k } := by
    simp [Race.step, callStep, installStep, hpc]
  have hv := h.reached k
  rw [hpc] at hv
  rw [hs']
  refine h.next rfl ?_ ?_ h.modules h.attr ?_ ?_ ?_ ?_
  · intro j hj
    exact ⟨rfl, id, fun _ => Option.some_ne_none k, id, fun _ hm => hm⟩
  · intro j hj hk
    exact absurd (Option.some.inj hk).symm hj
  · intro j hj
    rw [← Option.some.inj hj]
    exact hv
  · exact fun hinst => ⟨(h.installed hinst).1, Option.some_ne_none k⟩
  · exact Option.some_ne_none k
  · exact fun _ => trivial

theorem raceInv_writeEntry (h : RaceInv env rebindExisting std w₀ s) {k : K}
    (hpc : s.pc k = .writeEntry) :
    RaceInv env rebindExisting std w₀ (s.step env rebindExisting k) := by
  have hs' : s.step env rebindExisting k = { s with
      world := { s.world with modules := s.world.modules.set "asyncio" (some env.ferroIo) }
      pc := Function.update s.pc k (if rebindExisting then .readOriginal else .writeFlag)
      patched := true } := by
    simp [Race.step, callStep, installStep, hpc]
  have hk := h.reached k
  rw [hpc] at hk
  rw [hs']
  refine h.next rfl ?_ (fun _ _ hj => hj) ?_ h.attr h.original ?_ ?_ ?_
  · intro j hj
    exact ⟨rfl, fun _ => rfl, id, id, fun _ hm => hm⟩
  · simp only [h.modules, if_true]
    cases s.patched with
    | true => simp [OrderedDict.set_set]
    | false => simp
  · exact fun hinst => ⟨rfl, (h.installed hinst).2⟩
  · cases hb : rebindExisting with
    | true => exact ⟨⟨rfl, hk⟩, rfl⟩
    | false => exact ⟨rfl, hk⟩
  · intro _
    cases hb : rebindExisting with
    | true => trivial
    | false => exact fun _ hfalse => absurd hfalse (by decide)

theorem raceInv_readOriginal (h : RaceInv env rebindExisting std w₀ s) {k : K}
    (hpc : s.pc k = .readOriginal) :
    RaceInv env rebindExisting std w₀ (s.step env rebindExisting k) := by
  have hk := h.reached k
  rw [hpc] at hk
  obtain ⟨j, hj⟩ := Option.ne_none_iff_exists'.mp hk.1.2
  have horig := h.original j hj
  have hs' : s.step env rebindExisting k = { s with
      pc := Function.update s.pc k (.listModules (s.saw env std j)) } := by
    simp [Race.step, callStep, installStep, hpc, horig]
  rw [hs']
  -- what it reads is what the last saver saved, its own value if that is itself
  refine h.move k ⟨hk.1, hk.2, ?_⟩ ?_
  · simp only [Race.saw]
    split
    · exact .inl rfl
    · exact .inr rfl
  · intro hsaver he
    have hjk : j = k := Option.some.inj (hj.symm.trans hsaver)
    simp [Race.saw, hjk, he]

theorem raceInv_listModules (h : RaceInv env rebindExisting std w₀ s) {k : K} {other : Obj}
    (hpc : s.pc k = .listModules other) :
    RaceInv env rebindExisting std w₀ (s.step env rebindExisting k) := by
  have hk := h.reached k
  rw [hpc] at hk
  obtain ⟨hentered, hb, ho⟩ := hk
  have hmods := h.modules
  rw [if_pos hentered.1] at hmods
  have hs' : s.step env rebindExisting k = { s with
      pc := Function.update s.pc k (nextModule env.ferroIo other s.world.modules.values) } := by
    simp [Race.step, callStep, installStep, hpc]
  rw [hs', hmods]
  refine h.move k (reached_next hentered hb ho fun v hv => hv) fun hsaver => covers_next ?_
  intro he
  have hcov := h.covers k hsaver
  rw [hpc] at hcov
  exact ⟨hcov he, fun m hm => .inl hm.1⟩

/-- The thread goes on to the next module, once this one is bound if it is to be. -/
theorem RaceInv.skip (h : RaceInv env rebindExisting std w₀ s) {k : K} {other m : Obj}
    {mods : List (Value Obj)} (hloop : InLoop env rebindExisting std w₀ s other m mods)
    (hcov : s.saver = some k → s.early k = true → other = std ∧
      ∀ m', ToRebind env std w₀ m' → some m' ∈ some m :: mods ∨ s.Bound env m')
    (hm : other = std → ToRebind env std w₀ m → s.Bound env m) :
    RaceInv env rebindExisting std w₀
      { s with pc := Function.update s.pc k (nextModule env.ferroIo other mods) } := by
  obtain ⟨hentered, hb, ho, -, hsub⟩ := hloop
  refine h.move k (reached_next hentered hb ho fun v hv => hsub v (List.mem_cons_of_mem _ hv)) ?_
  intro hsaver
  refine covers_next fun he => ?_
  obtain ⟨hos, hrest⟩ := hcov hsaver he
  refine ⟨hos, fun m' hm' => ?_⟩
  rcases hrest m' hm' with hmem | hbound
  · rcases List.mem_cons.mp hmem with heq | htail
    · cases heq
      exact .inr (hm hos hm')
    · exact .inl htail
  · exact .inr hbound

/-- An access that raises ends the call, or is caught and leaves the module alone. -/
theorem RaceInv.fault (h : RaceInv env rebindExisting std w₀ s) {k : K} {other m : Obj}
    {mods : List (Value Obj)} (hloop : InLoop env rebindExisting std w₀ s other m mods)
    (hcov : s.saver = some k → s.early k = true → other = std ∧
      ∀ m', ToRebind env std w₀ m' → some m' ∈ some m :: mods ∨ s.Bound env m')
    (hm : ¬ ToRebind env std w₀ m) (fault : Fault) :
    RaceInv env rebindExisting std w₀ { s with
      pc := Function.update s.pc k
        (if fault = .exception then nextModule env.ferroIo other mods
          else .raised .baseException) } := by
  cases fault with
  | exception => exact h.skip hloop hcov fun _ hto => absurd hto hm
  | baseException => exact h.move k trivial fun _ => trivial

theorem raceInv_readAttr (h : RaceInv env rebindExisting std w₀ s) {k : K} {other m : Obj}
    {mods : List (Value Obj)} (hpc : s.pc k = .readAttr other m mods) :
    RaceInv env rebindExisting std w₀ (s.step env rebindExisting k) := by
  have hk := h.reached k
  have hcov := h.covers k
  rw [hpc] at hk hcov
  cases hr : env.readFault m with
  | some fault =>
    have hs' : s.step env rebindExisting k = { s with
        pc := Function.update s.pc k
          (if fault = .exception then nextModule env.ferroIo other mods
            else .raised .baseException) } := by
      cases fault <;> simp [Race.step, callStep, installStep, accessFault, hpc, hr]
    rw [hs']
    exact h.fault hk hcov (fun hm => absurd (hr.symm.trans hm.2.2.2.1) (by simp)) fault
  | none =>
    by_cases hbound : s.world.getattr m "asyncio" = some other
    · have hs' : s.step env rebindExisting k =
          { s with pc := Function.update s.pc k (.writeAttr other m mods) } := by
        simp [Race.step, callStep, installStep, accessFault, hpc, hr, hbound]
      rw [hs']
      refine h.move k ⟨hk, hr, ?_⟩ hcov
      -- a module bound to stdlib asyncio now was so from the start
      rw [getattr_eq_some] at hbound
      rcases hk.2.2.1 with hos | hof
      · rcases h.attr m "asyncio" with hsame | ⟨-, -, -, hf⟩
        · exact .inr ⟨hos, by rw [← hsame, hbound, hos]⟩
        · exact .inl hf
      · exact .inl (by rw [Race.Bound, hbound, hof])
    · have hs' : s.step env rebindExisting k =
          { s with pc := Function.update s.pc k (nextModule env.ferroIo other mods) } := by
        simp [Race.step, callStep, installStep, accessFault, hpc, hr, hbound]
      rw [hs']
      refine h.skip hk hcov fun hos hm => ?_
      -- another thread has bound it, since it was bound to stdlib asyncio
      rcases h.attr m "asyncio" with hsame | ⟨-, -, -, hf⟩
      · have hstd := getattr_eq_some.mp hm.2.2.2.2.2
        exact absurd (getattr_eq_some.mpr (hsame.trans (hos ▸ hstd))) hbound
      · exact hf

/-- The write itself: the module is bound to `ferro_io` already, or is one to rebind. -/
theorem raceInv_setattr (h : RaceInv env rebindExisting std w₀ s) {k : K} {other m : Obj}
    {mods : List (Value Obj)} (hpc : s.pc k = .writeAttr other m mods)
    (hw : env.writeFault m = none) :
    RaceInv env rebindExisting std w₀
      { s with world := s.world.setattr m "asyncio" (some env.ferroIo) } := by
  have hk := h.reached k
  rw [hpc] at hk
  obtain ⟨⟨-, hb, -, hf, hsub⟩, hr, hbound⟩ := hk
  have hkeeps : ∀ j, s.Keeps env
      { s with world := s.world.setattr m "asyncio" (some env.ferroIo) } j := by
    intro j
    refine ⟨rfl, id, id, id, fun m' hm' => ?_⟩
    by_cases hmm : m' = m
    · simp [Race.Bound, World.setattr, hmm]
    · have hm'' : s.world.attr m' "asyncio" = some (some env.ferroIo) := hm'
      simp [Race.Bound, World.setattr, hmm, hm'']
  refine h.next (k := k) (Function.update_eq_self k s.pc).symm (fun j _ => hkeeps j)
    (fun _ _ hj => hj) h.modules ?_ h.original h.installed ?_ ?_
  · intro m' n
    by_cases hmm : m' = m ∧ n = "asyncio"
    · obtain ⟨rfl, rfl⟩ := hmm
      have hnew : (s.world.setattr m' "asyncio" (some env.ferroIo)).attr m' "asyncio" =
          some (some env.ferroIo) := by simp [World.setattr]
      rcases hbound with hbound | ⟨-, hstd⟩
      · -- bound already, by this write's own thread or another: nothing changes
        rcases h.attr m' "asyncio" with hsame | ⟨-, -, hto, -⟩
        · exact .inl (hnew.trans (hbound.symm.trans hsame))
        · exact .inr ⟨hb, rfl, hto, hnew⟩
      · have hto : ToRebind env std w₀ m' :=
          ⟨hsub _ List.mem_cons_self, hf, hf, hr, hw, getattr_eq_some.mpr hstd⟩
        exact .inr ⟨hb, rfl, hto, hnew⟩
    · have hold : (s.world.setattr m "asyncio" (some env.ferroIo)).attr m' n =
          s.world.attr m' n := by simp only [World.setattr, if_neg hmm]
      rcases h.attr m' n with hsame | ⟨-, hn, hto, hf'⟩
      · exact .inl (hold.trans hsame)
      · exact .inr ⟨hb, hn, hto, (hkeeps k).bound m' hf'⟩
  · exact reached_keeps (hkeeps k) (h.reached k)
  · exact fun hsaver => covers_keeps (hkeeps k) (h.covers k hsaver)

theorem raceInv_writeAttr (h : RaceInv env rebindExisting std w₀ s) {k : K} {other m : Obj}
    {mods : List (Value Obj)} (hpc : s.pc k = .writeAttr other m mods) :
    RaceInv env rebindExisting std w₀ (s.step env rebindExisting k) := by
  have hk := h.reached k
  have hcov := h.covers k
  rw [hpc] at hk hcov
  cases hw : env.writeFault m with
  | some fault =>
    have hs' : s.step env rebindExisting k = { s with
        pc := Function.update s.pc k
          (if fault = .exception then nextModule env.ferroIo other mods
            else .raised .baseException) } := by
      cases fault <;> simp [Race.step, callStep, installStep, accessFault, hpc, hw]
    rw [hs']
    exact h.fault hk.1 hcov (fun hm => absurd (hw.symm.trans hm.2.2.2.2.1) (by simp)) fault
  | none =>
    have hs' : s.step env rebindExisting k = { s with
        world := s.world.setattr m "asyncio" (some env.ferroIo)
        pc := Function.update s.pc k (nextModule env.ferroIo other mods) } := by
      simp [Race.step, callStep, installStep, accessFault, hpc, hw]
    have hset := raceInv_setattr h hpc hw
    have hk' := hset.reached k
    have hcov' := hset.covers k
    rw [hpc] at hk' hcov'
    rw [hs']
    exact hset.skip hk'.1 hcov' fun _ _ => by simp [Race.Bound, World.setattr]

theorem raceInv_writeFlag (h : RaceInv env rebindExisting std w₀ s) {k : K}
    (hpc : s.pc k = .writeFlag) :
    RaceInv env rebindExisting std w₀ (s.step env rebindExisting k) := by
  have hs' : s.step env rebindExisting k = { s with
      world := { s.world with installed := true }
      pc := Function.update s.pc k .returned } := by
    simp [Race.step, callStep, installStep, hpc]
  have hk := h.reached k
  have hcov := h.covers k
  rw [hpc] at hk hcov
  rw [hs']
  refine h.next rfl ?_ (fun _ _ hj => hj) h.modules h.attr h.original (fun _ => hk) rfl hcov
  intro j _
  exact ⟨rfl, id, id, fun _ => rfl, fun _ hm => hm⟩

/-- Step lemma. -/
theorem raceInv_step (hstd : w₀.module "asyncio" = some std)
    (h : RaceInv env rebindExisting std w₀ s) (k : K) :
    RaceInv env rebindExisting std w₀ (s.step env rebindExisting k) := by
  have hreached := h.reached k
  have hcov := h.covers k
  cases hpc : s.pc k with
  | readFlag =>
    rw [hpc] at hcov
    cases hinst : s.world.installed with
    | true =>
      have hs' : s.step env rebindExisting k =
          { s with pc := Function.update s.pc k .returned } := by
        simp [Race.step, callStep, installStep, hpc, hinst]
      rw [hs']
      exact h.move k hinst fun hk => (hcov hk).elim
    | false =>
      have hs' : s.step env rebindExisting k =
          { s with pc := Function.update s.pc k .readEntry } := by
        simp [Race.step, callStep, installStep, hpc, hinst]
      rw [hs']
      exact h.move k trivial hcov
  | readEntry => exact raceInv_readEntry h hstd hpc
  | writeOriginal v => exact raceInv_writeOriginal h hpc
  | writeEntry => exact raceInv_writeEntry h hpc
  | readOriginal => exact raceInv_readOriginal h hpc
  | listModules other => exact raceInv_listModules h hpc
  | readAttr other m mods => exact raceInv_readAttr h hpc
  | writeAttr other m mods => exact raceInv_writeAttr h hpc
  | writeFlag => exact raceInv_writeFlag h hpc
  | returned =>
    rw [hpc] at hreached hcov
    have hs' : s.step env rebindExisting k =
        { s with pc := Function.update s.pc k .returned } := by
      simp [Race.step, callStep, installStep, hpc]
    rw [hs']
    exact h.move k hreached hcov
  | raised e =>
    have hs' : s.step env rebindExisting k =
        { s with pc := Function.update s.pc k (.raised e) } := by
      simp [Race.step, callStep, installStep, hpc]
    rw [hs']
    exact h.move k trivial fun _ => trivial

/-- Run lemma. -/
theorem raceInv_run (hinst : w₀.installed = false) (hstd : w₀.module "asyncio" = some std)
    (steps : List K) : RaceInv env rebindExisting std w₀
      (EventRun.run (Race.step env rebindExisting) (Race.start w₀) steps) := by
  refine EventRun.run_inv (I := RaceInv env rebindExisting std w₀)
    (fun s k h => raceInv_step hstd h k) ?_ steps
  refine ⟨rfl, fun m n => .inl rfl, ?_, ?_, fun k => trivial, ?_⟩
  · intro k hk
    cases hk
  · intro h
    exact absurd (hinst.symm.trans h) (by decide)
  · intro k hk
    cases hk

omit [DecidableEq K] in
/-- When all calls have returned, and the last saver read stdlib asyncio, the world is the
    one that a single `install` leaves. -/
theorem raceInv_world (h : RaceInv env rebindExisting std w₀ s)
    (hinst : s.world.installed = true) {k : K} (hsaver : s.saver = some k)
    (hpc : s.pc k = .returned) (hearly : s.early k = true) :
    s.world = installedWorld env rebindExisting std w₀ := by
  have hmods := h.modules
  rw [if_pos (h.installed hinst).1] at hmods
  have horig : s.world.original = some std := by
    simpa [Race.saw, hearly] using h.original k hsaver
  have hcov := h.covers k hsaver
  rw [hpc] at hcov
  have hattr : s.world.attr = (installedWorld env rebindExisting std w₀).attr := by
    funext m n
    cases hb : rebindExisting with
    | false =>
      rcases h.attr m n with hsame | ⟨htrue, -⟩
      · exact hsame
      · exact absurd (hb.symm.trans htrue) (by decide)
    | true =>
      simp only [installedWorld, rebound, if_true]
      split
      · next hto =>
        obtain ⟨rfl, hto⟩ := hto
        exact hcov hearly hb m hto
      · next hnot =>
        rcases h.attr m n with hsame | ⟨-, hn, hto, -⟩
        · exact hsame
        · exact absurd ⟨hn, hto⟩ hnot
  cases hworld : s.world with
  | mk modules attr original installed =>
    simp only [hworld] at hmods horig hattr hinst
    subst hmods horig hattr hinst
    cases rebindExisting <;> rfl

/-- When one `uninstall` after all the calls does what it does after a single one. -/
theorem race_undone_iff [Nonempty K] (env : Env Obj) (rebindExisting : Bool) (w₀ : World Obj)
    (std : Obj) (hinst : w₀.installed = false) (hstd : w₀.module "asyncio" = some std)
    (hne : std ≠ env.ferroIo) (steps : List K)
    (hdone : ∀ k, (EventRun.run (Race.step env rebindExisting) (Race.start w₀) steps).pc k =
      .returned) :
    let s := EventRun.run (Race.step env rebindExisting) (Race.start w₀) steps
    ((uninstall env s.world).2.modules.get "asyncio" = some (some std) ∧
      ∀ single, install env rebindExisting w₀ = (.ok (), single) →
        uninstall env s.world = uninstall env single) ↔
    ∀ k, s.saver = some k → s.early k = true := by
  intro s
  have h : RaceInv env rebindExisting std w₀ s := raceInv_run hinst hstd steps
  have hinstalled : s.world.installed = true := by
    have k : K := Classical.arbitrary K
    have hk := h.reached k
    rw [hdone k] at hk
    exact hk
  obtain ⟨k, hsaver⟩ := Option.ne_none_iff_exists'.mp (h.installed hinstalled).2
  have horig := h.original k hsaver
  -- `uninstall` puts back what the last saver read
  have hentry : (uninstall env s.world).2.modules.get "asyncio" =
      some (some (s.saw env std k)) := by
    obtain ⟨flag, heq⟩ := uninstall_leaves env hinstalled
    rw [heq]
    calc (rebindTo env s.world.original s.world.restored).2.modules.get "asyncio"
        = s.world.restored.modules.get "asyncio" :=
          congrArg (·.get "asyncio") (rebindTo_frame env _ s.world.restored).modules
      _ = some (some (s.saw env std k)) := by simp [World.restored, horig]
  constructor
  · rintro ⟨hrestored, -⟩ j hj
    cases hearly : s.early k with
    | true => rwa [Option.some.inj (hj.symm.trans hsaver)]
    | false =>
      rw [hentry] at hrestored
      simp [Race.saw, hearly, hne.symm] at hrestored
  · intro hall
    have hearly := hall k hsaver
    refine ⟨by simp [hentry, Race.saw, hearly], fun single hsingle => ?_⟩
    have hworld := raceInv_world h hinstalled hsaver (hdone k) hearly
    have hok := install_of_ok hinst hstd (congrArg Prod.fst hsingle)
    rw [hsingle] at hok
    have hsingle' : single = _ := hok
    rw [hworld, hsingle']

/-- Two threads, each reading the entry before either replaces it. -/
theorem race_undone_overlapping :
    let s := EventRun.run (Race.step plainEnv true) (Race.start (bindingWorld 0))
      (List.replicate 3 true ++ List.replicate 9 false ++ List.replicate 6 true)
    (uninstall plainEnv s.world).2.modules.get "asyncio" = some (some 0) ∧
      ∀ single, install plainEnv true (bindingWorld 0) = (.ok (), single) →
        uninstall plainEnv s.world = uninstall plainEnv single :=
  (race_undone_iff plainEnv true (bindingWorld 0) 0 rfl rfl (by decide)
    (List.replicate 3 true ++ List.replicate 9 false ++ List.replicate 6 true)
    (by decide)).mpr (by decide)

/-- A thread that reads the flag before another's call, and the entry after it has been
    replaced: stdlib asyncio does not come back. -/
theorem race_not_undone :
    let s := EventRun.run (Race.step plainEnv true) (Race.start (bindingWorld 0))
      ([true] ++ List.replicate 9 false ++ List.replicate 8 true)
    (bindingWorld 0).installed = false ∧
    (bindingWorld 0).modules.get "asyncio" = some (some 0) ∧ (∀ k, s.pc k = .returned) ∧
    (uninstall plainEnv s.world).1 = .ok () ∧
    (uninstall plainEnv s.world).2.installed = false ∧
    (uninstall plainEnv s.world).2.modules.get "asyncio" = some (some 1) := by
  decide

end

end

end FerroIo
