import FerroIo.GlobalRuntime

/- `_runtime` of `ferro_io/__init__.py`: the handle that all wrappers share, made by the
   first call that needs it, with a lock and a second check. Any number of threads call it
   any number of times, one atomic step at a time.

   Correspondence (Python ↔ Lean):
     `_rt`, `_rt_lock`                        ↔ `Singleton.rt`, `Singleton.lock`
     `if _rt is None` without the lock        ↔ `RuntimePc.readFast`
     `with _rt_lock`, entering and leaving    ↔ `.acquire`, `.release`, `.unwind`
     `if _rt is None` with the lock           ↔ `.readLocked`
     `AsyncRuntime()`, `_rt = ..`             ↔ `.constructing`, `.assign`
     `return _rt`                             ↔ `.readResult`
     `AsyncRuntime::new` of `src/lib.rs`      ↔ `AsyncRuntime.new`

   Main result: `runtime_singleton`. The invariant is `SingletonInv`: the thread that holds
   the lock is the one inside the `with` block, and what it has checked there stays true
   until it leaves. -/
namespace FerroIo

/-- A handle to the global runtime. -/
structure AsyncRuntime where
  rt : Runtime
  workerThreads : Nat
  deriving DecidableEq, Repr

/-- `AsyncRuntime::new`, where `global` is what `get_or_init_global(n)` gives. -/
def AsyncRuntime.new (cpus : Nat) (workerThreads : Option Nat)
    (getOrInitGlobal : Except String Runtime) : Except String AsyncRuntime :=
  let n := (Caller.asyncRuntimeNew workerThreads).workers cpus
  match getOrInitGlobal with
  | .ok rt => .ok { rt := rt, workerThreads := n }
  | .error e => .error e

/-- A Python object that holds a handle. `id` is its identity. -/
structure Object where
  id : Nat
  handle : AsyncRuntime
  deriving DecidableEq, Repr

/-- Where a thread is in the body of `_runtime`; `idle` between its calls. -/
inductive RuntimePc where
  | idle
  | readFast
  | acquire
  | readLocked
  | constructing
  | assign (o : Object)
  | release
  | unwind (message : String)
  | readResult
  deriving DecidableEq, Repr

/-- In the `with` block. -/
def RuntimePc.inside : RuntimePc → Bool
  | .readLocked | .constructing | .assign _ | .release | .unwind _ => true
  | _ => false

/-- A thread calls `_runtime`, or takes its next step; `global` is what
    `get_or_init_global` gives if that step ends a construction. -/
inductive RuntimeStep (K : Type*) where
  | call (k : K)
  | step (k : K) (getOrInitGlobal : Except String Runtime)

/-- `made`, `assigned` and `outcomes` are the objects constructed, the objects assigned to
    `_rt` and how calls ended, in order. -/
structure Singleton (K : Type*) where
  rt : Option Object
  lock : Option K
  pc : K → RuntimePc
  made : List Object
  assigned : List Object
  outcomes : List (K × Except String (Option Object))

variable {K : Type*}

def Singleton.init : Singleton K where
  rt := none
  lock := none
  pc _ := .idle
  made := []
  assigned := []
  outcomes := []

variable [DecidableEq K]

def Singleton.goto (s : Singleton K) (k : K) (p : RuntimePc) : Singleton K :=
  { s with pc := Function.update s.pc k p }

/-- The call of thread `k` ends. -/
def Singleton.endCall (s : Singleton K) (k : K) (outcome : Except String (Option Object)) :
    Singleton K :=
  { s with outcomes := s.outcomes ++ [(k, outcome)] }.goto k .idle

/-- One step of the run. A thread waits while another holds the lock. -/
def Singleton.step (cpus : Nat) (s : Singleton K) : RuntimeStep K → Singleton K
  | .call k => match s.pc k with
    | .idle => s.goto k .readFast
    | _ => s
  | .step k getOrInitGlobal => match s.pc k with
    | .idle => s
    | .readFast => match s.rt with
      | none => s.goto k .acquire
      | some _ => s.goto k .readResult
    | .acquire => match s.lock with
      | none => { s with lock := some k }.goto k .readLocked
      | some _ => s
    | .readLocked => match s.rt with
      | none => s.goto k .constructing
      | some _ => s.goto k .release
    | .constructing => match AsyncRuntime.new cpus none getOrInitGlobal with
      | .ok handle =>
        let o : Object := { id := s.made.length, handle := handle }
        { s with made := s.made ++ [o] }.goto k (.assign o)
      | .error message => s.goto k (.unwind message)
    | .assign o => { s with rt := some o, assigned := s.assigned ++ [o] }.goto k .release
    | .release => { s with lock := none }.goto k .readResult
    | .unwind message => { s with lock := none }.endCall k (.error message)
    | .readResult => s.endCall k (.ok s.rt)

/-! ## The invariant -/

/-- What holds of the shared state when a thread is at a step. -/
def Singleton.At (s : Singleton K) : RuntimePc → Prop
  | .idle | .readFast | .acquire | .readLocked => True
  | .constructing | .unwind _ => s.rt = none ∧ s.made = []
  | .assign o => s.rt = none ∧ s.made = [o]
  | .release | .readResult => s.rt ≠ none

structure SingletonInv (s : Singleton K) : Prop where
  holder : ∀ k, s.lock = some k ↔ (s.pc k).inside = true
  reached : ∀ k, s.At (s.pc k)
  made : s.made = s.rt.toList ∨ ∃ k o, s.pc k = .assign o
  assigned : s.assigned = s.rt.toList
  returned : ∀ k v, (k, .ok v) ∈ s.outcomes → v = s.rt ∧ v ≠ none

/-- What thread `k`'s step to `p` has to keep for the invariant to hold after it. -/
theorem SingletonInv.next {s s' : Singleton K} (h : SingletonInv s) {k : K} {p : RuntimePc}
    (hpcs : s'.pc = Function.update s.pc k p)
    (hlock : ∀ j, j ≠ k → (s'.lock = some j ↔ s.lock = some j))
    (hlock' : s'.lock = some k ↔ p.inside = true)
    (hothers : ∀ j, j ≠ k → s.At (s.pc j) → s'.At (s.pc j)) (hreached : s'.At p)
    (hmade : s'.made = s'.rt.toList ∨ (∃ o, p = .assign o) ∨
      ∃ j o, j ≠ k ∧ s.pc j = .assign o)
    (hassigned : s'.assigned = s'.rt.toList)
    (hreturned : ∀ j v, (j, .ok v) ∈ s'.outcomes → v = s'.rt ∧ v ≠ none) : SingletonInv s' where
  holder := by
    rw [hpcs]
    exact (Function.forall_update_iff s.pc fun j p => s'.lock = some j ↔ p.inside = true).mpr
      ⟨hlock', fun j hj => (hlock j hj).trans (h.holder j)⟩
  reached := by
    rw [hpcs]
    exact (Function.forall_update_iff s.pc fun _ p => s'.At p).mpr
      ⟨hreached, fun j hj => hothers j hj (h.reached j)⟩
  made := by
    rcases hmade with heq | ⟨o, ho⟩ | ⟨j, o, hj, ho⟩
    · exact .inl heq
    · exact .inr ⟨k, o, by rw [hpcs, Function.update_self, ho]⟩
    · exact .inr ⟨j, o, by rw [hpcs, Function.update_of_ne hj, ho]⟩
  assigned := hassigned
  returned := hreturned

/-- A step outside the `with` block, or inside it, that leaves the shared state alone. -/
theorem SingletonInv.goto {s : Singleton K} (h : SingletonInv s) {k : K} {p : RuntimePc}
    (hinside : p.inside = (s.pc k).inside) (hreached : s.At p)
    (hnot : ∀ o, s.pc k ≠ .assign o) : SingletonInv (s.goto k p) := by
  refine h.next rfl (fun _ _ => Iff.rfl) (hinside ▸ h.holder k) (fun _ _ hj => hj) hreached ?_
    h.assigned h.returned
  rcases h.made with heq | ⟨j, o, ho⟩
  · exact .inl heq
  · exact .inr (.inr ⟨j, o, fun hj => hnot o (hj ▸ ho), ho⟩)

omit [DecidableEq K] in
/-- A call's end is added to the log. -/
theorem SingletonInv.log {s : Singleton K} (h : SingletonInv s) (k : K)
    {outcome : Except String (Option Object)} (hout : ∀ v, outcome = .ok v → v = s.rt ∧ v ≠ none) :
    SingletonInv { s with outcomes := s.outcomes ++ [(k, outcome)] } where
  holder := h.holder
  reached := h.reached
  made := h.made
  assigned := h.assigned
  returned j v hjv := by
    rcases List.mem_append.mp hjv with hmem | hmem
    · exact h.returned j v hmem
    · exact hout v (Prod.mk.inj (List.mem_singleton.mp hmem)).2.symm

section
omit [DecidableEq K]
variable {s s' : Singleton K}

/-- While a thread is in the `with` block, no other is. -/
theorem SingletonInv.outside (h : SingletonInv s) {k : K} (hk : (s.pc k).inside = true) {j : K}
    (hj : j ≠ k) : (s.pc j).inside = false := by
  by_contra hin
  have hlockj := (h.holder j).mpr (by simpa using hin)
  have hlockk := (h.holder k).mpr hk
  exact hj (Option.some.inj (hlockj.symm.trans hlockk))

/-- Nobody is about to assign while a thread is elsewhere in the `with` block. -/
theorem SingletonInv.made_eq (h : SingletonInv s) {k : K} (hk : (s.pc k).inside = true)
    (hnot : ∀ o, s.pc k ≠ .assign o) : s.made = s.rt.toList := by
  rcases h.made with heq | ⟨j, o, ho⟩
  · exact heq
  · by_cases hj : j = k
    · exact absurd (hj ▸ ho) (hnot o)
    · have hout := h.outside hk hj
      rw [ho] at hout
      cases hout

theorem SingletonInv.made_of_rt (h : SingletonInv s) {o : Object} (hrt : s.rt = some o) :
    s.made = [o] := by
  rcases h.made with heq | ⟨j, o', hj⟩
  · rw [heq, hrt]
    rfl
  · have hat := h.reached j
    rw [hj] at hat
    exact absurd (hat.1.symm.trans hrt) (Option.some_ne_none o).symm

theorem SingletonInv.made_length (h : SingletonInv s) : s.made.length ≤ 1 := by
  rcases h.made with heq | ⟨j, o, hj⟩
  · rw [heq]
    exact Option.length_toList_le
  · have hat := h.reached j
    rw [hj] at hat
    rw [hat.2]
    exact Nat.le_refl 1

/-- What a thread outside the `with` block relies on is only that `_rt` stays set. -/
theorem at_of_outside (hrt : s.rt ≠ none → s'.rt ≠ none) {p : RuntimePc}
    (hp : p.inside = false) (h : s.At p) : s'.At p := by
  cases p with
  | idle => trivial
  | readFast => trivial
  | acquire => trivial
  | readResult => exact hrt h
  | readLocked => cases hp
  | constructing => cases hp
  | assign o => cases hp
  | release => cases hp
  | unwind message => cases hp

end

/-- A thread takes the free lock. -/
theorem SingletonInv.enter {s : Singleton K} (h : SingletonInv s) (k : K)
    (hlock : s.lock = none) : SingletonInv ({ s with lock := some k }.goto k .readLocked) := by
  refine h.next rfl ?_ (iff_of_true rfl rfl) (fun _ _ hj => hj) trivial ?_ h.assigned h.returned
  · intro j hj
    constructor
    · intro hsome
      exact absurd (Option.some.inj hsome).symm hj
    · intro hsome
      rw [hlock] at hsome
      cases hsome
  · rcases h.made with heq | ⟨j, o, ho⟩
    · exact .inl heq
    · have hj := (h.holder j).mpr (by rw [ho]; rfl)
      rw [hlock] at hj
      cases hj

/-- A thread leaves the `with` block. -/
theorem SingletonInv.leave {s : Singleton K} (h : SingletonInv s) {k : K}
    (hk : (s.pc k).inside = true) (hnot : ∀ o, s.pc k ≠ .assign o) {p : RuntimePc}
    (hp : p.inside = false) (hreached : s.At p) :
    SingletonInv ({ s with lock := none }.goto k p) := by
  have hlock := (h.holder k).mpr hk
  refine h.next rfl ?_ ?_ (fun _ _ hj => hj) hreached (.inl (h.made_eq hk hnot)) h.assigned
    h.returned
  · intro j hj
    constructor
    · intro hnone
      cases hnone
    · intro hsome
      exact absurd (Option.some.inj (hsome.symm.trans hlock)) hj
  · constructor
    · intro hnone
      cases hnone
    · intro hin
      exact absurd (hin.symm.trans hp) (by decide)

/-- A thread in the `with` block changes `_rt` or what has been made, and stays in. -/
theorem SingletonInv.write {s : Singleton K} (h : SingletonInv s) {k : K}
    (hk : (s.pc k).inside = true) {rt : Option Object} {made assigned : List Object}
    {p : RuntimePc} (hp : p.inside = true) (hrt : s.rt ≠ none → rt = s.rt)
    (hreached : { s with rt := rt, made := made, assigned := assigned }.At p)
    (hmade : made = rt.toList ∨ ∃ o, p = .assign o) (hassigned : assigned = rt.toList) :
    SingletonInv ({ s with rt := rt, made := made, assigned := assigned }.goto k p) := by
  refine h.next rfl (fun _ _ => Iff.rfl) ?_ ?_ hreached (hmade.imp_right .inl) hassigned ?_
  · exact iff_of_true ((h.holder k).mpr hk) hp
  · intro j hj hat
    refine at_of_outside (fun hne => ?_) (h.outside hk hj) hat
    exact (hrt hne) ▸ hne
  · intro j v hjv
    obtain ⟨hv, hne⟩ := h.returned j v hjv
    exact ⟨hv.trans (hrt (hv ▸ hne)).symm, hne⟩

/-- Step lemma. -/
theorem singletonInv_step (cpus : Nat) {s : Singleton K} (h : SingletonInv s)
    (e : RuntimeStep K) : SingletonInv (s.step cpus e) := by
  cases e with
  | call k =>
    simp only [Singleton.step]
    split
    · next hpc => exact h.goto (by rw [hpc]; rfl) trivial (by simp [hpc])
    · exact h
  | step k getOrInitGlobal =>
    have hat := h.reached k
    cases hpc : s.pc k with
    | idle =>
      simp only [Singleton.step, hpc]
      exact h
    | readFast =>
      simp only [Singleton.step, hpc]
      split
      · exact h.goto (by rw [hpc]; rfl) trivial (by simp [hpc])
      · next o hrt => exact h.goto (by rw [hpc]; rfl) (by simp [Singleton.At, hrt]) (by simp [hpc])
    | acquire =>
      simp only [Singleton.step, hpc]
      split
      · next hlock => exact h.enter k hlock
      · exact h
    | readLocked =>
      have hin : (s.pc k).inside = true := by rw [hpc]; rfl
      simp only [Singleton.step, hpc]
      split
      · next hrt =>
        -- the lock keeps other constructions out, so nothing has been made either
        have hmade := h.made_eq hin (by simp [hpc])
        rw [hrt] at hmade
        exact h.goto (by rw [hpc]; rfl) ⟨hrt, hmade⟩ (by simp [hpc])
      · next o hrt => exact h.goto (by rw [hpc]; rfl) (by simp [Singleton.At, hrt]) (by simp [hpc])
    | constructing =>
      have hin : (s.pc k).inside = true := by rw [hpc]; rfl
      rw [hpc] at hat
      obtain ⟨hrt, hmade⟩ := hat
      simp only [Singleton.step, hpc]
      split
      · refine h.write hin rfl (fun _ => rfl) ⟨hrt, ?_⟩ (.inr ⟨_, rfl⟩) h.assigned
        simp [hmade]
      · exact h.goto (by rw [hpc]; rfl) ⟨hrt, hmade⟩ (by simp [hpc])
    | assign o =>
      have hin : (s.pc k).inside = true := by rw [hpc]; rfl
      rw [hpc] at hat
      obtain ⟨hrt, hmade⟩ := hat
      simp only [Singleton.step, hpc]
      refine h.write hin rfl (fun hne => absurd hrt hne) (Option.some_ne_none o) (.inl hmade) ?_
      simp [h.assigned, hrt]
    | release =>
      have hin : (s.pc k).inside = true := by rw [hpc]; rfl
      rw [hpc] at hat
      simp only [Singleton.step, hpc]
      exact h.leave hin (by simp [hpc]) rfl hat
    | unwind message =>
      -- the `with` block releases the lock, and the exception ends the call
      have hin : (s.pc k).inside = true := by rw [hpc]; rfl
      simp only [Singleton.step, hpc]
      exact (h.leave hin (by simp [hpc]) (p := .idle) rfl trivial).log k fun v hv => by cases hv
    | readResult =>
      rw [hpc] at hat
      simp only [Singleton.step, hpc]
      have hout : ∀ v, (.ok s.rt : Except String (Option Object)) = .ok v →
          v = s.rt ∧ v ≠ none := by
        intro v hv
        cases hv
        exact ⟨rfl, hat⟩
      exact (h.log k hout).goto (by rw [hpc]; rfl) trivial (by simp [hpc])

/-- Run lemma. -/
theorem singletonInv_run (cpus : Nat) (es : List (RuntimeStep K)) :
    SingletonInv (EventRun.run (Singleton.step cpus) Singleton.init es) := by
  refine EventRun.run_inv (I := SingletonInv) (fun s e h => singletonInv_step cpus h e) ?_ es
  refine ⟨fun k => ?_, fun k => trivial, .inl rfl, rfl, fun k v hv => ?_⟩
  · simp [Singleton.init, RuntimePc.inside]
  · cases hv

/-- `_rt` is written only by a thread that has found it `None` in the `with` block. -/
theorem rt_step (cpus : Nat) {s : Singleton K} (h : SingletonInv s) {o : Object}
    (hrt : s.rt = some o) (e : RuntimeStep K) : (s.step cpus e).rt = some o := by
  cases e with
  | call k =>
    simp only [Singleton.step]
    split <;> exact hrt
  | step k getOrInitGlobal =>
    have hat := h.reached k
    cases hpc : s.pc k with
    | assign o' =>
      rw [hpc] at hat
      exact absurd (hat.1.symm.trans hrt) (Option.some_ne_none o).symm
    | idle =>
      simp only [Singleton.step, hpc]
      exact hrt
    | readFast =>
      simp only [Singleton.step, hpc, hrt]
      exact hrt
    | acquire =>
      simp only [Singleton.step, hpc]
      split <;> exact hrt
    | readLocked =>
      simp only [Singleton.step, hpc, hrt]
      exact hrt
    | constructing =>
      simp only [Singleton.step, hpc]
      split <;> exact hrt
    | release =>
      simp only [Singleton.step, hpc]
      exact hrt
    | unwind message =>
      simp only [Singleton.step, hpc]
      exact hrt
    | readResult =>
      simp only [Singleton.step, hpc]
      exact hrt

/-- A call with the lock free and nobody else running ends with the object. -/
theorem call_returns (cpus : Nat) {s : Singleton K} {k : K} (hlock : s.lock = none)
    (hpc : s.pc k = .idle) (rt : Runtime) :
    ∃ o, (EventRun.run (Singleton.step cpus) s
      (.call k :: List.replicate 7 (.step k (.ok rt)))).outcomes =
        s.outcomes ++ [(k, .ok (some o))] := by
  cases hrt : s.rt with
  | some o =>
    refine ⟨o, ?_⟩
    simp [List.replicate, Singleton.step, Singleton.goto, Singleton.endCall, hpc, hrt]
  | none =>
    refine ⟨⟨s.made.length, ⟨rt, cpus.max 1⟩⟩, ?_⟩
    simp [List.replicate, Singleton.step, Singleton.goto, Singleton.endCall, hpc, hrt, hlock,
      AsyncRuntime.new, Caller.workers]

/-- `_runtime` is a lazy singleton, whatever the interleaving. -/
theorem runtime_singleton (cpus : Nat) (es : List (RuntimeStep K)) :
    let s := EventRun.run (Singleton.step cpus) Singleton.init es
    (s.assigned.length ≤ 1 ∧ s.rt = s.assigned.head?) ∧
    (∀ later o, s.rt = some o → (EventRun.run (Singleton.step cpus) s later).rt = some o) ∧
    (∀ j k, s.pc j = .constructing → s.pc k = .constructing → j = k) ∧
    s.made.length ≤ 1 ∧
    (∀ k v, (k, .ok v) ∈ s.outcomes → ∃ o, v = some o ∧ s.rt = some o ∧ s.made = [o]) ∧
    (∀ k message r, s.pc k = .unwind message →
      (s.step cpus (.step k r)).rt = none ∧ (s.step cpus (.step k r)).lock = none ∧
      (s.step cpus (.step k r)).outcomes = s.outcomes ++ [(k, .error message)]) ∧
    (∀ k rt, s.lock = none → s.pc k = .idle →
      ∃ o, (EventRun.run (Singleton.step cpus) s
        (.call k :: List.replicate 7 (.step k (.ok rt)))).outcomes =
          s.outcomes ++ [(k, .ok (some o))]) := by
  intro s
  have h : SingletonInv s := singletonInv_run cpus es
  refine ⟨⟨?_, ?_⟩, ?_, ?_, ?_, ?_, ?_, ?_⟩
  · rw [h.assigned]
    exact Option.length_toList_le
  · rw [h.assigned]
    cases s.rt <;> rfl
  · intro later o hrt
    have hrun : SingletonInv (EventRun.run (Singleton.step cpus) s later) ∧
        (EventRun.run (Singleton.step cpus) s later).rt = some o :=
      EventRun.run_inv (I := fun s : Singleton K => SingletonInv s ∧ s.rt = some o)
        (fun s e hs => ⟨singletonInv_step cpus hs.1 e, rt_step cpus hs.1 hs.2 e⟩) ⟨h, hrt⟩ later
    exact hrun.2
  · -- a construction happens in the `with` block only
    intro j k hj hk
    by_contra hne
    have hout := h.outside (by rw [hk]; rfl) hne
    rw [hj] at hout
    cases hout
  · exact h.made_length
  · intro k v hv
    obtain ⟨hvrt, hne⟩ := h.returned k v hv
    obtain ⟨o, ho⟩ := Option.ne_none_iff_exists'.mp hne
    have hrt : s.rt = some o := hvrt.symm.trans ho
    exact ⟨o, ho, hrt, h.made_of_rt hrt⟩
  · intro k message r hpc
    have hat := h.reached k
    rw [hpc] at hat
    simp only [Singleton.step, hpc]
    exact ⟨hat.1, rfl, rfl⟩
  · intro k rt hlock hpc
    exact call_returns cpus hlock hpc rt

end FerroIo
