import FerroIo.EventRun
import FerroIo.FanOut

/- `run_fallible` of `src/lib.rs`: one task for each item, which may panic, and a loop that
   awaits the tasks' handles in the order of the items.

   The calling thread spawns all tasks and then awaits them (`FallibleEvent.main`), and
   each task ends at some moment after it is spawned (`.complete`). A handle gives the
   outcome of its own task, once that has ended, and no task is cancelled from outside.

   Main result: `run_fallible_isolated`. In every run the call returns nothing but the
   outcome of each item at the item's own place, and every run can be completed. The
   invariant is `Isolated`. -/
namespace FerroIo

/-- A task of `run_fallible`. -/
def fallibleTask (fail : List UInt64) (v : UInt64) : Except JoinError UInt64 :=
  if v ∈ fail then .error (.panic (.string ("forced failure at value=" ++ toString v)))
  else .ok (v * v)

/-- The downcast chain of `run_fallible`, which ends in another text than that of
    `TaskError.ofJoinError`. -/
def panicMessage : PanicPayload → String
  | .staticStr s => s
  | .string s => s
  | .other => "panic"

/-- What the loop pushes for a task. -/
def pushed : Except JoinError UInt64 → Except String UInt64
  | .ok v => .ok v
  | .error (.panic payload) => .error ("task panicked: " ++ panicMessage payload)
  | .error .cancelled => .error "task cancelled"

inductive PyValue where
  | int (n : ℕ)
  | str (s : String)
  deriving DecidableEq, Repr

/-- The tuple that is appended to the list. -/
def tuple : Except String UInt64 → Bool × PyValue
  | .ok v => (true, .int v.toNat)
  | .error msg => (false, .str msg)

/-- The handles, each with the outcome of its task if that has ended, and what the loop
    has pushed. -/
structure FallibleCall where
  handles : List (Option (Except JoinError UInt64))
  out : List (Except String UInt64)

inductive FallibleEvent where
  | main
  | complete (i : ℕ)
  deriving DecidableEq, Repr

def FallibleCall.init : FallibleCall := { handles := [], out := [] }

/-- One step of the run; a step that is not possible yet changes nothing. -/
def FallibleCall.step (items fail : List UInt64) (s : FallibleCall) : FallibleEvent → FallibleCall
  | .main =>
    if s.handles.length < items.length then { s with handles := s.handles ++ [none] }
    else match s.handles[s.out.length]? with
      | some (some res) => { s with out := s.out ++ [pushed res] }
      | _ => s
  | .complete i => match s.handles[i]?, items[i]? with
    | some none, some v => { s with handles := s.handles.set i (some (fallibleTask fail v)) }
    | _, _ => s

/-- The list that the call returns once the loop has ended. -/
def FallibleCall.result (items : List UInt64) (s : FallibleCall) : Option (List (Bool × PyValue)) :=
  if s.out.length = items.length then some (s.out.map tuple) else none

def runFallible (items : List UInt64) (failOn : Option (List UInt64)) (es : List FallibleEvent) :
    Option (List (Bool × PyValue)) :=
  (EventRun.run (FallibleCall.step items (failOn.getD [])) .init es).result items

/-! ## The outcome of each item -/

/-- Every handle and everything pushed is the outcome of the item at its place. -/
structure Isolated (items fail : List UInt64) (s : FallibleCall) : Prop where
  spawned : s.handles.length ≤ items.length
  ended : ∀ (i : ℕ) res, s.handles[i]? = some (some res) →
    items[i]?.map (fallibleTask fail) = some res
  out : s.out = (items.take s.out.length).map fun v => pushed (fallibleTask fail v)

section
variable {items fail : List UInt64} {s : FallibleCall}

theorem isolated_step (h : Isolated items fail s) (e : FallibleEvent) :
    Isolated items fail (s.step items fail e) := by
  cases e with
  | main =>
    simp only [FallibleCall.step]
    split
    · next hlt =>
      refine ⟨by rw [List.length_append]; exact hlt, fun i res hi => ?_, h.out⟩
      rw [List.getElem?_append] at hi
      split at hi
      · exact h.ended i res hi
      · -- the task that is just spawned has not ended
        rw [List.getElem?_singleton] at hi
        split at hi <;> cases hi
    · split
      · next res hres =>
        -- the handle awaited is the one at the place that is pushed
        refine ⟨h.spawned, h.ended, ?_⟩
        have hitem := h.ended _ res hres
        obtain ⟨v, hv, hvres⟩ := Option.map_eq_some_iff.mp hitem
        have htake : items.take (s.out.length + 1) = items.take s.out.length ++ [v] := by
          rw [List.take_add_one, hv]
          rfl
        rw [List.length_append, List.length_singleton, htake, List.map_append, ← h.out, ← hvres]
        rfl
      · exact h
  | complete i =>
    simp only [FallibleCall.step]
    split
    · next v hnone hv =>
      refine ⟨by simpa using h.spawned, fun j res hj => ?_, h.out⟩
      rw [List.getElem?_set] at hj
      split at hj
      · next hij =>
        subst hij
        split at hj
        · cases hj
          rw [hv]
          rfl
        · cases hj
      · exact h.ended j res hj
    · exact h

theorem isolated_run (items fail : List UInt64) (es : List FallibleEvent) :
    Isolated items fail (EventRun.run (FallibleCall.step items fail) .init es) := by
  refine EventRun.run_inv (I := Isolated items fail) (fun s e h => isolated_step h e) ?_ es
  exact ⟨Nat.zero_le _, fun i res hi => by simp [FallibleCall.init] at hi, rfl⟩

/-! ## Every run can be completed -/

/-- Every task has been spawned and has ended. -/
def AllEnded (items : List UInt64) (s : FallibleCall) : Prop :=
  s.handles.length = items.length ∧ ∀ i < items.length, ∃ res, s.handles[i]? = some (some res)

theorem spawn_all (fail : List UInt64) (s : FallibleCall) (h : s.handles.length ≤ items.length) {m : ℕ}
    (hm : items.length ≤ s.handles.length + m) :
    (EventRun.run (FallibleCall.step items fail) s (List.replicate m .main)).handles.length =
      items.length := by
  induction m generalizing s with
  | zero => exact Nat.le_antisymm h hm
  | succ m ih =>
    rw [List.replicate_succ, EventRun.run_cons]
    by_cases hlt : s.handles.length < items.length
    · have hspawn : (s.step items fail .main).handles.length = s.handles.length + 1 := by
        simp [FallibleCall.step, hlt]
      refine ih _ (by omega) (by omega)
    · have hkeep : (s.step items fail .main).handles = s.handles := by
        simp only [FallibleCall.step, if_neg hlt]
        split <;> rfl
      exact ih _ (by rw [hkeep]; exact h) (by rw [hkeep]; omega)

theorem complete_length (s : FallibleCall) (i : ℕ) :
    (s.step items fail (.complete i)).handles.length = s.handles.length := by
  simp only [FallibleCall.step]
  split
  · exact List.length_set
  · rfl

/-- A task that has ended stays so while others end. -/
theorem complete_keeps (s : FallibleCall) (i : ℕ) {j : ℕ} {res : Except JoinError UInt64}
    (hj : s.handles[j]? = some (some res)) :
    (s.step items fail (.complete i)).handles[j]? = some (some res) := by
  simp only [FallibleCall.step]
  split
  · next v hnone hv =>
    -- only a task that has not ended yet can end
    have hne : i ≠ j := by
      rintro rfl
      rw [hj] at hnone
      cases hnone
    rw [List.getElem?_set_ne hne]
    exact hj
  · exact hj

theorem complete_ends (s : FallibleCall) {i : ℕ} (hi : i < items.length)
    (hlen : s.handles.length = items.length) :
    ∃ res, (s.step items fail (.complete i)).handles[i]? = some (some res) := by
  have hitem : items[i]? = some items[i] := List.getElem?_eq_getElem hi
  have hhandle : s.handles[i]? = some s.handles[i] := List.getElem?_eq_getElem (by omega)
  cases hres : s.handles[i] with
  | some res =>
    rw [hres] at hhandle
    exact ⟨res, complete_keeps s i hhandle⟩
  | none =>
    rw [hres] at hhandle
    refine ⟨fallibleTask fail items[i], ?_⟩
    simp only [FallibleCall.step, hhandle, hitem]
    exact List.getElem?_set_self (by omega)

theorem complete_all (fail : List UInt64) (s : FallibleCall)
    (hlen : s.handles.length = items.length) {order : List ℕ}
    (horder : ∀ i < items.length, i ∈ order ∨ ∃ res, s.handles[i]? = some (some res)) :
    AllEnded items (EventRun.run (FallibleCall.step items fail) s (order.map .complete)) := by
  induction order generalizing s with
  | nil => exact ⟨hlen, fun i hi => (horder i hi).resolve_left List.not_mem_nil⟩
  | cons k order ih =>
    rw [List.map_cons, EventRun.run_cons]
    refine ih _ ((complete_length s k).trans hlen) fun i hi => ?_
    rcases horder i hi with hmem | ⟨res, hres⟩
    · rcases List.mem_cons.mp hmem with rfl | htail
      · exact .inr (complete_ends s hi hlen)
      · exact .inl htail
    · exact .inr ⟨res, complete_keeps s k hres⟩

theorem await_all (fail : List UInt64) (s : FallibleCall) (hall : AllEnded items s)
    (hout : s.out.length ≤ items.length) {m : ℕ} (hm : items.length ≤ s.out.length + m) :
    (EventRun.run (FallibleCall.step items fail) s (List.replicate m .main)).out.length =
      items.length := by
  induction m generalizing s with
  | zero => exact Nat.le_antisymm hout hm
  | succ m ih =>
    rw [List.replicate_succ, EventRun.run_cons]
    have hspawned : ¬ s.handles.length < items.length := by
      have := hall.1
      omega
    have hhandles : (s.step items fail .main).handles = s.handles := by
      simp only [FallibleCall.step, if_neg hspawned]
      split <;> rfl
    have hall' : AllEnded items (s.step items fail .main) := by
      rw [AllEnded, hhandles]
      exact hall
    by_cases hlt : s.out.length < items.length
    · obtain ⟨res, hres⟩ := hall.2 _ hlt
      have hpush : (s.step items fail .main).out.length = s.out.length + 1 := by
        simp [FallibleCall.step, hspawned, hres]
      exact ih _ hall' (by omega) (by omega)
    · -- everything has been pushed, and there is no further handle
      have hend : s.handles[s.out.length]? = none := by
        have := hall.1
        exact List.getElem?_eq_none (by omega)
      have hkeep : (s.step items fail .main).out = s.out := by
        simp [FallibleCall.step, hspawned, hend]
      exact ih _ hall' (by rw [hkeep]; exact hout) (by rw [hkeep]; omega)

theorem Isolated.out_le (h : Isolated items fail s) : s.out.length ≤ items.length := by
  have hlen := congrArg List.length h.out
  rw [List.length_map, List.length_take] at hlen
  omega

theorem Isolated.result_eq (h : Isolated items fail s) {result : List (Bool × PyValue)}
    (hresult : s.result items = some result) :
    result = items.map fun v => tuple (pushed (fallibleTask fail v)) := by
  simp only [FallibleCall.result] at hresult
  split at hresult
  · next hlen =>
    cases hresult
    have hout := h.out
    rw [hlen, List.take_length] at hout
    rw [hout, List.map_map]
    rfl
  · cases hresult

theorem tuple_pushed (fail : List UInt64) (v : UInt64) : tuple (pushed (fallibleTask fail v)) =
    if v ∈ fail then (false, .str ("task panicked: " ++ ("forced failure at value=" ++ toString v)))
    else (true, .int (v.toNat * v.toNat % 2 ^ 64)) := by
  simp only [fallibleTask]
  split
  · rfl
  · simp only [pushed, tuple, UInt64.toNat_mul]

end

/-- What `run_fallible` returns in every run, and that every run can be completed. -/
theorem run_fallible_isolated (items : List UInt64) (failOn : Option (List UInt64)) :
    (∀ es result, runFallible items failOn es = some result → result = items.map fun v =>
      if v ∈ failOn.getD [] then
        (false, .str ("task panicked: " ++ ("forced failure at value=" ++ toString v)))
      else (true, .int (v.toNat * v.toNat % 2 ^ 64))) ∧
    ∀ (es : List FallibleEvent) (order : List ℕ), (∀ i < items.length, i ∈ order) →
      (runFallible items failOn (es ++ List.replicate items.length .main ++
        order.map .complete ++ List.replicate items.length .main)).isSome := by
  constructor
  · intro es result hresult
    rw [(isolated_run items (failOn.getD []) es).result_eq hresult]
    exact List.map_congr_left fun v _ => tuple_pushed (failOn.getD []) v
  · intro es order horder
    simp only [runFallible, EventRun.run_append]
    have hspawned := spawn_all (failOn.getD []) _
      (isolated_run items (failOn.getD []) es).spawned (Nat.le_add_left _ _)
    have hall := complete_all (failOn.getD []) _ hspawned fun i hi => .inl (horder i hi)
    have hout := (isolated_run items (failOn.getD []) (es ++ List.replicate items.length .main ++
      order.map .complete)).out_le
    rw [EventRun.run_append, EventRun.run_append] at hout
    have hend := await_all (failOn.getD []) _ hall hout (Nat.le_add_left _ _)
    simp [FallibleCall.result, hend]

/-- The second task panics while the first is still running. -/
example : runFallible [2, 3] (some [3])
    [.main, .main, .complete 1, .main, .complete 0, .main, .main] =
      some [(true, .int 4), (false, .str "task panicked: forced failure at value=3")] := by
  decide

end FerroIo
