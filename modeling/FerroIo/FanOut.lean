import FerroIo.JoinOrder
import Mathlib.Algebra.Group.Nat.Defs
import Mathlib.Logic.Function.Iterate

/- The methods of `AsyncRuntime` that spawn one task for each item and collect the
   results: `run_concurrent`, `map_blocking` and `sleep_many` of `src/lib.rs`, with the
   errors of `src/errors.rs`.

   A task ends with its value or with a `JoinError`, and `join_next` delivers each task
   once, in any order (`Delivery`).

   Main result: `fan_out`. In every order, each method returns exactly the values of its
   tasks, in the order of the items, or, if a task fails, the error of a task that
   failed. -/
namespace FerroIo
open JoinOrder

/-! ## Errors -/

/-- What a task panicked with, as far as `downcast_ref` tells. -/
inductive PanicPayload where
  | staticStr (s : String)
  | string (s : String)
  | other
  deriving DecidableEq, Repr

inductive JoinError where
  | panic (payload : PanicPayload)
  | cancelled
  deriving DecidableEq, Repr

inductive TaskError where
  | panic (message : String)
  | cancelled
  | io (message : String)
  deriving DecidableEq, Repr

def TaskError.ofJoinError : JoinError → TaskError
  | .panic (.staticStr s) => .panic s
  | .panic (.string s) => .panic s
  | .panic .other => .panic "non-string panic payload"
  | .cancelled => .cancelled

/-- A Python exception, by its class and its text. -/
inductive PyErr where
  | runtimeError (message : String)
  | osError (message : String)
  | valueError (message : String)
  | panicException
  deriving DecidableEq, Repr

def PyErr.ofTaskError : TaskError → PyErr
  | .panic m => .runtimeError ("task panicked: " ++ m)
  | .cancelled => .runtimeError "task was cancelled"
  | .io e => .osError e

/-! ## The methods -/

/-- `res.map_err(TaskError::from)`. -/
def mapErr {α : Type*} (res : Except JoinError α) : Except TaskError α :=
  res.mapError TaskError.ofJoinError

/-- `out.sort_by_key(|(i, _)| *i)`, and the values without their indices. -/
def inOrder (out : List (ℕ × UInt64)) : List UInt64 := (sortByKey Prod.fst out).map Prod.snd

/-- The tasks of `run_concurrent`; `failure` says which end in a `JoinError`. -/
def squareTasks (items : List UInt64) (failure : ℕ → Option JoinError) :
    List (Except JoinError (ℕ × UInt64)) :=
  items.zipIdx.map fun task => outcome (failure task.2) (task.2, task.1 * task.1)

def runConcurrent {items : List UInt64} {failure : ℕ → Option JoinError}
    (set : Delivery (squareTasks items failure)) : Except PyErr (List UInt64) :=
  ((collect mapErr [] set.joined).map inOrder).mapError PyErr.ofTaskError

/-- The loop body of `map_blocking`'s task. -/
def lcg (x : UInt64) : UInt64 := x * 2862933555777941757 + 3037000493

/-- The tasks of `map_blocking`. Each awaits a blocking task of its own, which
    `blockingFailure` says may end in a `JoinError` too. -/
def blockingTasks (items : List UInt64) (iterations : UInt64)
    (failure blockingFailure : ℕ → Option JoinError) :
    List (Except JoinError (Except TaskError (ℕ × UInt64))) :=
  items.zipIdx.map fun task => outcome (failure task.2)
    ((mapErr (outcome (blockingFailure task.2) (lcg^[iterations.toNat] task.1))).map
      fun computed => (task.2, computed))

/-- `res.map_err(TaskError::from)??`. -/
def mapErrTwice {α : Type*} (res : Except JoinError (Except TaskError α)) : Except TaskError α :=
  (mapErr res).bind id

def mapBlocking {items : List UInt64} {iterations : UInt64}
    {failure blockingFailure : ℕ → Option JoinError}
    (set : Delivery (blockingTasks items iterations failure blockingFailure)) :
    Except PyErr (List UInt64) :=
  ((collect mapErrTwice [] set.joined).map inOrder).mapError PyErr.ofTaskError

/-- The tasks of `sleep_many`. How long they sleep decides only the order in which they
    end. -/
def sleepTasks (count : UInt64) (failure : ℕ → Option JoinError) : List (Except JoinError UInt64) :=
  (List.range count.toNat).map fun i => outcome (failure i) (UInt64.ofNat i)

def sleepMany {count : UInt64} {failure : ℕ → Option JoinError} (_millis : UInt64)
    (set : Delivery (sleepTasks count failure)) : Except PyErr (List UInt64) :=
  if count = 0 then .ok []
  else ((collect mapErr [] set.joined).map (sortByKey UInt64.toNat)).mapError PyErr.ofTaskError

/-! ## What they return -/

section
variable {α β : Type*}

theorem mapErr_outcome (failure : Option JoinError) (x : α) :
    mapErr (outcome failure x) = outcome (failure.map TaskError.ofJoinError) x := by
  cases failure <;> rfl

/-- The outer task's failure comes first. -/
theorem mapErrTwice_outcome (failure inner : Option JoinError) (f : α → β) (x : α) :
    mapErrTwice (outcome failure ((mapErr (outcome inner x)).map f)) =
      outcome ((failure <|> inner).map TaskError.ofJoinError) (f x) := by
  cases failure with
  | some e => rfl
  | none => cases inner <;> rfl

/-- The error that the loop ends with is what the caller sees. -/
theorem raised_of_failed {n : ℕ} {failure : ℕ → Option JoinError} {collected : Except TaskError α}
    (f : α → β) (h : ∃ j < n, ∃ e, (failure j).map TaskError.ofJoinError = some e ∧
      collected = .error e) :
    ∃ j < n, ∃ e, failure j = some e ∧
      (collected.map f).mapError PyErr.ofTaskError = .error (.ofTaskError (.ofJoinError e)) := by
  obtain ⟨j, hj, e, he, hcollected⟩ := h
  obtain ⟨e', he', rfl⟩ := Option.map_eq_some_iff.mp he
  exact ⟨j, hj, e', he', by rw [hcollected]; rfl⟩

end

theorem run_concurrent_exact {items : List UInt64} {failure : ℕ → Option JoinError}
    (set : Delivery (squareTasks items failure)) :
    ((∀ i < items.length, failure i = none) → runConcurrent set = .ok (items.map fun v => v * v)) ∧
    (∀ i < items.length, failure i ≠ none → ∃ j < items.length, ∃ e, failure j = some e ∧
      runConcurrent set = .error (.ofTaskError (.ofJoinError e))) := by
  obtain ⟨hok, hfail⟩ := collect_numbered (fun v => v * v)
    (fun i => (failure i).map TaskError.ofJoinError) (fun b => mapErr_outcome _ _) set
  constructor
  · intro hnone
    have hcollect := hok fun i hi => by simp [hnone i hi]
    exact congrArg (·.mapError PyErr.ofTaskError) hcollect
  · intro i hi hne
    exact raised_of_failed inOrder (hfail i hi (by simpa using hne))

theorem map_blocking_exact {items : List UInt64} {iterations : UInt64}
    {failure blockingFailure : ℕ → Option JoinError}
    (set : Delivery (blockingTasks items iterations failure blockingFailure)) :
    ((∀ i < items.length, (failure i <|> blockingFailure i) = none) →
      mapBlocking set = .ok (items.map lcg^[iterations.toNat])) ∧
    (∀ i < items.length, (failure i <|> blockingFailure i) ≠ none →
      ∃ j < items.length, ∃ e, (failure j <|> blockingFailure j) = some e ∧
        mapBlocking set = .error (.ofTaskError (.ofJoinError e))) := by
  obtain ⟨hok, hfail⟩ := collect_numbered lcg^[iterations.toNat]
    (fun i => (failure i <|> blockingFailure i).map TaskError.ofJoinError)
    (fun b => mapErrTwice_outcome _ _ _ _) set
  constructor
  · intro hnone
    have hcollect := hok fun i hi => by simp only [hnone i hi, Option.map_none]
    exact congrArg (·.mapError PyErr.ofTaskError) hcollect
  · intro i hi hne
    exact raised_of_failed inOrder (hfail i hi (by simpa only [ne_eq, Option.map_eq_none_iff] using hne))

/-- A task's number is below `count`, so it fits into 64 bits. -/
theorem toNat_index {count : UInt64} {i : ℕ} (hi : i < count.toNat) :
    (UInt64.ofNat i).toNat = i :=
  UInt64.toNat_ofNat_of_lt' (Nat.lt_trans hi count.toNat_lt_size)

theorem sleep_many_exact {count : UInt64} {failure : ℕ → Option JoinError} (millis : UInt64)
    (set : Delivery (sleepTasks count failure)) :
    ((∀ i < count.toNat, failure i = none) →
      sleepMany millis set = .ok ((List.range count.toNat).map UInt64.ofNat)) ∧
    (∀ i < count.toNat, failure i ≠ none → ∃ j < count.toNat, ∃ e, failure j = some e ∧
      sleepMany millis set = .error (.ofTaskError (.ofJoinError e))) := by
  have hkey : (List.range count.toNat).Pairwise
      fun a b => (UInt64.ofNat a).toNat < (UInt64.ofNat b).toNat := by
    refine List.pairwise_lt_range.imp_of_mem fun ha hb hab => ?_
    rw [toNat_index (List.mem_range.mp ha), toNat_index (List.mem_range.mp hb)]
    exact hab
  obtain ⟨hok, hfail⟩ := collect_tasks UInt64.toNat UInt64.ofNat
    (fun i => (failure i).map TaskError.ofJoinError) (fun i _ => mapErr_outcome _ _) hkey set
  by_cases hcount : count = 0
  · -- the early return, before any task is spawned
    subst hcount
    exact ⟨fun _ => rfl, fun i hi => absurd hi (Nat.not_lt_zero i)⟩
  · simp only [sleepMany, if_neg hcount]
    constructor
    · intro hnone
      have hcollect := hok fun i hi => by simp [hnone i (List.mem_range.mp hi)]
      exact congrArg (·.mapError PyErr.ofTaskError) hcollect
    · intro i hi hne
      obtain ⟨j, hj, he⟩ := hfail i (List.mem_range.mpr hi) (by simpa using hne)
      exact raised_of_failed _ ⟨j, List.mem_range.mp hj, he⟩

theorem lcg_toNat (n : ℕ) (x : UInt64) : (lcg^[n] x).toNat =
    (fun y => (y * 2862933555777941757 + 3037000493) % 2 ^ 64)^[n] x.toNat := by
  have hcomm : Function.Semiconj UInt64.toNat lcg
      fun y => (y * 2862933555777941757 + 3037000493) % 2 ^ 64 := by
    intro y
    simp [lcg, UInt64.toNat_add, UInt64.toNat_mul]
  exact hcomm.iterate_right n x

/-- What the three methods return, in every order in which the tasks end. -/
theorem fan_out (items : List UInt64) (iterations count millis : UInt64)
    (failure blockingFailure : ℕ → Option JoinError) :
    (∀ set : Delivery (squareTasks items failure),
      ((∀ i < items.length, failure i = none) → ∃ out, runConcurrent set = .ok out ∧
        out.map UInt64.toNat = items.map fun v => v.toNat * v.toNat % 2 ^ 64) ∧
      ∀ i < items.length, failure i ≠ none → ∃ j < items.length, ∃ e, failure j = some e ∧
        runConcurrent set = .error (.ofTaskError (.ofJoinError e))) ∧
    (∀ set : Delivery (blockingTasks items iterations failure blockingFailure),
      ((∀ i < items.length, (failure i <|> blockingFailure i) = none) →
        ∃ out, mapBlocking set = .ok out ∧ out.map UInt64.toNat = items.map fun v =>
          (fun y => (y * 2862933555777941757 + 3037000493) % 2 ^ 64)^[iterations.toNat] v.toNat) ∧
      ∀ i < items.length, (failure i <|> blockingFailure i) ≠ none →
        ∃ j < items.length, ∃ e, (failure j <|> blockingFailure j) = some e ∧
          mapBlocking set = .error (.ofTaskError (.ofJoinError e))) ∧
    ∀ set : Delivery (sleepTasks count failure),
      ((∀ i < count.toNat, failure i = none) → ∃ out, sleepMany millis set = .ok out ∧
        out.map UInt64.toNat = List.range count.toNat) ∧
      ∀ i < count.toNat, failure i ≠ none → ∃ j < count.toNat, ∃ e, failure j = some e ∧
        sleepMany millis set = .error (.ofTaskError (.ofJoinError e)) := by
  refine ⟨fun set => ?_, fun set => ?_, fun set => ?_⟩
  · obtain ⟨hok, hfail⟩ := run_concurrent_exact set
    refine ⟨fun hnone => ⟨_, hok hnone, ?_⟩, hfail⟩
    rw [List.map_map]
    exact List.map_congr_left fun v _ => UInt64.toNat_mul v v
  · obtain ⟨hok, hfail⟩ := map_blocking_exact set
    refine ⟨fun hnone => ⟨_, hok hnone, ?_⟩, hfail⟩
    rw [List.map_map]
    exact List.map_congr_left fun v _ => lcg_toNat iterations.toNat v
  · obtain ⟨hok, hfail⟩ := sleep_many_exact millis set
    refine ⟨fun hnone => ⟨_, hok hnone, ?_⟩, hfail⟩
    rw [List.map_map]
    refine (List.map_congr_left fun i hi => ?_).trans (List.map_id _)
    exact toNat_index (List.mem_range.mp hi)

end FerroIo
