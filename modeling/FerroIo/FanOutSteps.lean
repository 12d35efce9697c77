import FerroIo.FanOut
import FerroIo.JoinSet

/- `run_concurrent` and `map_blocking` of `src/lib.rs`, step by step: the calling thread
   inside `block_on`, the tasks on the workers, and for `map_blocking` the closures on the
   threads of the blocking pool.

   Correspondence (Rust ↔ Lean):
     `set.spawn(..)`, `set.join_next().await`, `?`, drop of `set` ↔ `JoinSet.step`
     `spawn_blocking(..)`, its closure's return                  ↔ `.submit`, `.close`
     `.await` on the closure                                     ↔ `BlockingCall.permits`

   Main results: `run_concurrent_runs` and `map_blocking_runs`. In every interleaving the
   methods return what `runConcurrent` and `mapBlocking` give for some order of the tasks,
   and leave no task running; under every fair schedule they return. A closure of
   `map_blocking` that was submitted is never withdrawn, so it can outlive a call that
   fails, but not one that succeeds. -/
namespace FerroIo
open JoinOrder

/-! ## `run_concurrent` -/

def runConcurrentStep (items : List UInt64) (failure : ℕ → Option JoinError)
    (p : JoinSet.Pool TaskError (ℕ × UInt64)) :
    JoinSet.Event → JoinSet.Pool TaskError (ℕ × UInt64) :=
  JoinSet.step (squareTasks items failure) mapErr p

/-- The call after the events. -/
def concurrentCall (items : List UInt64) (failure : ℕ → Option JoinError)
    (es : List JoinSet.Event) : JoinSet.Pool TaskError (ℕ × UInt64) :=
  EventRun.run (runConcurrentStep items failure) JoinSet.start es

/-- What the caller is given, for what the loop gave. -/
def indexedResult (p : JoinSet.Pool TaskError (ℕ × UInt64)) :
    Option (Except PyErr (List UInt64)) :=
  p.returned.map fun collected => (collected.map inOrder).mapError PyErr.ofTaskError

/-! ## `map_blocking` -/

/-- A closure on its way through the blocking pool. -/
inductive Closure where
  | waiting
  | submitted
  | done
  deriving DecidableEq, Repr

structure BlockingCall where
  pool : JoinSet.Pool TaskError (ℕ × UInt64)
  /-- One for each item. -/
  closures : List Closure

inductive BlockingEvent where
  | pool (e : JoinSet.Event)
  /-- The first poll of a task submits its closure. -/
  | submit (i : ℕ)
  /-- A closure returns, or panics. -/
  | close (i : ℕ)
  deriving DecidableEq, Repr

def BlockingCall.init (items : List UInt64) : BlockingCall :=
  { pool := JoinSet.start, closures := List.replicate items.length .waiting }

/-- A task that does not fail by itself waits for its closure. -/
def BlockingCall.permits (failure : ℕ → Option JoinError) (s : BlockingCall) :
    JoinSet.Event → Bool
  | .finish i => s.closures[i]? = some .done || (failure i).isSome
  | _ => true

def mapBlockingStep (items : List UInt64) (iterations : UInt64)
    (failure blockingFailure : ℕ → Option JoinError) (s : BlockingCall) :
    BlockingEvent → BlockingCall
  | .pool e =>
    if s.permits failure e then
      let tasks := blockingTasks items iterations failure blockingFailure
      { s with pool := JoinSet.step tasks mapErrTwice s.pool e }
    else s
  | .submit i =>
    if (s.pool.tasks[i]? = some .running ∨ s.pool.tasks[i]? = some .aborting) ∧
        s.closures[i]? = some .waiting then
      { s with closures := s.closures.set i .submitted }
    else s
  | .close i =>
    if s.closures[i]? = some .submitted then { s with closures := s.closures.set i .done } else s

def blockingCall (items : List UInt64) (iterations : UInt64)
    (failure blockingFailure : ℕ → Option JoinError) (es : List BlockingEvent) : BlockingCall :=
  EventRun.run (mapBlockingStep items iterations failure blockingFailure) (.init items) es

/-- Collected values in the order of their numbers. -/
theorem indexedResult_of_perm {p : JoinSet.Pool TaskError (ℕ × UInt64)}
    (out sorted : List (ℕ × UInt64)) (hreturned : p.returned = some (.ok out))
    (hsorted : sorted.Pairwise fun a b => a.1 < b.1) (hperm : out.Perm sorted) :
    indexedResult p = some (.ok (sorted.map Prod.snd)) := by
  rw [indexedResult, hreturned, Option.map_some, Except.map, inOrder,
    sortByKey_of_perm hsorted hperm]
  rfl

/-! ## What every interleaving returns -/

/-- What `run_concurrent` does in every interleaving: it returns what the loop gives for
some order of the tasks, leaves no task running, and returns in the end. -/
theorem run_concurrent_runs (items : List UInt64) (failure : ℕ → Option JoinError) :
    (∀ es r, indexedResult (concurrentCall items failure es) = some r →
      (∃ set : Delivery (squareTasks items failure), r = runConcurrent set) ∧
      JoinSet.Phase.running ∉ (concurrentCall items failure es).tasks ∧
      ∀ out, r = .ok out → ∀ i < items.length,
        (concurrentCall items failure es).tasks[i]? = some .joined) ∧
    ∀ schedule, EventRun.Fair (runConcurrentStep items failure) JoinSet.start schedule →
      ∃ t r, indexedResult
        (EventRun.after (runConcurrentStep items failure) JoinSet.start schedule t) = some r := by
  constructor
  · intro es r hr
    have h := JoinSet.run_sound (squareTasks items failure) mapErr es
    obtain ⟨collected, hcollected, rfl⟩ := Option.map_eq_some_iff.mp hr
    obtain ⟨set, -, hset⟩ := h.returned_delivery hcollected
    obtain ⟨hquiet, hjoined⟩ := h.settled_of_returned hcollected
    refine ⟨⟨set, by rw [hset]; rfl⟩, hquiet, fun out hout i hi => ?_⟩
    cases collected with
    | error e => cases hout
    | ok xs => exact hjoined xs rfl i (by simpa [squareTasks] using hi)
  · intro schedule hfair
    obtain ⟨t, r, hr⟩ := JoinSet.eventually_returned _ _ hfair
    exact ⟨t, _, Option.map_eq_some_iff.mpr ⟨r, hr, rfl⟩⟩

/-- The second of two tasks ends first, and the squares come in the order of the items; and
a fair schedule, under which the call returns. -/
theorem run_concurrent_completes :
    (∃ es, indexedResult (concurrentCall [3, 4] (fun _ => none) es) = some (.ok [9, 16]) ∧
      (∃ set : Delivery (squareTasks [3, 4] fun _ => none), .ok [9, 16] = runConcurrent set) ∧
      (concurrentCall [3, 4] (fun _ => none) es).tasks[0]? = some .joined) ∧
    ∃ schedule, EventRun.Fair (runConcurrentStep [3, 4] fun _ => none) JoinSet.start schedule ∧
      ∃ t r, indexedResult
        (EventRun.after (runConcurrentStep [3, 4] fun _ => none) JoinSet.start schedule t) =
          some r := by
  have hruns := run_concurrent_runs [3, 4] fun _ => none
  constructor
  · let es : List JoinSet.Event :=
      [.spawn, .spawn, .finish 1, .join 1, .finish 0, .join 0, .empty]
    have hresult : indexedResult (concurrentCall [3, 4] (fun _ => none) es) =
        some (.ok [9, 16]) :=
      indexedResult_of_perm [(1, 16), (0, 9)] [(0, 9), (1, 16)] (by decide) (by decide)
        (.swap _ _ _)
    obtain ⟨hset, -, hjoined⟩ := hruns.1 es _ hresult
    exact ⟨es, hresult, hset, hjoined _ rfl 0 (by decide)⟩
  · have : Nonempty JoinSet.Event := ⟨.empty⟩
    obtain ⟨schedule, hfair⟩ := EventRun.exists_fair
      (runConcurrentStep [3, 4] fun _ => none) JoinSet.start
    exact ⟨schedule, hfair, hruns.2 schedule hfair⟩

/-! ## The closures of `map_blocking` -/

/-- A task that has ended has its closure's result, unless it failed by itself. -/
structure BlockingCall.Sound (items : List UInt64) (iterations : UInt64)
    (failure blockingFailure : ℕ → Option JoinError) (s : BlockingCall) : Prop where
  pool : JoinSet.Sound (blockingTasks items iterations failure blockingFailure) mapErrTwice s.pool
  closures : s.closures.length = items.length
  ended : ∀ i, JoinSet.Over s.pool i → s.closures[i]? = some .done ∨ failure i ≠ none

section
variable {items : List UInt64} {iterations : UInt64}
  {failure blockingFailure : ℕ → Option JoinError} {s : BlockingCall} {i j : ℕ}

theorem getElem?_set_done {cs : List Closure} {c c' : Closure} (hi : cs[i]? = some c)
    (hne : c ≠ .done) (hj : cs[j]? = some .done) : (cs.set i c')[j]? = some .done := by
  by_cases hij : i = j
  · subst hij
    rw [hi] at hj
    exact absurd (Option.some.inj hj) hne
  · rw [List.getElem?_set_ne hij, hj]

/-- A closure that is not done yet moves on. -/
theorem BlockingCall.Sound.move (h : s.Sound items iterations failure blockingFailure)
    {c : Closure} (c' : Closure) (hi : s.closures[i]? = some c) (hne : c ≠ .done) :
    BlockingCall.Sound items iterations failure blockingFailure
      { s with closures := s.closures.set i c' } where
  pool := h.pool
  closures := by simpa using h.closures
  ended := fun j hj => (h.ended j hj).imp (getElem?_set_done hi hne) id

theorem blocking_step_sound (h : s.Sound items iterations failure blockingFailure)
    (e : BlockingEvent) :
    (mapBlockingStep items iterations failure blockingFailure s e).Sound items iterations failure
      blockingFailure := by
  cases e with
  | pool e =>
    simp only [mapBlockingStep]
    split
    · next hpermits =>
      refine ⟨JoinSet.step_sound h.pool e, h.closures, fun i hi => ?_⟩
      rcases JoinSet.step_move (blockingTasks items iterations failure blockingFailure) mapErrTwice
        s.pool e with hsame | hmove
      · rw [hsame] at hi
        exact h.ended i hi
      · rcases hmove.over hi with hover | rfl
        · exact h.ended i hover
        · -- the end of a task is permitted when its closure is done, or when it failed
          simpa [BlockingCall.permits, Option.isSome_iff_ne_none] using hpermits
    · exact h
  | submit i =>
    simp only [mapBlockingStep]
    split
    · next hi => exact h.move .submitted hi.2 (by decide)
    · exact h
  | close i =>
    simp only [mapBlockingStep]
    split
    · next hi => exact h.move .done hi (by decide)
    · exact h

theorem blocking_init_sound (items : List UInt64) (iterations : UInt64)
    (failure blockingFailure : ℕ → Option JoinError) :
    (BlockingCall.init items).Sound items iterations failure blockingFailure where
  pool := JoinSet.start_sound _ _
  closures := by simp [BlockingCall.init]
  ended := by simp [JoinSet.Over, BlockingCall.init, JoinSet.start]

theorem blocking_run_sound (items : List UInt64) (iterations : UInt64)
    (failure blockingFailure : ℕ → Option JoinError) (es : List BlockingEvent) :
    (blockingCall items iterations failure blockingFailure es).Sound items iterations failure
      blockingFailure :=
  EventRun.run_inv (I := BlockingCall.Sound items iterations failure blockingFailure)
    (fun _ e h => blocking_step_sound h e) (blocking_init_sound _ _ _ _) es

/-- A closure that was submitted stays so until it is done. -/
def Underway (c : Option Closure) : Prop := c = some .submitted ∨ c = some .done

theorem underway_set {c' : Closure} (hc' : Underway (some c')) (hj : Underway s.closures[j]?) :
    Underway (s.closures.set i c')[j]? := by
  rw [List.getElem?_set]
  split
  · split
    · exact hc'
    · next hij hlt =>
      rw [← hij, List.getElem?_eq_none (Nat.le_of_not_lt hlt)] at hj
      exact hj
  · exact hj

theorem underway_step (hj : Underway s.closures[j]?) (e : BlockingEvent) :
    Underway (mapBlockingStep items iterations failure blockingFailure s e).closures[j]? := by
  cases e with
  | pool e =>
    simp only [mapBlockingStep]
    split <;> exact hj
  | submit i =>
    simp only [mapBlockingStep]
    split
    · exact underway_set (.inl rfl) hj
    · exact hj
  | close i =>
    simp only [mapBlockingStep]
    split
    · exact underway_set (.inr rfl) hj
    · exact hj

theorem underway_run (hj : Underway s.closures[j]?) (es : List BlockingEvent) :
    Underway (EventRun.run (mapBlockingStep items iterations failure blockingFailure) s
      es).closures[j]? :=
  EventRun.run_inv (I := fun s : BlockingCall => Underway s.closures[j]?)
    (fun _ e h => underway_step h e) hj es

/-! ## `map_blocking` returns -/

def Closure.weight : Closure → ℕ
  | .waiting => 2
  | .submitted => 1
  | .done => 0

/-- Steps still to come, at most. -/
def BlockingCall.measure (n : ℕ) (s : BlockingCall) : ℕ :=
  JoinSet.measure n s.pool + JoinSet.total Closure.weight s.closures

theorem blocking_step_measure (s : BlockingCall) (e : BlockingEvent) :
    mapBlockingStep items iterations failure blockingFailure s e = s ∨
      (mapBlockingStep items iterations failure blockingFailure s e).measure items.length <
        s.measure items.length := by
  have hlength : (blockingTasks items iterations failure blockingFailure).length =
      items.length := by
    simp [blockingTasks]
  cases e with
  | pool e =>
    simp only [mapBlockingStep]
    split
    · rcases JoinSet.step_measure (blockingTasks items iterations failure blockingFailure)
        mapErrTwice s.pool e with hsame | hlower
      · rw [hsame]
        exact .inl rfl
      · rw [hlength] at hlower
        exact .inr (Nat.add_lt_add_right hlower _)
    · exact .inl rfl
  | submit i =>
    simp only [mapBlockingStep]
    split
    · next hi =>
      have hset := JoinSet.total_set Closure.weight hi.2 .submitted
      simp only [BlockingCall.measure, Closure.weight] at hset ⊢
      omega
    · exact .inl rfl
  | close i =>
    simp only [mapBlockingStep]
    split
    · next hi =>
      have hset := JoinSet.total_set Closure.weight hi .done
      simp only [BlockingCall.measure, Closure.weight] at hset ⊢
      omega
    · exact .inl rfl

/-- Until the method returns, a task, a closure or the loop can go on. -/
theorem blocking_progress (h : s.Sound items iterations failure blockingFailure)
    (hnone : s.pool.returned = none) :
    ∃ e, mapBlockingStep items iterations failure blockingFailure s e ≠ s := by
  obtain ⟨e, he⟩ := h.pool.progress hnone
  by_cases hpermits : s.permits failure e
  · refine ⟨.pool e, fun hsame => he ?_⟩
    simp only [mapBlockingStep, hpermits, if_true] at hsame
    exact congrArg BlockingCall.pool hsame
  · -- a task that runs, and still waits for its closure
    obtain ⟨i, rfl, hruns, hwaits⟩ : ∃ i, e = .finish i ∧
        (s.pool.tasks[i]? = some .running ∨ s.pool.tasks[i]? = some .aborting) ∧
        s.closures[i]? ≠ some .done := by
      cases e with
      | finish i =>
        refine ⟨i, rfl, ?_, fun hdone => hpermits (by simp [BlockingCall.permits, hdone])⟩
        by_contra hruns
        exact he (if_neg hruns)
      | spawn | join i | stop i | empty => exact absurd rfl hpermits
    have hlt : i < items.length := by
      have hlen : i < s.pool.tasks.length := by
        rcases hruns with hi | hi <;> exact (List.getElem?_eq_some_iff.mp hi).1
      have hfits := h.pool.fits
      simp only [blockingTasks, List.length_map, List.length_zipIdx] at hfits
      omega
    have hi : i < s.closures.length := h.closures ▸ hlt
    have hmoves : ∀ c, s.closures[i]? ≠ some c → s.closures.set i c ≠ s.closures := by
      intro c hc hsame
      rw [← hsame, List.getElem?_set_self hi] at hc
      exact hc rfl
    have hget : s.closures[i]? = some s.closures[i] := List.getElem?_eq_getElem hi
    cases hc : s.closures[i] with
    | waiting =>
      rw [hc] at hget
      refine ⟨.submit i, fun hsame => hmoves .submitted (by simp [hget]) ?_⟩
      rw [mapBlockingStep, if_pos ⟨hruns, hget⟩] at hsame
      exact congrArg BlockingCall.closures hsame
    | submitted =>
      rw [hc] at hget
      refine ⟨.close i, fun hsame => hmoves .done (by simp [hget]) ?_⟩
      rw [mapBlockingStep, if_pos hget] at hsame
      exact congrArg BlockingCall.closures hsame
    | done => exact absurd (hc ▸ hget) hwaits

theorem blocking_eventually_returned {schedule : ℕ → BlockingEvent}
    (hfair : EventRun.Fair (mapBlockingStep items iterations failure blockingFailure)
      (.init items) schedule) :
    ∃ t r, (EventRun.after (mapBlockingStep items iterations failure blockingFailure)
      (.init items) schedule t).pool.returned = some r := by
  obtain ⟨t, ht⟩ := EventRun.eventually_of_fair
    (I := BlockingCall.Sound items iterations failure blockingFailure)
    (P := fun s => s.pool.returned ≠ none) (fun _ e h => blocking_step_sound h e)
    (fun s e _ => blocking_step_measure s e) (fun s h hP => blocking_progress h (not_not.mp hP))
    (blocking_init_sound _ _ _ _) hfair
  exact ⟨t, Option.ne_none_iff_exists'.mp ht⟩

end

/-- What `map_blocking` does in every interleaving. A call that returns values has run
every closure to its end; a closure that was submitted stays so until it is done, after
the call as well; and the call returns in the end. -/
theorem map_blocking_runs (items : List UInt64) (iterations : UInt64)
    (failure blockingFailure : ℕ → Option JoinError) :
    (∀ es r, indexedResult (blockingCall items iterations failure blockingFailure es).pool =
        some r →
      (∃ set : Delivery (blockingTasks items iterations failure blockingFailure),
        r = mapBlocking set) ∧
      JoinSet.Phase.running ∉
        (blockingCall items iterations failure blockingFailure es).pool.tasks ∧
      ∀ out, r = .ok out → ∀ i < items.length,
        (blockingCall items iterations failure blockingFailure es).closures[i]? = some .done) ∧
    (∀ (es es' : List BlockingEvent) (i : ℕ),
      Underway (blockingCall items iterations failure blockingFailure es).closures[i]? →
      Underway (blockingCall items iterations failure blockingFailure (es ++ es')).closures[i]?) ∧
    ∀ schedule, EventRun.Fair (mapBlockingStep items iterations failure blockingFailure)
        (.init items) schedule →
      ∃ t r, indexedResult
        (EventRun.after (mapBlockingStep items iterations failure blockingFailure) (.init items)
          schedule t).pool = some r := by
  refine ⟨fun es r hr => ?_, fun es es' i hi => ?_, fun schedule hfair => ?_⟩
  · have h := blocking_run_sound items iterations failure blockingFailure es
    obtain ⟨collected, hcollected, rfl⟩ := Option.map_eq_some_iff.mp hr
    obtain ⟨set, -, hset⟩ := h.pool.returned_delivery hcollected
    obtain ⟨hquiet, hjoined⟩ := h.pool.settled_of_returned hcollected
    have hresult : (collected.map inOrder).mapError PyErr.ofTaskError = mapBlocking set := by
      rw [hset]
      rfl
    refine ⟨⟨set, hresult⟩, hquiet, fun out hout i hi => ?_⟩
    have hover :
        JoinSet.Over (blockingCall items iterations failure blockingFailure es).pool i := by
      cases collected with
      | error e => cases hout
      | ok xs => exact .inr (hjoined xs rfl i (by simpa [blockingTasks] using hi))
    refine (h.ended i hover).resolve_right fun hfailed => ?_
    -- a task that failed by itself makes the call raise
    obtain ⟨j, -, e, -, he⟩ := (map_blocking_exact set).2 i hi (by simp [hfailed])
    rw [hresult, he] at hout
    cases hout
  · rw [blockingCall, EventRun.run_append]
    exact underway_run hi es'
  · obtain ⟨t, r, hr⟩ := blocking_eventually_returned hfair
    exact ⟨t, _, Option.map_eq_some_iff.mpr ⟨r, hr, rfl⟩⟩

/-- The second of two closures returns first, and the values come in the order of the items,
when both are done; and a fair schedule, under which the call returns. -/
theorem map_blocking_completes :
    (∃ es, indexedResult (blockingCall [3, 4] 2 (fun _ => none) (fun _ => none) es).pool =
        some (.ok [lcg (lcg 3), lcg (lcg 4)]) ∧
      (∃ set : Delivery (blockingTasks [3, 4] 2 (fun _ => none) fun _ => none),
        .ok [lcg (lcg 3), lcg (lcg 4)] = mapBlocking set) ∧
      (blockingCall [3, 4] 2 (fun _ => none) (fun _ => none) es).closures[0]? = some .done) ∧
    Underway (blockingCall [3, 4] 2 (fun _ => none) (fun _ => none)
      ([.pool .spawn, .submit 0] ++ [.close 0])).closures[0]? ∧
    ∃ schedule, EventRun.Fair (mapBlockingStep [3, 4] 2 (fun _ => none) fun _ => none)
        (.init [3, 4]) schedule ∧
      ∃ t r, indexedResult (EventRun.after
        (mapBlockingStep [3, 4] 2 (fun _ => none) fun _ => none) (.init [3, 4]) schedule t).pool =
          some r := by
  obtain ⟨hreturned, hkept, hfairly⟩ := map_blocking_runs [3, 4] 2 (fun _ => none) fun _ => none
  refine ⟨?_, hkept [.pool .spawn, .submit 0] [.close 0] 0 (.inl rfl), ?_⟩
  · let es : List BlockingEvent :=
      [.pool .spawn, .pool .spawn, .submit 0, .submit 1, .close 1, .pool (.finish 1),
        .pool (.join 1), .close 0, .pool (.finish 0), .pool (.join 0), .pool .empty]
    have hresult : indexedResult (blockingCall [3, 4] 2 (fun _ => none) (fun _ => none) es).pool =
        some (.ok [lcg (lcg 3), lcg (lcg 4)]) :=
      indexedResult_of_perm [(1, lcg (lcg 4)), (0, lcg (lcg 3))]
        [(0, lcg (lcg 3)), (1, lcg (lcg 4))] (by decide) (by decide) (.swap _ _ _)
    obtain ⟨hset, -, hdone⟩ := hreturned es _ hresult
    exact ⟨es, hresult, hset, hdone _ rfl 0 (by decide)⟩
  · have : Nonempty BlockingEvent := ⟨.submit 0⟩
    obtain ⟨schedule, hfair⟩ := EventRun.exists_fair
      (mapBlockingStep [3, 4] 2 (fun _ => none) fun _ => none) (.init [3, 4])
    exact ⟨schedule, hfair, hfairly schedule hfair⟩

/-- A closure can outlive the call: the first item's closure panics, and the call returns
the error while the second one's is still under way. -/
example :
    let s := blockingCall [3, 4] 2 (fun _ => none)
      (fun i => if i = 0 then some (.panic .other) else none)
      [.pool .spawn, .pool .spawn, .submit 0, .submit 1, .close 0, .pool (.finish 0),
        .pool (.join 0)];
    s.pool.returned.isSome ∧ s.pool.tasks = [.joined, .aborting] ∧
      s.closures = [.done, .submitted] := by
  decide

end FerroIo
