import FerroIo.GroupLedger

/- No task and no exception is lost in `_FastTaskGroup`: the ledger's
   invariant, read back on the group. The exit wait can end when the group is
   exiting and `_tasks` is empty; every task is then finished, and `_errors` is
   exactly the list of exceptions of the failed ones, in the order in which the
   callback ran on them. -/
namespace FerroIo
namespace GroupState
variable {E : Type}

/-- Callbacks of task `t` that are still to run: registered on it, or scheduled. -/
def callbacks (s : GroupState E) (t : TaskId) : Nat := s.registered.count t + s.scheduled.count t

/-- Task `t` is not lost: it has finished with a value, or is a member with one
    callback to come, or its callback has run once. -/
def Accounted (s : GroupState E) (t : TaskId) : Prop :=
  s.statuses[t]? = some (.done .value) ∨
  (t ∈ s.tasks ∧ s.callbacks t = 1 ∧ s.ran.count t = 0) ∨
  (s.ran.count t = 1 ∧ s.callbacks t = 0)

/-- The exit wait can end. -/
def waitEnds (s : GroupState E) : Bool := s.exiting && s.tasks = ∅

section
variable {path : Path} {s : GroupState E}

theorem accounted_of_sound (h : s.ledger.Sound path) {t : TaskId} (ht : t < s.statuses.length) :
    s.Accounted t := by
  have hk := h.kept t
  simp only [Ledger.Kept, ledger, List.getElem?_eq_getElem ht] at hk
  simp only [Accounted, callbacks, List.getElem?_eq_getElem ht]
  cases hst : s.statuses[t] with
  | pending =>
    rw [hst] at hk
    obtain ⟨hm, hr, hs, hn⟩ := hk
    exact .inr (.inl ⟨hm, by omega, hn⟩)
  | done o =>
    rw [hst] at hk
    obtain ⟨hr, ⟨hm, hs, hn⟩ | ⟨-, hs, hn⟩ | ⟨-, -, -, -, ho⟩⟩ := hk
    · exact .inr (.inl ⟨hm, by omega, hn⟩)
    · exact .inr (.inr ⟨hn, by omega⟩)
    · exact .inl (by rw [ho])

/-- A task that is no member is done, and if it failed its error was collected. -/
theorem finished_of_not_member (h : s.ledger.Sound path) {t : TaskId}
    (ht : t < s.statuses.length) (hm : t ∉ s.tasks) :
    s.isDone t = true ∧ ∀ exc, s.exception t = some exc → exc ∈ s.errors := by
  have hk := h.kept t
  simp only [Ledger.Kept, ledger, List.getElem?_eq_getElem ht] at hk
  cases hst : s.statuses[t] with
  | pending =>
    rw [hst] at hk
    exact absurd hk.1 hm
  | done o =>
    rw [hst] at hk
    have hget : s.statuses[t]? = some (.done o) := by rw [List.getElem?_eq_getElem ht, hst]
    refine ⟨by simp only [isDone, hget], ?_⟩
    intro exc hexc
    obtain ⟨-, ⟨hm', -⟩ | ⟨-, -, hn⟩ | ⟨-, -, -, -, ho⟩⟩ := hk
    · exact absurd hm' hm
    · have hran : t ∈ s.ran := List.count_pos_iff.mp (by omega)
      have herr : s.errors = s.ran.filterMap s.ledger.exception := h.errors
      rw [herr, List.mem_filterMap]
      exact ⟨t, hran, by rw [← exception_eq_ledger]; exact hexc⟩
    · simp [exception, hget, ho] at hexc

end

/-- In every state a fast group reaches, no task that `create_task` returned is
    lost, and when the exit wait can end every one of them is finished and the
    exception of each failed one is in `_errors`. -/
theorem no_lost_task (py : Asyncio E) (parentDone : Bool) (es : List (GroupEvent E)) :
    let s := EventRun.run (step .fast py) (init E parentDone) es
    (∀ t < s.statuses.length, s.Accounted t) ∧
      (s.waitEnds = true → ∀ t < s.statuses.length,
        s.isDone t = true ∧ ∀ exc, s.exception t = some exc → exc ∈ s.errors) := by
  intro s
  have h : s.ledger.Sound .fast := run_sound .fast py parentDone es
  refine ⟨fun t ht => accounted_of_sound h ht, ?_⟩
  intro hw t ht
  have htasks : s.tasks = ∅ := by
    simp only [waitEnds, Bool.and_eq_true, decide_eq_true_eq] at hw
    exact hw.2
  exact finished_of_not_member h ht (by simp [htasks])

/-- A task that failed while it was being created, and a sibling that the abort
    cancelled: the exit wait ends with the one exception. -/
example :
    let s := EventRun.run (step .fast { hasAwaitedBy := true, isBaseError := fun _ => false })
      (init Nat false) [.enter, .call, .spawned .pending, .call, .spawned (.done (.exception 3)),
        .startExit none, .deliver 1, .complete 0 .cancelled, .deliver 0]
    s.waitEnds = true ∧ s.errors = [3] ∧ s.cancelled = {0} := by decide

/-- No exception is repeated either: each callback adds at most its own task's,
    so there are at most as many errors as tasks. -/
theorem errors_le_tasks (path : Path) (py : Asyncio E) (parentDone : Bool)
    (es : List (GroupEvent E)) :
    let s := EventRun.run (step path py) (init E parentDone) es
    s.errors.length ≤ s.statuses.length := by
  intro s
  have h : s.ledger.Sound path := run_sound path py parentDone es
  have hnodup : s.ran.Nodup := by
    rw [List.nodup_iff_count_le_one]
    intro t
    have hk := h.kept t
    simp only [Ledger.Kept] at hk
    split at hk
    · have : s.ran.count t = 0 := hk.2.2.2
      omega
    · have : s.ran.count t = 0 := hk.2.2.2
      omega
    · obtain ⟨-, ⟨-, -, hn⟩ | ⟨-, -, hn⟩ | ⟨-, -, hn, -⟩⟩ := hk
      all_goals
        have hn' : s.ran.count t = _ := hn
        omega
  have hbound : ∀ t ∈ s.ran, t < s.statuses.length := by
    intro t ht
    obtain ⟨o, ho⟩ := Ledger.done_of_ran (h.kept t) ht
    exact (List.getElem?_eq_some_iff.mp ho).1
  have hsub : s.ran.Subperm (List.range s.statuses.length) := by
    apply List.subperm_of_subset hnodup
    intro t ht
    exact List.mem_range.mpr (hbound t ht)
  have herr : s.errors = s.ran.filterMap s.ledger.exception := h.errors
  calc s.errors.length = (s.ran.filterMap s.ledger.exception).length := by rw [herr]
    _ ≤ s.ran.length := List.length_filterMap_le _ _
    _ ≤ (List.range s.statuses.length).length := hsub.length_le
    _ = s.statuses.length := List.length_range

end GroupState
end FerroIo
