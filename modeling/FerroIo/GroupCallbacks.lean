import FerroIo.GroupAbort
import Mathlib.Algebra.BigOperators.Group.Finset.Basic
import Mathlib.Data.Finset.Card

/- What `_FastTaskGroup` saves: the bookkeeping of tasks that an eager factory returns
   finished.

   Main result: `callbacks_made`. In every state of every run the plain path has made
   exactly one done callback for each task it returned, and the fast path one for each but
   those that had finished with a value, and none for those; the edges of the await graph
   are those of the members, for both. -/
namespace FerroIo
namespace GroupState
variable {E : Type}

/-- Done callbacks made so far: registered, scheduled or run. -/
def callbacksMade (s : GroupState E) : ℕ :=
  s.registered.length + s.scheduled.length + s.ran.length

/-- Those of them that are for task `t`. -/
def callbacksOf (s : GroupState E) (t : TaskId) : ℕ :=
  s.registered.count t + s.scheduled.count t + s.ran.count t

/-- The tasks that the path has returned without a callback. -/
def skipped (path : Path) (s : GroupState E) : Finset TaskId :=
  match path with
  | .fast => s.eager
  | .plain => ∅

/-- One callback for each task, save those that were skipped. -/
structure Accounts (path : Path) (py : Asyncio E) (s : GroupState E) : Prop where
  each : ∀ t, s.callbacksOf t = if t < s.statuses.length ∧ t ∉ s.skipped path then 1 else 0
  eager : ∀ t ∈ s.eager, s.statuses[t]? = some (.done .value)
  edges : s.awaitedBy = if py.hasAwaitedBy then s.tasks else ∅

section
variable {py : Asyncio E} {path : Path} {s : GroupState E}

theorem lt_of_eager (h : s.Accounts path py) {t : TaskId} (ht : t ∈ s.eager) :
    t < s.statuses.length :=
  (List.getElem?_eq_some_iff.mp (h.eager t ht)).1

/-- The totals, from the tasks one by one. -/
theorem Accounts.made (h : s.Accounts path py) :
    s.callbacksMade + (s.skipped path).card = s.statuses.length := by
  let all := s.registered ++ s.scheduled ++ s.ran
  have hcount : ∀ t, all.count t = s.callbacksOf t := by
    intro t
    simp only [all, List.count_append, callbacksOf]
  have hskipped : s.skipped path ⊆ Finset.range s.statuses.length := by
    intro t ht
    cases path with
    | fast => exact Finset.mem_range.mpr (lt_of_eager h ht)
    | plain => cases ht
  have hall : all.toFinset = Finset.range s.statuses.length \ s.skipped path := by
    ext t
    rw [List.mem_toFinset, ← List.count_pos_iff, hcount, h.each, Finset.mem_sdiff,
      Finset.mem_range]
    split <;> simp_all
  have hlength : s.callbacksMade = all.toFinset.card := by
    calc s.callbacksMade
        = all.length := by simp only [all, List.length_append, callbacksMade]
      _ = ∑ t ∈ all.toFinset, all.count t := (List.sum_toFinset_count_eq_length all).symm
      _ = ∑ t ∈ all.toFinset, 1 := by
          refine Finset.sum_congr rfl fun t ht => ?_
          rw [hall, Finset.mem_sdiff, Finset.mem_range] at ht
          rw [hcount, h.each, if_pos ht]
      _ = all.toFinset.card := (Finset.card_eq_sum_ones _).symm
  have hcard := Finset.card_le_card hskipped
  rw [hlength, hall, Finset.card_sdiff_of_subset hskipped, Finset.card_range]
  rw [Finset.card_range] at hcard
  omega

/-- The bookkeeping at the end of `create_task` makes the one callback that is missing. -/
theorem accounts_track {t : TaskId} (ht : t < s.statuses.length) (hkept : t ∉ s.skipped path)
    (hmissing : s.callbacksOf t = 0)
    (heach : ∀ u, u ≠ t →
      s.callbacksOf u = if u < s.statuses.length ∧ u ∉ s.skipped path then 1 else 0)
    (heager : ∀ u ∈ s.eager, s.statuses[u]? = some (.done .value))
    (hedges : s.awaitedBy = if py.hasAwaitedBy then s.tasks else ∅) :
    (s.track py t).Accounts path py := by
  have hcount : ∀ u, (s.track py t).callbacksOf u =
      s.callbacksOf u + if u = t then 1 else 0 := by
    intro u
    have hone : [t].count u = if u = t then 1 else 0 := by
      rw [List.count_singleton]
      by_cases hut : u = t
      · simp [hut]
      · simp [hut, Ne.symm hut]
    rw [track_eq, ← hone]
    simp only [callbacksOf]
    cases s.isDone t
    · simp only [Bool.false_eq_true, if_false, List.count_append]
      omega
    · simp only [if_true, List.count_append]
      omega
  have hskipped : (s.track py t).skipped path = s.skipped path := by
    rw [track_eq]
    rfl
  have hstatuses : (s.track py t).statuses = s.statuses := by rw [track_eq]
  refine ⟨fun u => ?_, ?_, ?_⟩
  · rw [hcount, hskipped, hstatuses]
    by_cases hu : u = t
    · rw [hu, hmissing, if_pos rfl, if_pos ⟨ht, hkept⟩]
    · rw [heach u hu, if_neg hu, Nat.add_zero]
  · rw [track_eq]
    exact heager
  · rw [track_eq, hedges]
    cases py.hasAwaitedBy <;> rfl

theorem accounts_spawned (h : s.Accounts path py) (st : TaskStatus E) :
    (s.spawned path py st).Accounts path py := by
  have hsucceeded : (s.handOut st).succeeded s.statuses.length = st.isValue := by
    refine (status_of_last ?_).2
    rw [handOut_eq]
  have hstatuses : (s.handOut st).statuses = s.statuses ++ [st] := by rw [handOut_eq]
  have hlength : (s.handOut st).statuses.length = s.statuses.length + 1 := by
    rw [hstatuses, List.length_append, List.length_singleton]
  have hcallbacks : (s.handOut st).callbacksOf = s.callbacksOf := by
    rw [handOut_eq]
    rfl
  have hnew : (s.handOut st).callbacksOf s.statuses.length = 0 := by
    rw [hcallbacks, h.each, if_neg fun hlt => Nat.lt_irrefl _ hlt.1]
  have hmem : ∀ t, t ∈ (s.handOut st).eager ↔
      t ∈ s.eager ∨ st.isValue = true ∧ t = s.statuses.length := by
    intro t
    rw [handOut_eq]
    change t ∈ (if st.isValue then insert s.statuses.length s.eager else s.eager) ↔ _
    cases st.isValue
    · simp
    · simp [or_comm]
  have heager : ∀ t ∈ (s.handOut st).eager,
      (s.handOut st).statuses[t]? = some (.done .value) := by
    intro t ht
    rw [hstatuses]
    rcases (hmem t).mp ht with hold | ⟨hvalue, rfl⟩
    · rw [List.getElem?_append_left (lt_of_eager h hold)]
      exact h.eager t hold
    · rw [TaskStatus.eq_of_isValue hvalue, List.getElem?_concat_length]
  have hedges : (s.handOut st).awaitedBy = if py.hasAwaitedBy then (s.handOut st).tasks else ∅ := by
    rw [handOut_eq]
    exact h.edges
  have hold : ∀ t, t ≠ s.statuses.length → (s.handOut st).callbacksOf t =
      if t < (s.handOut st).statuses.length ∧ t ∉ (s.handOut st).skipped path then 1 else 0 := by
    intro t ht
    have hlt : t < s.statuses.length + 1 ↔ t < s.statuses.length := by omega
    have hskipped : t ∈ (s.handOut st).skipped path ↔ t ∈ s.skipped path := by
      cases path with
      | fast =>
        rw [skipped, hmem]
        simp [ht, skipped]
      | plain => exact Iff.rfl
    rw [hcallbacks, h.each, hlength]
    simp only [hlt, hskipped]
  have hlast : s.statuses.length < (s.handOut st).statuses.length := by
    rw [hlength]
    exact Nat.lt_succ_self _
  cases path with
  | plain => exact accounts_track hlast (by simp [skipped]) hnew hold heager hedges
  | fast =>
    simp only [spawned, keep, hsucceeded]
    split
    · next hvalue =>
      -- returned early: no callback is made
      refine ⟨fun t => ?_, heager, hedges⟩
      by_cases ht : t = s.statuses.length
      · have hskip : t ∈ (s.handOut st).skipped .fast := (hmem t).mpr (.inr ⟨hvalue, ht⟩)
        rw [ht] at hskip ⊢
        rw [hnew, if_neg fun hkept => hkept.2 hskip]
      · exact hold t ht
    · next hvalue =>
      refine accounts_track hlast ?_ hnew hold heager hedges
      rw [skipped, hmem]
      rintro (hmem | ⟨hvalue', _⟩)
      · exact Nat.lt_irrefl _ (lt_of_eager h hmem)
      · exact hvalue hvalue'

theorem accounts_complete (h : s.Accounts path py) (t : TaskId) (o : Outcome E) :
    (s.complete t o).Accounts path py := by
  unfold complete
  split
  · next ht =>
    refine ⟨fun u => ?_, fun u hu => ?_, h.edges⟩
    · -- its callbacks are scheduled, those of the others stay registered
      have hsplit : s.registered.count u =
          (s.registered.filter (· == t)).count u + (s.registered.filter (· != t)).count u :=
        List.countP_eq_countP_filter_add s.registered (· == u) (· == t)
      change callbacksOf _ u =
        if u < (s.statuses.set t (.done o)).length ∧ u ∉ s.skipped path then 1 else 0
      rw [List.length_set, ← h.each u]
      simp only [callbacksOf, List.count_append]
      omega
    · have hne : t ≠ u := by
        rintro rfl
        have hvalue := h.eager t hu
        rw [ht] at hvalue
        cases hvalue
      change (s.statuses.set t (.done o))[u]? = _
      rw [List.getElem?_set_ne hne]
      exact h.eager u hu
  · exact h

theorem accounts_report (h : s.Accounts path py) (t : TaskId) :
    (s.report py t).Accounts path py := by
  obtain ⟨a, k, r, c, u, e, b, heq⟩ := report_eq py s t
  rw [heq]
  exact ⟨h.each, h.eager, h.edges⟩

theorem accounts_deliver (h : s.Accounts path py) (t : TaskId) :
    (s.deliver py t).Accounts path py := by
  by_cases ht : t ∈ s.scheduled
  · obtain ⟨b, hb⟩ := deliver_eq py ht
    rw [hb]
    apply accounts_report
    refine ⟨fun u => ?_, h.eager, ?_⟩
    · have hmoved : (s.scheduled.erase t).count u + (s.ran ++ [t]).count u =
          s.scheduled.count u + s.ran.count u := by
        rw [List.count_append, List.count_singleton]
        by_cases hut : u = t
        · have hpos : 0 < s.scheduled.count t := List.count_pos_iff.mpr ht
          rw [hut, List.count_erase_self, if_pos (by simp)]
          omega
        · rw [List.count_erase_of_ne hut, if_neg (by simpa using Ne.symm hut)]
          omega
      refine Eq.trans ?_ (h.each u)
      simp only [callbacksOf]
      omega
    · change s.awaitedBy.erase t = if py.hasAwaitedBy then s.tasks.erase t else ∅
      rw [h.edges]
      split <;> rfl
  · rw [deliver, if_neg ht]
    exact h

theorem accounts_step (h : s.Accounts path py) (e : GroupEvent E) :
    (s.step path py e).Accounts path py := by
  cases e with
  | enter | abort => exact ⟨h.each, h.eager, h.edges⟩
  | call =>
    simp only [step, call]
    split <;> exact ⟨h.each, h.eager, h.edges⟩
  | spawned st =>
    simp only [step]
    split
    · exact accounts_spawned h st
    · exact h
  | complete t o => exact accounts_complete h t o
  | deliver t => exact accounts_deliver h t
  | startExit exc =>
    obtain ⟨a, k, b, f, heq, -⟩ := startExit_eq py s exc
    rw [step, heq]
    exact ⟨h.each, h.eager, h.edges⟩
  | wake =>
    obtain ⟨b, hb⟩ := wake_eq s
    rw [step, hb]
    exact ⟨h.each, h.eager, h.edges⟩

end

/-- How many done callbacks each task of a group has cost, and all of them, in every run. -/
theorem callbacks_made (path : Path) (py : Asyncio E) (parentDone : Bool)
    (es : List (GroupEvent E)) :
    let s := EventRun.run (step path py) (init E parentDone) es
    (∀ t, s.callbacksOf t = if t < s.statuses.length ∧ t ∉ s.skipped path then 1 else 0) ∧
    s.callbacksMade + (s.skipped path).card = s.statuses.length ∧
    (∀ t ∈ s.eager, s.statuses[t]? = some (.done .value)) ∧
    s.awaitedBy = if py.hasAwaitedBy then s.tasks else ∅ := by
  intro s
  have h : s.Accounts path py :=
    EventRun.run_inv (I := Accounts path py) (fun _ e h => accounts_step h e)
      ⟨by simp [init, callbacksOf], by simp [init], by simp [init]⟩ es
  exact ⟨h.each, h.made, h.eager, h.edges⟩

/-- Two tasks, one of them returned finished: one callback with the fast path, two with the
plain one. -/
example :
    let run := fun path => EventRun.run (step path
      { hasAwaitedBy := true, isBaseError := fun _ => false }) (init Nat false)
      [.enter, .call, .spawned (.done .value), .call, .spawned .pending]
    (run .fast).callbacksMade = 1 ∧ (run .plain).callbacksMade = 2 := by
  decide

end GroupState
end FerroIo
