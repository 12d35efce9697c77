import FerroIo.GroupLedger
import Mathlib.Data.Finset.Lattice.Lemmas

/- The fast path against the plain one. Both groups take the same events in
   lockstep. The plain group has everything the fast one has, and on top of it the
   tasks that had finished with a value before `create_task` returned, until
   their callback is delivered (`undelivered`). `Simulates` is that relation; it
   is kept by every step except a `call` that the two groups decide differently,
   and `diverges_iff` says which call that is: the group is exiting, is not
   aborting, and has no members but undelivered ones. -/
namespace FerroIo
namespace GroupState
variable {E : Type}

/-- The tasks that had finished with a value when the factory returned them and
    whose callback group `p` has still to run. -/
def undelivered (p : GroupState E) : Finset TaskId := p.eager.filter (· ∈ p.scheduled)

/-- The fast group `f` and the plain group `p` agree. -/
structure Simulates (f p : GroupState E) : Prop where
  entered : f.entered = p.entered
  exiting : f.exiting = p.exiting
  aborting : f.aborting = p.aborting
  parentCancelRequested : f.parentCancelRequested = p.parentCancelRequested
  tasks : p.tasks = f.tasks ∪ p.undelivered
  disjoint : Disjoint f.tasks p.undelivered
  errors : f.errors = p.errors
  baseError : f.baseError = p.baseError
  cancelled : f.cancelled = p.cancelled
  /-- the edges between unfinished members and the parent -/
  awaitedBy : ∀ t, f.isDone t = false → (t ∈ f.awaitedBy ↔ t ∈ p.awaitedBy)
  parentDone : f.parentDone = p.parentDone
  parentCancels : f.parentCancels = p.parentCancels
  statuses : f.statuses = p.statuses
  registered : f.registered = p.registered
  scheduled : ∀ t ∉ f.eager, f.scheduled.count t = p.scheduled.count t
  eager : f.eager = p.eager
  /-- the fast group keeps no line for an eager task, which has a value -/
  skipped : ∀ t ∈ f.eager, t ∉ f.tasks ∧ f.scheduled.count t = 0 ∧
    f.statuses[t]? = some (.done .value)
  creating : f.creating = p.creating

/-- The two groups have accepted the same calls and refused the same calls. -/
def SameDecisions (f p : GroupState E) : Prop :=
  f.decisions.map Option.isNone = p.decisions.map Option.isNone

namespace Simulates
variable {f p : GroupState E}

theorem isDone (h : Simulates f p) (t : TaskId) : f.isDone t = p.isDone t := by
  simp only [GroupState.isDone, h.statuses]

theorem isCancelled (h : Simulates f p) (t : TaskId) : f.isCancelled t = p.isCancelled t := by
  simp only [GroupState.isCancelled, h.statuses]

theorem exception (h : Simulates f p) (t : TaskId) : f.exception t = p.exception t := by
  simp only [GroupState.exception, h.statuses]

theorem eager_of_undelivered (h : Simulates f p) {t : TaskId} (ht : t ∈ p.undelivered) :
    t ∈ f.eager := by
  rw [h.eager]
  exact (Finset.mem_filter.mp ht).1

/-- A step that leaves the plain group with the same undelivered tasks. -/
theorem same_tasks (h : Simulates f p) {eager : Finset TaskId} {scheduled : List TaskId}
    (hund : eager.filter (· ∈ scheduled) = p.undelivered) :
    p.tasks = f.tasks ∪ eager.filter (· ∈ scheduled) ∧
      Disjoint f.tasks (eager.filter (· ∈ scheduled)) := by
  rw [hund]
  exact ⟨h.tasks, h.disjoint⟩

/-- The undelivered tasks are done, so an abort cancels the same members. -/
theorem victims (h : Simulates f p) :
    f.tasks.filter (fun t => !f.isDone t) = p.tasks.filter (fun t => !p.isDone t) := by
  have hnone : p.undelivered.filter (fun t => !p.isDone t) = ∅ := by
    rw [Finset.filter_eq_empty_iff]
    intro t ht
    have hst := (h.skipped t (h.eager_of_undelivered ht)).2.2
    simp [GroupState.isDone, ← h.statuses, hst]
  rw [h.tasks, Finset.filter_union, hnone, Finset.union_empty]
  exact Finset.filter_congr fun t _ => by rw [h.isDone t]

theorem abort (h : Simulates f p) : Simulates f.abort p.abort :=
  { h with
    aborting := rfl
    cancelled := by
      show f.cancelled ∪ _ = p.cancelled ∪ _
      rw [h.cancelled, h.victims] }

theorem noteBaseError (py : Asyncio E) (h : Simulates f p) (exc : E) :
    Simulates (f.noteBaseError py exc) (p.noteBaseError py exc) := by
  simp only [GroupState.noteBaseError, h.baseError]
  split
  · exact { h with baseError := rfl }
  · exact h

theorem escalate (h : Simulates f p) (t : TaskId) :
    Simulates (f.escalate t) (p.escalate t) := by
  have hfirst : (!p.aborting && !p.parentCancelRequested) =
      (!f.aborting && !f.parentCancelRequested) := by rw [h.aborting, h.parentCancelRequested]
  simp only [GroupState.escalate, hfirst, ← h.parentDone]
  split
  · exact { h with parentDone := rfl }
  · split
    · exact { h.abort with
        parentCancelRequested := rfl
        parentCancels := congrArg (· + 1) h.parentCancels }
    · exact h

theorem report (py : Asyncio E) (h : Simulates f p) (t : TaskId) :
    Simulates (f.report py t) (p.report py t) := by
  simp only [GroupState.report, h.isCancelled t, h.exception t, h.errors]
  split
  · exact h
  · split
    · exact h
    · next exc _ =>
      have hc : Simulates { f with errors := p.errors ++ [exc] }
          { p with errors := p.errors ++ [exc] } := { h with errors := rfl }
      exact (hc.noteBaseError py exc).escalate t

/-- The relation does not look at the future the exit waits on. -/
theorem fut (h : Simulates f p) (b c : Option Bool) :
    Simulates { f with onCompletedFut := b } { p with onCompletedFut := c } := { h with }

theorem waitForTasks (h : Simulates f p) : Simulates f.waitForTasks p.waitForTasks := by
  obtain ⟨b, hb⟩ := waitForTasks_eq f
  obtain ⟨c, hc⟩ := waitForTasks_eq p
  rw [hb, hc]
  exact h.fut b c

theorem startExit (py : Asyncio E) (h : Simulates f p) (exc : Option E) :
    Simulates (f.startExit py exc) (p.startExit py exc) := by
  have hx : Simulates { f with exiting := true } { p with exiting := true } :=
    { h with exiting := rfl }
  simp only [GroupState.startExit]
  apply waitForTasks
  cases exc with
  | none => exact hx
  | some e =>
    have hb := hx.noteBaseError py e
    simp only [hb.aborting]
    split
    · exact hb.abort
    · exact hb

theorem wake (h : Simulates f p) : Simulates f.wake p.wake := by
  obtain ⟨b, hb⟩ := wake_eq f
  obtain ⟨c, hc⟩ := wake_eq p
  rw [hb, hc]
  exact h.fut b c

theorem complete (h : Simulates f p) (t : TaskId) (o : Outcome E) :
    Simulates (f.complete t o) (p.complete t o) := by
  cases hst : f.statuses[t]? with
  | none => simpa only [GroupState.complete, ← h.statuses, hst] using h
  | some st =>
    cases st with
    | done o' => simpa only [GroupState.complete, ← h.statuses, hst] using h
    | pending =>
      -- a pending task is no eager one, and the lists of callbacks change alike
      have hne : ∀ u ∈ f.eager, u ≠ t := by
        rintro u hu rfl
        rw [(h.skipped u hu).2.2] at hst
        cases hst
      have hmoved : ∀ u ∈ f.eager, (p.registered.filter (· == t)).count u = 0 := by
        intro u hu
        rw [List.count_eq_zero]
        simp [hne u hu]
      have hund : (p.eager.filter (· ∈ p.scheduled ++ p.registered.filter (· == t))) =
          p.undelivered := by
        refine Finset.filter_congr fun u hu => ?_
        have hu0 := List.count_eq_zero.mp (hmoved u (h.eager ▸ hu))
        simp only [List.mem_append]
        exact ⟨fun hm => hm.resolve_right hu0, .inl⟩
      simp only [GroupState.complete, ← h.statuses, hst, h.registered]
      exact { h with
        tasks := (h.same_tasks hund).1
        disjoint := (h.same_tasks hund).2
        awaitedBy := by
          intro u hu
          refine h.awaitedBy u ?_
          by_cases hut : t = u
          · subst hut
            simp only [GroupState.isDone, hst]
          · simpa only [GroupState.isDone, List.getElem?_set_ne hut] using hu
        statuses := by show f.statuses.set _ _ = f.statuses.set _ _; rfl
        registered := rfl
        scheduled := by
          intro u hu
          show (f.scheduled ++ _).count u = (p.scheduled ++ _).count u
          rw [List.count_append, List.count_append, h.scheduled u hu]
        skipped := by
          intro u hu
          obtain ⟨hm, hc, hv⟩ := h.skipped u hu
          refine ⟨hm, ?_, ?_⟩
          · show (f.scheduled ++ _).count u = 0
            rw [List.count_append, hc, hmoved u hu]
          · show (f.statuses.set t _)[u]? = _
            rw [List.getElem?_set_ne (hne u hu).symm, hv] }

/-- Delivering the callback of an eager task only happens in the plain group,
    where the task then leaves `_tasks` and nothing else changes. -/
theorem deliver_eager (py : Asyncio E) (h : Simulates f p) (hp : p.ledger.Sound .plain)
    {t : TaskId} (ht : t ∈ f.eager) : Simulates (f.deliver py t) (p.deliver py t) := by
  obtain ⟨hmem, hcount, hv⟩ := h.skipped t ht
  have hf : f.deliver py t = f := by
    rw [GroupState.deliver, if_neg (List.count_eq_zero.mp hcount)]
  rw [hf]
  by_cases hs : t ∈ p.scheduled
  · obtain ⟨o, -, -, -, hone, -⟩ := Ledger.kept_of_scheduled (hp.kept t) hs
    have hone : p.scheduled.count t = 1 := hone
    have hgone : (p.scheduled.erase t).count t = 0 := by rw [List.count_erase_self, hone]
    have hund : p.eager.filter (· ∈ p.scheduled.erase t) = p.undelivered.erase t := by
      ext u
      simp only [undelivered, Finset.mem_erase, Finset.mem_filter]
      by_cases hu : u = t
      · subst hu
        simp [List.count_eq_zero.mp hgone]
      · simp [hu, List.mem_erase_of_ne hu]
    have hnone : p.exception t = none := by simp only [GroupState.exception, ← h.statuses, hv]
    obtain ⟨b, hb⟩ := deliver_eq py hs
    rw [hb, report_of_no_exception py _ t (by exact hnone)]
    exact { h with
      tasks := by
        show p.tasks.erase t = f.tasks ∪ _
        rw [undelivered, hund, h.tasks, Finset.erase_union_distrib, Finset.erase_eq_of_notMem hmem]
      disjoint := by
        show Disjoint f.tasks _
        rw [undelivered, hund]
        exact Finset.disjoint_of_subset_right (Finset.erase_subset _ _) h.disjoint
      awaitedBy := by
        intro u hu
        have hne : u ≠ t := by
          rintro rfl
          simp only [GroupState.isDone, hv] at hu
          cases hu
        show _ ↔ u ∈ p.awaitedBy.erase t
        rw [Finset.mem_erase, h.awaitedBy u hu]
        exact ⟨fun hm => ⟨hne, hm⟩, And.right⟩
      scheduled := by
        intro u hu
        have hne : u ≠ t := by
          rintro rfl
          exact hu ht
        show _ = (p.scheduled.erase t).count u
        rw [List.count_erase_of_ne hne, h.scheduled u hu] }
  · rw [GroupState.deliver, if_neg hs]
    exact h

/-- Any other callback is scheduled in both groups or in neither. -/
theorem deliver_member (py : Asyncio E) (h : Simulates f p) {t : TaskId} (ht : t ∉ f.eager) :
    Simulates (f.deliver py t) (p.deliver py t) := by
  have hiff : t ∈ f.scheduled ↔ t ∈ p.scheduled := by
    rw [← List.count_pos_iff, ← List.count_pos_iff, h.scheduled t ht]
  by_cases hs : t ∈ p.scheduled
  · obtain ⟨b, hb⟩ := deliver_eq py (hiff.mpr hs)
    obtain ⟨c, hc⟩ := deliver_eq py hs
    have hund : p.eager.filter (· ∈ p.scheduled.erase t) = p.undelivered := by
      refine Finset.filter_congr fun u hu => ?_
      have hne : u ≠ t := by
        rintro rfl
        exact ht (h.eager ▸ hu)
      rw [List.mem_erase_of_ne hne]
    have hout : t ∉ p.undelivered := fun hu => ht (h.eager_of_undelivered hu)
    rw [hb, hc]
    apply report
    exact { h with
      tasks := by
        show p.tasks.erase t = f.tasks.erase t ∪ _
        rw [undelivered, hund, h.tasks, Finset.erase_union_distrib, Finset.erase_eq_of_notMem hout]
      disjoint := by
        show Disjoint (f.tasks.erase t) _
        rw [undelivered, hund]
        exact Finset.disjoint_of_subset_left (Finset.erase_subset _ _) h.disjoint
      awaitedBy := by
        intro u hu
        show u ∈ f.awaitedBy.erase t ↔ u ∈ p.awaitedBy.erase t
        rw [Finset.mem_erase, Finset.mem_erase, h.awaitedBy u hu]
      scheduled := by
        intro u hu
        show (f.scheduled.erase t).count u = (p.scheduled.erase t).count u
        rw [List.count_erase, List.count_erase, h.scheduled u hu]
      skipped := by
        intro u hu
        obtain ⟨hm, hc, hv⟩ := h.skipped u hu
        refine ⟨fun hm' => hm (Finset.mem_of_mem_erase hm'), ?_, hv⟩
        show (f.scheduled.erase t).count u = 0
        rw [List.count_erase, hc, Nat.zero_sub] }
  · rw [GroupState.deliver, GroupState.deliver, if_neg hs, if_neg (fun hf => hs (hiff.mp hf))]
    exact h

/-- The factory hands out the same task in both groups. -/
theorem handOut (h : Simulates f p) (hf : f.ledger.Sound .fast) (hp : p.ledger.Sound .plain)
    (st : TaskStatus E) : Simulates (f.handOut st) (p.handOut st) := by
  have hlen : p.statuses.length = f.statuses.length := by rw [h.statuses]
  have hnone : f.statuses[f.statuses.length]? = none := by simp
  obtain ⟨hft, -, hfs, -⟩ := Ledger.kept_of_status_none (hf.kept f.statuses.length) hnone
  obtain ⟨-, -, hps, -⟩ := Ledger.kept_of_status_none (hp.kept f.statuses.length)
    (by show p.statuses[_]? = none; rw [← h.statuses]; exact hnone)
  have hps : f.statuses.length ∉ p.scheduled := List.count_eq_zero.mp hps
  have hund : (if st.isValue then insert f.statuses.length p.eager else p.eager).filter
      (· ∈ p.scheduled) = p.undelivered := by
    split
    · rw [Finset.filter_insert, if_neg hps]; rfl
    · rfl
  rw [handOut_eq, handOut_eq, hlen]
  exact { h with
    tasks := (h.same_tasks hund).1
    disjoint := (h.same_tasks hund).2
    awaitedBy := by
      intro t ht
      refine h.awaitedBy t ?_
      simp only [GroupState.isDone] at ht ⊢
      by_cases hlt : t < f.statuses.length
      · rwa [List.getElem?_append_left hlt] at ht
      · rw [List.getElem?_eq_none (Nat.le_of_not_lt hlt)]
    statuses := by show f.statuses ++ _ = p.statuses ++ _; rw [h.statuses]
    scheduled := by
      intro t ht
      refine h.scheduled t fun ht' => ht ?_
      show t ∈ (if _ then _ else _)
      split
      · exact Finset.mem_insert_of_mem ht'
      · exact ht'
    eager := by show (if _ then _ else _) = (if _ then _ else _); rw [h.eager]
    skipped := by
      intro t ht
      have hcase : (t ∈ f.eager) ∨ (t = f.statuses.length ∧ st.isValue = true) := by
        have ht' : t ∈ (if st.isValue then insert f.statuses.length f.eager else f.eager) := ht
        split at ht'
        · next hv =>
          rcases Finset.mem_insert.mp ht' with rfl | ht'
          · exact .inr ⟨rfl, hv⟩
          · exact .inl ht'
        · exact .inl ht'
      rcases hcase with ht' | ⟨rfl, hv⟩
      · obtain ⟨hm, hc, hs⟩ := h.skipped t ht'
        refine ⟨hm, hc, ?_⟩
        show (f.statuses ++ [st])[t]? = _
        rw [List.getElem?_append_left (List.getElem?_eq_some_iff.mp hs).1, hs]
      · refine ⟨hft, hfs, ?_⟩
        show (f.statuses ++ [st])[f.statuses.length]? = _
        rw [List.getElem?_concat_length, TaskStatus.eq_of_isValue hv]
    creating := by show f.creating - 1 = p.creating - 1; rw [h.creating] }

/-- Only the plain group keeps a line for an eager task. -/
theorem track_eager (py : Asyncio E) (h : Simulates f p) {t : TaskId} (ht : t ∈ f.eager)
    (hs : t ∉ p.scheduled) : Simulates f (p.track py t) := by
  obtain ⟨hm, hc, hv⟩ := h.skipped t ht
  have hdone : p.isDone t = true := by simp only [GroupState.isDone, ← h.statuses, hv]
  have hund : p.eager.filter (· ∈ p.scheduled ++ [t]) = insert t p.undelivered := by
    ext u
    simp only [undelivered, Finset.mem_filter, Finset.mem_insert, List.mem_append,
      List.mem_singleton]
    constructor
    · rintro ⟨hu, hu' | rfl⟩
      · exact .inr ⟨hu, hu'⟩
      · exact .inl rfl
    · rintro (rfl | ⟨hu, hu'⟩)
      · exact ⟨h.eager ▸ ht, .inr rfl⟩
      · exact ⟨hu, .inl hu'⟩
  rw [track_eq, hdone]
  exact { h with
    tasks := by
      show insert t p.tasks = f.tasks ∪ p.eager.filter (· ∈ p.scheduled ++ [t])
      rw [hund, h.tasks, Finset.union_insert]
    disjoint := by
      show Disjoint f.tasks (p.eager.filter (· ∈ p.scheduled ++ [t]))
      rw [hund, Finset.disjoint_insert_right]
      exact ⟨hm, h.disjoint⟩
    awaitedBy := by
      intro u hu
      have hne : u ≠ t := by
        rintro rfl
        simp only [GroupState.isDone, hv] at hu
        cases hu
      show _ ↔ u ∈ (if _ then _ else _)
      rw [h.awaitedBy u hu]
      split
      · rw [Finset.mem_insert]
        exact ⟨.inr, fun hm => hm.resolve_left hne⟩
      · rfl
    scheduled := by
      intro u hu
      have hne : u ≠ t := by
        rintro rfl
        exact hu ht
      show _ = (p.scheduled ++ [t]).count u
      rw [List.count_append, h.scheduled u hu, List.count_singleton,
        if_neg (by simpa using Ne.symm hne), Nat.add_zero] }

/-- Any other task gets the same line in both groups. -/
theorem track_member (py : Asyncio E) (h : Simulates f p) {t : TaskId} (ht : t ∉ f.eager) :
    Simulates (f.track py t) (p.track py t) := by
  have hne : ∀ u ∈ f.eager, u ≠ t := by
    rintro u hu rfl
    exact ht hu
  have hund : p.eager.filter (· ∈ (if p.isDone t then p.scheduled ++ [t] else p.scheduled)) =
      p.undelivered := by
    refine Finset.filter_congr fun u hu => ?_
    split
    · simp [hne u (h.eager ▸ hu)]
    · rfl
  rw [track_eq, track_eq, h.isDone t]
  exact { h with
    tasks := by
      show insert t p.tasks = insert t f.tasks ∪ _
      rw [undelivered, hund, h.tasks, Finset.insert_union]
    disjoint := by
      show Disjoint (insert t f.tasks) _
      rw [undelivered, hund, Finset.disjoint_insert_left]
      exact ⟨fun hu => ht (h.eager_of_undelivered hu), h.disjoint⟩
    awaitedBy := by
      intro u hu
      show u ∈ (if _ then _ else _) ↔ u ∈ (if _ then _ else _)
      split
      · rw [Finset.mem_insert, Finset.mem_insert, h.awaitedBy u hu]
      · exact h.awaitedBy u hu
    registered := by
      show (if _ then _ else _) = (if _ then _ else _)
      rw [h.registered]
    scheduled := by
      intro u hu
      show (if _ then _ else _ : List TaskId).count u = (if _ then _ else _ : List TaskId).count u
      split
      · rw [List.count_append, List.count_append, h.scheduled u hu]
      · exact h.scheduled u hu
    skipped := by
      intro u hu
      obtain ⟨hm, hc, hv⟩ := h.skipped u hu
      refine ⟨?_, ?_, hv⟩
      · show u ∉ insert t f.tasks
        simp [hm, hne u hu]
      · show (if _ then _ else _ : List TaskId).count u = 0
        split
        · rw [List.count_append, hc, List.count_singleton,
            if_neg (by simpa using Ne.symm (hne u hu))]
        · exact hc }

/-- Both groups decide a call alike when they are equally empty. -/
theorem refuses_eq (h : Simulates f p) (hempty : f.exiting = true → (f.tasks = ∅ ↔ p.tasks = ∅)) :
    f.refuses = p.refuses := by
  simp only [refuses, ← h.entered, ← h.exiting, ← h.aborting]
  cases hx : f.exiting with
  | false => rfl
  | true => simp only [hempty hx]

theorem spawned (py : Asyncio E) (h : Simulates f p) (hf : f.ledger.Sound .fast)
    (hp : p.ledger.Sound .plain) (st : TaskStatus E) :
    Simulates (f.spawned .fast py st) (p.spawned .plain py st) := by
  have hlen : p.statuses.length = f.statuses.length := by rw [h.statuses]
  have hnone : f.statuses[f.statuses.length]? = none := by simp
  have hout : f.statuses.length ∉ (p.handOut st).scheduled := by
    have hk := hp.kept f.statuses.length
    obtain ⟨-, -, hps, -⟩ := Ledger.kept_of_status_none hk
      (by show p.statuses[_]? = none; rw [← h.statuses]; exact hnone)
    have hs : (p.handOut st).scheduled = p.scheduled := congrArg Ledger.scheduled (ledger_handOut p st)
    rw [hs]
    exact List.count_eq_zero.mp hps
  have hnew : f.statuses.length ∉ f.eager := by
    intro ht
    rw [(h.skipped _ ht).2.2] at hnone
    cases hnone
  have hh := h.handOut hf hp st
  have hsucc := (status_of_last (congrArg Ledger.statuses (ledger_handOut f st))).2
  simp only [GroupState.spawned, keep, hlen]
  -- the early return is taken exactly for the tasks that become eager ones
  cases hv : st.isValue with
  | true =>
    rw [if_pos (hsucc.trans hv)]
    refine hh.track_eager py ?_ hout
    rw [handOut_eq]
    simp [hv]
  | false =>
    have hs : ¬ (f.handOut st).succeeded f.statuses.length = true := by rw [hsucc, hv]; simp
    rw [if_neg hs]
    refine hh.track_member py ?_
    rw [handOut_eq]
    simpa [hv] using hnew

theorem call (h : Simulates f p) (hd : f.refuses.isNone = p.refuses.isNone) :
    Simulates f.call p.call := by
  simp only [GroupState.call]
  cases hf : f.refuses <;> cases hp : p.refuses <;> rw [hf, hp] at hd
  · exact { h with creating := congrArg (· + 1) h.creating }
  · cases hd
  · cases hd
  · exact { h with }

/-- One step of both groups. A call is the only step they may decide differently. -/
theorem step (py : Asyncio E) (h : Simulates f p) (hf : f.ledger.Sound .fast)
    (hp : p.ledger.Sound .plain) (e : GroupEvent E)
    (hd : e = .call → f.refuses.isNone = p.refuses.isNone) :
    Simulates (f.step .fast py e) (p.step .plain py e) := by
  cases e with
  | enter => exact { h with entered := rfl }
  | call => exact h.call (hd rfl)
  | spawned st =>
    simp only [GroupState.step, h.creating]
    split
    · exact h.spawned py hf hp st
    · exact h
  | complete t o => exact h.complete t o
  | deliver t =>
    by_cases ht : t ∈ f.eager
    · exact h.deliver_eager py hp ht
    · exact h.deliver_member py ht
  | startExit exc => exact h.startExit py exc
  | wake => exact h.wake
  | abort => exact h.abort

/-- The exact point of divergence: the plain group accepts a call that the fast
    group refuses as finished when the group is exiting, is not aborting, and its
    only members are tasks whose value was there before `create_task` returned. -/
theorem diverges_iff (h : Simulates f p) :
    f.refuses.isNone ≠ p.refuses.isNone ↔
      f.entered = true ∧ f.exiting = true ∧ f.aborting = false ∧ f.tasks = ∅ ∧
        p.undelivered ≠ ∅ := by
  have hp : p.tasks = ∅ ↔ f.tasks = ∅ ∧ p.undelivered = ∅ := by
    rw [h.tasks, Finset.union_eq_empty]
  simp only [refuses, ← h.entered, ← h.exiting, ← h.aborting, hp]
  by_cases h1 : f.tasks = ∅ <;> by_cases h2 : p.undelivered = ∅ <;>
    cases f.entered <;> cases f.exiting <;> cases f.aborting <;> simp [h1, h2]

end Simulates

/-! ## Whole runs -/

/-- The fast group and the plain group take the same event. -/
def lockstep (py : Asyncio E) (s : GroupState E × GroupState E) (e : GroupEvent E) :
    GroupState E × GroupState E :=
  (s.1.step .fast py e, s.2.step .plain py e)

/-- A call made after exit has begun is made while some member is unfinished. -/
def CallsWhileBusy (s : GroupState E × GroupState E) (e : GroupEvent E) : Prop :=
  e = .call → s.1.exiting = true → ∃ t ∈ s.1.tasks, s.1.isDone t = false

theorem decisions_call (s : GroupState E) : s.call.decisions = s.decisions ++ [s.refuses] := by
  simp only [call]
  split
  · next h => rw [h]
  · next h => rw [h]

theorem decisions_noteBaseError (py : Asyncio E) (s : GroupState E) (exc : E) :
    (s.noteBaseError py exc).decisions = s.decisions := by
  simp only [noteBaseError]
  split <;> rfl

theorem decisions_report (py : Asyncio E) (s : GroupState E) (t : TaskId) :
    (s.report py t).decisions = s.decisions := by
  simp only [report]
  split
  · rfl
  · split
    · rfl
    · next exc _ =>
      have hescalate : ∀ s' : GroupState E, (s'.escalate t).decisions = s'.decisions := by
        intro s'
        simp only [escalate]
        split
        · rfl
        · split <;> rfl
      rw [hescalate, decisions_noteBaseError]

/-- Only a call decides anything. -/
theorem decisions_step (path : Path) (py : Asyncio E) (s : GroupState E) {e : GroupEvent E}
    (he : e ≠ .call) : (s.step path py e).decisions = s.decisions := by
  cases e with
  | enter => rfl
  | call => exact absurd rfl he
  | spawned st =>
    have hkeep : ∀ s' : GroupState E, ∀ t, (s'.keep path py t).decisions = s'.decisions := by
      intro s' t
      cases path with
      | fast =>
        simp only [keep, track_eq]
        split <;> rfl
      | plain => simp only [keep, track_eq]
    simp only [step, spawned]
    split
    · rw [hkeep, handOut_eq]
    · rfl
  | complete t o =>
    simp only [step, complete]
    split <;> rfl
  | deliver t =>
    simp only [step]
    by_cases hs : t ∈ s.scheduled
    · obtain ⟨b, hb⟩ := deliver_eq py hs
      rw [hb, decisions_report]
    · rw [deliver, if_neg hs]
  | startExit exc =>
    simp only [step, startExit]
    obtain ⟨b, hb⟩ := waitForTasks_eq (E := E) _
    rw [hb]
    cases exc with
    | none => rfl
    | some e =>
      have hn := decisions_noteBaseError py { s with exiting := true } e
      dsimp only
      split <;> exact hn
  | wake =>
    obtain ⟨b, hb⟩ := wake_eq s
    simp only [step, hb]
  | abort => rfl

/-- What the runs of both groups keep: as many decisions on either side, both
    ledgers sound, and the relation as long as the decisions agree. -/
structure Paired (s : GroupState E × GroupState E) : Prop where
  calls : s.1.decisions.length = s.2.decisions.length
  fast : s.1.ledger.Sound .fast
  plain : s.2.ledger.Sound .plain
  simulates : SameDecisions s.1 s.2 → Simulates s.1 s.2

theorem sound_step (path : Path) (py : Asyncio E) {s : GroupState E} (h : s.ledger.Sound path)
    (e : GroupEvent E) : (s.step path py e).ledger.Sound path := by
  rcases ledger_step path py s e with heq | heq
  · rw [heq]; exact h
  · rw [heq]; exact Ledger.step_sound e h

/-- The decisions of a longer run agree only if those before did. -/
theorem sameDecisions_call {f p : GroupState E} (hlen : f.decisions.length = p.decisions.length)
    (h : SameDecisions f.call p.call) :
    SameDecisions f p ∧ f.refuses.isNone = p.refuses.isNone := by
  simp only [SameDecisions, decisions_call, List.map_append, List.map_cons, List.map_nil] at h
  obtain ⟨h1, h2⟩ := List.append_inj h (by simp [hlen])
  exact ⟨h1, by simpa using h2⟩

theorem lockstep_paired (py : Asyncio E) (s : GroupState E × GroupState E) (e : GroupEvent E)
    (h : Paired s) : Paired (lockstep py s e) := by
  by_cases he : e = .call
  · subst he
    refine ⟨?_, sound_step .fast py h.fast _, sound_step .plain py h.plain _, ?_⟩
    · show s.1.call.decisions.length = s.2.call.decisions.length
      rw [decisions_call, decisions_call, List.length_append, List.length_append, h.calls]
      rfl
    · intro hd
      obtain ⟨hd', hr⟩ := sameDecisions_call h.calls hd
      exact (h.simulates hd').call hr
  · have hf : (lockstep py s e).1.decisions = s.1.decisions := decisions_step .fast py s.1 he
    have hp : (lockstep py s e).2.decisions = s.2.decisions := decisions_step .plain py s.2 he
    refine ⟨?_, sound_step .fast py h.fast e, sound_step .plain py h.plain e, ?_⟩
    · rw [hf, hp, h.calls]
    · intro hd
      rw [SameDecisions, hf, hp] at hd
      exact (h.simulates hd).step py h.fast h.plain e (fun hc => absurd hc he)

theorem paired_init (parentDone : Bool) : Paired (init E parentDone, init E parentDone) where
  calls := rfl
  fast := ⟨fun t => by simp [Ledger.Kept, ledger, init], rfl⟩
  plain := ⟨fun t => by simp [Ledger.Kept, ledger, init], rfl⟩
  simulates := by
    intro _
    refine ⟨rfl, rfl, rfl, rfl, ?_, ?_, rfl, rfl, rfl, fun _ _ => Iff.rfl, rfl, rfl, rfl, rfl,
      fun _ _ => rfl, rfl, ?_, rfl⟩
    · simp [undelivered, init]
    · simp [init]
    · simp [init]

/-- A busy group decides every call as the plain group does. -/
theorem decisions_of_busy (py : Asyncio E) {s : GroupState E × GroupState E} (h : Paired s)
    (hd : s.1.decisions = s.2.decisions) {e : GroupEvent E} (hC : CallsWhileBusy s e) :
    (lockstep py s e).1.decisions = (lockstep py s e).2.decisions := by
  by_cases he : e = .call
  · subst he
    have hsim := h.simulates (by rw [SameDecisions, hd])
    have hr : s.1.refuses = s.2.refuses := by
      refine hsim.refuses_eq fun hx => ?_
      obtain ⟨t, ht, -⟩ := hC rfl hx
      have hft : s.1.tasks ≠ ∅ := Finset.ne_empty_of_mem ht
      have hpt : s.2.tasks ≠ ∅ := by
        rw [hsim.tasks]
        exact Finset.ne_empty_of_mem (Finset.mem_union_left _ ht)
      simp [hft, hpt]
    show s.1.call.decisions = s.2.call.decisions
    rw [decisions_call, decisions_call, hd, hr]
  · have hf : (lockstep py s e).1.decisions = s.1.decisions := decisions_step .fast py s.1 he
    have hp : (lockstep py s e).2.decisions = s.2.decisions := decisions_step .plain py s.2 he
    rw [hf, hp, hd]

/-- The fast group simulates the plain one through every run in lockstep, as
    long as both have accepted and refused the same calls; and in every run whose
    calls after the start of the exit are made while some member is unfinished,
    they have. -/
theorem fast_simulates_plain (py : Asyncio E) (parentDone : Bool) (es : List (GroupEvent E)) :
    let s₀ := (init E parentDone, init E parentDone)
    let s := EventRun.run (lockstep py) s₀ es
    (SameDecisions s.1 s.2 → Simulates s.1 s.2) ∧
      (EventRun.Meets (lockstep py) CallsWhileBusy s₀ es →
        s.1.decisions = s.2.decisions ∧ Simulates s.1 s.2) := by
  intro s₀ s
  have hs : Paired s := EventRun.run_inv (lockstep_paired py) (paired_init parentDone) es
  refine ⟨hs.simulates, ?_⟩
  intro hC
  have hd : Paired s ∧ s.1.decisions = s.2.decisions :=
    EventRun.run_inv_of_meets (I := fun s => Paired s ∧ s.1.decisions = s.2.decisions)
      (fun s e h he => ⟨lockstep_paired py s e h.1, decisions_of_busy py h.1 h.2 he⟩)
      ⟨paired_init parentDone, rfl⟩ hC
  exact ⟨hd.2, hs.simulates (by rw [SameDecisions, hd.2])⟩

/-- The call that tells the two apart: the exit has begun, and the only task has
    finished with a value and waits for its callback. -/
example :
    let s := EventRun.run (lockstep { hasAwaitedBy := true, isBaseError := fun _ => false })
      (init Nat false, init Nat false)
      [.enter, .call, .spawned (.done .value), .startExit none, .call]
    s.1.decisions = [none, some .finished] ∧ s.2.decisions = [none, none] := by decide

end GroupState
end FerroIo
