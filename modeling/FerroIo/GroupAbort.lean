import FerroIo.GroupWait

/- How a failure ends a task group: the first one aborts it and cancels the parent, and
   the abort reaches every member.

   Main results:
     1. `group_verdict`: in every run a failure aborts the group (unless the parent is done
        already), the parent is cancelled at most once and only for a failure, and an
        exception raised by itself is one that `_is_base_error` accepts, and is there if
        any was collected;
     2. `abort_is_final`: after an abort no `create_task` is accepted, so no more tasks are
        handed out than there are calls whose factory still runs; and where the factory runs
        nothing but `create_task` calls of its coroutine, as it does on one thread, there
        are none of these and every member is done or was asked to cancel. -/
namespace FerroIo
namespace GroupState
variable {E : Type}

/-! ## Escalation -/

/-- What the failures so far have come to; `parentDone` is `_parent_task.done()`. -/
structure Verdict (py : Asyncio E) (parentDone : Bool) (s : GroupState E) : Prop where
  parent : s.parentDone = parentDone
  requested : s.parentCancelRequested = true → s.aborting = true ∧ s.errors ≠ []
  cancels : s.parentCancels = if s.parentCancelRequested then 1 else 0
  escalated : s.errors ≠ [] → s.aborting = true ∨ parentDone = true
  spared : parentDone = true → s.parentCancels = 0 ∧ s.unhandled.length = s.errors.length
  handled : parentDone = false → s.unhandled = []
  isBase : ∀ e, s.baseError = some e → py.isBaseError e = true
  noted : ∀ e ∈ s.errors, py.isBaseError e = true → s.baseError ≠ none

section
variable {py : Asyncio E} {parentDone : Bool} {path : Path} {s : GroupState E}

theorem Verdict.abort (h : s.Verdict py parentDone) : s.abort.Verdict py parentDone :=
  { h with
    requested := fun hr => ⟨rfl, (h.requested hr).2⟩
    escalated := fun _ => .inl rfl }

theorem noteBaseError_eq (py : Asyncio E) (s : GroupState E) (exc : E) :
    ∃ b, s.noteBaseError py exc = { s with baseError := b } ∧
      (s.baseError ≠ none → b = s.baseError) ∧
      (py.isBaseError exc = true → b ≠ none) ∧
      ∀ e, b = some e → s.baseError = some e ∨ e = exc ∧ py.isBaseError e = true := by
  simp only [noteBaseError]
  split
  · next h =>
    rw [Bool.and_eq_true] at h
    refine ⟨some exc, rfl, fun hne => ?_, fun _ => by simp, fun e he => .inr ?_⟩
    · exact absurd (Option.isNone_iff_eq_none.mp h.2) hne
    · cases he
      exact ⟨rfl, h.1⟩
  · next h =>
    refine ⟨s.baseError, rfl, fun _ => rfl, fun hbase hnone => h ?_, fun e he => .inl he⟩
    rw [hbase, hnone]
    rfl

theorem Verdict.note (h : s.Verdict py parentDone) (exc : E) :
    (s.noteBaseError py exc).Verdict py parentDone := by
  obtain ⟨b, hb, hkept, -, hfrom⟩ := noteBaseError_eq py s exc
  rw [hb]
  refine { h with isBase := fun e he => ?_, noted := fun e he hbase => ?_ }
  · rcases hfrom e he with hold | ⟨-, hbase⟩
    · exact h.isBase e hold
    · exact hbase
  · have hne := h.noted e he hbase
    change b ≠ none
    rw [hkept hne]
    exact hne

/-- A failure is collected, and escalated. -/
theorem Verdict.fail (h : s.Verdict py parentDone) (exc : E) (t : TaskId) :
    (({ s with errors := s.errors ++ [exc] }.noteBaseError py exc).escalate t).Verdict py
      parentDone := by
  obtain ⟨b, hb, hkept, hnew, hfrom⟩ :=
    noteBaseError_eq py { s with errors := s.errors ++ [exc] } exc
  have hisBase : ∀ e, b = some e → py.isBaseError e = true := by
    intro e he
    rcases hfrom e he with hold | ⟨-, hbase⟩
    · exact h.isBase e hold
    · exact hbase
  have hnoted : ∀ e ∈ s.errors ++ [exc], py.isBaseError e = true → b ≠ none := by
    intro e he hbase
    rcases List.mem_append.mp he with hmem | hlast
    · have hne := h.noted e hmem hbase
      rw [hkept hne]
      exact hne
    · rw [List.mem_singleton] at hlast
      exact hnew (hlast ▸ hbase)
  have hnonempty : s.errors ++ [exc] ≠ [] := by simp
  rw [hb]
  simp only [escalate, h.parent]
  split
  · next hdone =>
    -- the parent is done: the exception handler is told instead
    exact { h with
      parent := rfl
      requested := fun hr => ⟨(h.requested hr).1, hnonempty⟩
      escalated := fun _ => .inr hdone
      spared := fun _ => ⟨(h.spared hdone).1, by simp [(h.spared hdone).2]⟩
      handled := fun hnot => absurd (hdone.symm.trans hnot) (by decide)
      isBase := hisBase
      noted := hnoted }
  · next hnotDone =>
    split
    · next hfirst =>
      rw [Bool.and_eq_true] at hfirst
      have hrequested : s.parentCancelRequested = false := by simpa using hfirst.2
      exact { h with
        parent := rfl
        requested := fun _ => ⟨rfl, hnonempty⟩
        cancels := by
          change s.parentCancels + 1 = 1
          rw [h.cancels, hrequested]
          rfl
        escalated := fun _ => .inl rfl
        spared := fun hdone => absurd hdone hnotDone
        isBase := hisBase
        noted := hnoted }
    · next hlater =>
      have haborting : s.aborting = true := by
        cases hr : s.parentCancelRequested with
        | true => exact (h.requested hr).1
        | false => simpa [hr] using hlater
      exact { h with
        parent := rfl
        requested := fun _ => ⟨haborting, hnonempty⟩
        escalated := fun _ => .inl haborting
        spared := fun hdone => absurd hdone hnotDone
        isBase := hisBase
        noted := hnoted }

theorem Verdict.report (h : s.Verdict py parentDone) (t : TaskId) :
    (s.report py t).Verdict py parentDone := by
  unfold GroupState.report
  split
  · exact h
  · split
    · exact h
    · next exc _ => exact h.fail exc t

theorem Verdict.startExit (h : s.Verdict py parentDone) (exc : Option E) :
    (s.startExit py exc).Verdict py parentDone := by
  have hexiting : Verdict py parentDone { s with exiting := true } := { h with }
  have hwait : ∀ {s : GroupState E}, s.Verdict py parentDone →
      s.waitForTasks.Verdict py parentDone := by
    intro s h
    obtain ⟨b, hb⟩ := waitForTasks_eq s
    rw [hb]
    exact { h with }
  unfold GroupState.startExit
  apply hwait
  cases exc with
  | none => exact hexiting
  | some e =>
    have hnote := hexiting.note e
    dsimp only
    split
    · exact hnote.abort
    · exact hnote

theorem Verdict.spawned (h : s.Verdict py parentDone) (st : TaskStatus E) :
    (s.spawned path py st).Verdict py parentDone := by
  have hhand : (s.handOut st).Verdict py parentDone := by
    rw [handOut_eq]
    exact { h with }
  have htrack : ((s.handOut st).track py s.statuses.length).Verdict py parentDone := by
    rw [track_eq]
    exact { hhand with }
  unfold GroupState.spawned keep
  cases path with
  | fast =>
    dsimp only
    split
    · exact hhand
    · exact htrack
  | plain => exact htrack

theorem Verdict.step (h : s.Verdict py parentDone) (e : GroupEvent E) :
    (s.step path py e).Verdict py parentDone := by
  cases e with
  | enter => exact { h with }
  | call =>
    simp only [GroupState.step, call]
    split <;> exact { h with }
  | spawned st =>
    simp only [GroupState.step]
    split
    · exact h.spawned st
    · exact h
  | complete t o =>
    simp only [GroupState.step, complete]
    split
    · exact { h with }
    · exact h
  | deliver t =>
    by_cases ht : t ∈ s.scheduled
    · obtain ⟨b, hb⟩ := deliver_eq py ht
      rw [GroupState.step, hb]
      apply Verdict.report
      exact { h with }
    · rw [GroupState.step, deliver, if_neg ht]
      exact h
  | startExit exc => exact h.startExit exc
  | wake =>
    obtain ⟨b, hb⟩ := wake_eq s
    rw [GroupState.step, hb]
    exact { h with }
  | abort => exact h.abort

end

/-- What failures come to, in every run. -/
theorem group_verdict (path : Path) (py : Asyncio E) (parentDone : Bool)
    (es : List (GroupEvent E)) :
    let s := EventRun.run (step path py) (init E parentDone) es
    (s.errors ≠ [] → s.aborting = true ∨ parentDone = true) ∧
    s.parentCancels ≤ 1 ∧
    (s.parentCancels = 1 → s.aborting = true ∧ s.errors ≠ [] ∧ parentDone = false) ∧
    (s.unhandled.length = if parentDone then s.errors.length else 0) ∧
    (∀ e, s.baseError = some e → py.isBaseError e = true) ∧
    ∀ e ∈ s.errors, py.isBaseError e = true → s.baseError ≠ none := by
  intro s
  have h : s.Verdict py parentDone := by
    refine EventRun.run_inv (I := Verdict py parentDone) (fun _ e h => h.step e) ?_ es
    exact ⟨rfl, by simp [init], rfl, by simp [init], by simp [init], by simp [init],
      by simp [init], by simp [init]⟩
  refine ⟨h.escalated, ?_, fun hone => ?_, ?_, h.isBase, h.noted⟩
  · rw [h.cancels]
    split <;> omega
  · have hrequested : s.parentCancelRequested = true := by
      by_contra hnot
      have hcancels := h.cancels
      rw [hone, if_neg hnot] at hcancels
      cases hcancels
    refine ⟨(h.requested hrequested).1, (h.requested hrequested).2, ?_⟩
    cases hdone : parentDone with
    | false => rfl
    | true =>
      have hspared := (h.spared hdone).1
      rw [hone] at hspared
      cases hspared
  · cases hdone : parentDone with
    | false => simp [h.handled hdone]
    | true => simp [(h.spared hdone).2]

/-! ## What an abort closes, and whom it reaches -/

/-- A factory on the loop's thread runs nothing but the `create_task` calls of its
coroutine before it returns. -/
def Synchronous (s : GroupState E) : GroupEvent E → Prop
  | .call => True
  | .spawned _ => True
  | _ => s.creating = 0

/-- The group is aborting, and tasks and open calls are at most `n`. -/
def Closing (n : ℕ) (s : GroupState E) : Prop :=
  s.aborting = true ∧ s.statuses.length + s.creating ≤ n

/-- Every member is done or was asked to cancel, once the group is aborting. -/
def Reached (s : GroupState E) : Prop :=
  s.aborting = true → ∀ t ∈ s.tasks, s.isDone t = true ∨ t ∈ s.cancelled

section
variable {py : Asyncio E} {path : Path} {s : GroupState E}

theorem reached_abort (s : GroupState E) : s.abort.Reached := by
  intro _ t ht
  cases hdone : s.isDone t with
  | true => exact .inl hdone
  | false =>
    refine .inr (Finset.mem_union_right _ (Finset.mem_filter.mpr ⟨ht, ?_⟩))
    simp [hdone]

theorem reached_noteBaseError (h : s.Reached) (exc : E) : (s.noteBaseError py exc).Reached := by
  obtain ⟨b, hb, -⟩ := noteBaseError_eq py s exc
  rw [hb]
  exact h

theorem reached_report (h : s.Reached) (t : TaskId) : (s.report py t).Reached := by
  unfold report
  split
  · exact h
  · split
    · exact h
    · next exc _ =>
      have hnote : Reached ({ s with errors := s.errors ++ [exc] }.noteBaseError py exc) :=
        reached_noteBaseError (s := { s with errors := s.errors ++ [exc] }) h exc
      unfold escalate
      split
      · exact hnote
      · split
        · exact reached_abort ({ s with errors := s.errors ++ [exc] }.noteBaseError py exc)
        · exact hnote

/-- All that a report can change. -/
theorem report_eq (py : Asyncio E) (s : GroupState E) (t : TaskId) : ∃ a k r c u e b,
    s.report py t = { s with
      aborting := a, cancelled := k, parentCancelRequested := r, parentCancels := c,
      unhandled := u, errors := e, baseError := b } := by
  unfold report
  split
  · exact ⟨_, _, _, _, _, _, _, rfl⟩
  · split
    · exact ⟨_, _, _, _, _, _, _, rfl⟩
    · next exc _ =>
      obtain ⟨b, hb, -⟩ := noteBaseError_eq py { s with errors := s.errors ++ [exc] } exc
      rw [hb]
      unfold escalate
      split
      · exact ⟨_, _, _, _, _, _, _, rfl⟩
      · split <;> exact ⟨_, _, _, _, _, _, _, rfl⟩

theorem creating_report (s : GroupState E) (t : TaskId) :
    (s.report py t).creating = s.creating := by
  obtain ⟨a, k, r, c, u, e, b, heq⟩ := report_eq py s t
  rw [heq]

theorem aborting_report (h : s.aborting = true) (t : TaskId) :
    (s.report py t).aborting = true := by
  unfold report
  split
  · exact h
  · split
    · exact h
    · next exc _ =>
      obtain ⟨b, hb, -⟩ := noteBaseError_eq py { s with errors := s.errors ++ [exc] } exc
      rw [hb]
      unfold escalate
      split
      · exact h
      · split
        · rfl
        · exact h

theorem startExit_eq (py : Asyncio E) (s : GroupState E) (exc : Option E) :
    ∃ a k b f, s.startExit py exc =
        { s with
          exiting := true, aborting := a, cancelled := k, baseError := b, onCompletedFut := f } ∧
      (s.aborting = true → a = true) ∧ (s.Reached → (s.startExit py exc).Reached) := by
  have hexit : s.Reached → Reached { s with exiting := true } := id
  have hwait : ∀ {s : GroupState E}, s.Reached → s.waitForTasks.Reached := by
    intro s h
    obtain ⟨f, hf⟩ := waitForTasks_eq s
    rw [hf]
    exact h
  unfold startExit
  cases exc with
  | none =>
    obtain ⟨f, hf⟩ := waitForTasks_eq { s with exiting := true }
    refine ⟨s.aborting, s.cancelled, s.baseError, f, hf, id, fun h => hwait (hexit h)⟩
  | some e =>
    obtain ⟨b, hb, -⟩ := noteBaseError_eq py { s with exiting := true } e
    dsimp only
    rw [hb]
    split
    · obtain ⟨f, hf⟩ := waitForTasks_eq (abort { s with exiting := true, baseError := b })
      exact ⟨true, _, b, f, hf, fun _ => rfl, fun _ => hwait (reached_abort _)⟩
    · obtain ⟨f, hf⟩ := waitForTasks_eq { s with exiting := true, baseError := b }
      exact ⟨s.aborting, s.cancelled, b, f, hf, id, fun h => hwait (hexit h)⟩

/-- An aborting group refuses every call. -/
theorem call_of_aborting (h : s.aborting = true) : s.call.creating = s.creating := by
  have hrefuses : s.refuses ≠ none := by
    unfold refuses
    split
    · simp
    · split
      · simp
      · simp
  unfold call
  split
  · rfl
  · next hnone => exact absurd hnone hrefuses

theorem spawned_flags (s : GroupState E) (st : TaskStatus E) :
    (s.spawned path py st).aborting = s.aborting ∧
      (s.spawned path py st).creating = s.creating - 1 := by
  have hhand : (s.handOut st).aborting = s.aborting ∧
      (s.handOut st).creating = s.creating - 1 := by
    rw [handOut_eq]
    exact ⟨rfl, rfl⟩
  unfold spawned keep
  cases path with
  | fast =>
    dsimp only
    split
    · exact hhand
    · rw [track_eq]
      exact hhand
  | plain =>
    dsimp only
    rw [track_eq]
    exact hhand

/-- No step ends an abort, or makes room for another task once the group is aborting. -/
theorem closing_step {n : ℕ} (h : s.Closing n) (e : GroupEvent E) :
    (s.step path py e).Closing n := by
  obtain ⟨haborting, hroom⟩ := h
  cases e with
  | enter => exact ⟨haborting, hroom⟩
  | call =>
    have hcall := call_of_aborting haborting
    have hledger := congrArg Ledger.statuses (ledger_call s)
    refine ⟨?_, ?_⟩
    · simp only [step, call]
      split <;> exact haborting
    · simp only [step, hcall]
      rw [show s.call.statuses = s.statuses from hledger]
      exact hroom
  | spawned st =>
    simp only [step]
    split
    · next hopen =>
      have hflags : (s.spawned path py st).aborting = s.aborting ∧
          (s.spawned path py st).creating = s.creating - 1 := spawned_flags s st
      obtain ⟨hflag, hcreating⟩ := hflags
      have hstatuses : (s.spawned path py st).statuses = s.statuses ++ [st] := by
        rw [show (s.spawned path py st).statuses = (s.ledger.spawned path st).statuses from
          congrArg Ledger.statuses (ledger_spawned path py s st)]
        unfold Ledger.spawned
        split
        · rfl
        · split <;> rfl
      refine ⟨hflag.trans haborting, ?_⟩
      rw [hstatuses, hcreating, List.length_append, List.length_singleton]
      omega
    · exact ⟨haborting, hroom⟩
  | complete t o =>
    simp only [step, complete]
    split
    · exact ⟨haborting, by simpa using hroom⟩
    · exact ⟨haborting, hroom⟩
  | deliver t =>
    by_cases ht : t ∈ s.scheduled
    · obtain ⟨b, hb⟩ := deliver_eq py ht
      have hstatuses : (s.deliver py t).statuses = s.statuses := by
        calc (s.deliver py t).statuses
            = (s.ledger.deliver t).statuses := congrArg Ledger.statuses (ledger_deliver py s t)
          _ = s.statuses := by
            rw [Ledger.deliver, if_pos (show t ∈ s.ledger.scheduled from ht)]
            rfl
      refine ⟨?_, ?_⟩
      · rw [step, hb]
        refine aborting_report ?_ t
        exact haborting
      · rw [step, hstatuses, hb, creating_report]
        exact hroom
    · rw [step, deliver, if_neg ht]
      exact ⟨haborting, hroom⟩
  | startExit exc =>
    obtain ⟨a, k, b, f, heq, hmono, -⟩ := startExit_eq py s exc
    rw [step, heq]
    exact ⟨hmono haborting, hroom⟩
  | wake =>
    obtain ⟨b, hb⟩ := wake_eq s
    rw [step, hb]
    exact ⟨haborting, hroom⟩
  | abort => exact ⟨rfl, hroom⟩

theorem isDone_complete {t : TaskId} (h : s.isDone t = true) (u : TaskId) (o : Outcome E) :
    (s.complete u o).isDone t = true := by
  unfold complete
  split
  · next hu =>
    by_cases hut : u = t
    · subst hut
      have hlt : u < s.statuses.length := (List.getElem?_eq_some_iff.mp hu).1
      simp only [isDone, List.getElem?_set_self hlt]
    · simpa only [isDone, List.getElem?_set_ne hut] using h
  · exact h

/-- With synchronous factories, no call is open in an aborting group, and the abort has
reached every member. -/
theorem reached_step (h : s.Reached ∧ (s.aborting = true → s.creating = 0)) (e : GroupEvent E)
    (he : s.Synchronous e) : (s.step path py e).Reached ∧
      ((s.step path py e).aborting = true → (s.step path py e).creating = 0) := by
  obtain ⟨hreached, hclosed⟩ := h
  cases e with
  | enter => exact ⟨hreached, hclosed⟩
  | call =>
    refine ⟨?_, fun haborting => ?_⟩
    · simp only [step, call]
      split <;> exact hreached
    · have hbefore : s.aborting = true := by
        simp only [step, call] at haborting
        split at haborting <;> exact haborting
      rw [step, call_of_aborting hbefore]
      exact hclosed hbefore
  | spawned st =>
    simp only [step]
    split
    · next hopen =>
      -- an aborting group has no open call
      have hnot : (s.spawned path py st).aborting ≠ true := by
        rw [(spawned_flags s st).1]
        intro haborting
        rw [hclosed haborting] at hopen
        exact Nat.lt_irrefl 0 hopen
      exact ⟨fun haborting => absurd haborting hnot, fun haborting => absurd haborting hnot⟩
    · exact ⟨hreached, hclosed⟩
  | complete t o =>
    have hsame : (s.complete t o).aborting = s.aborting ∧ (s.complete t o).tasks = s.tasks ∧
        (s.complete t o).cancelled = s.cancelled ∧ (s.complete t o).creating = s.creating := by
      unfold complete
      split <;> exact ⟨rfl, rfl, rfl, rfl⟩
    obtain ⟨haborting, htasks, hcancelled, hcreating⟩ := hsame
    simp only [step, Reached, haborting, htasks, hcancelled, hcreating]
    exact ⟨fun ha u hu => (hreached ha u hu).imp (fun hd => isDone_complete hd t o) id, hclosed⟩
  | deliver t =>
    by_cases ht : t ∈ s.scheduled
    · obtain ⟨b, hb⟩ := deliver_eq py ht
      rw [step, hb]
      refine ⟨reached_report ?_ t, fun _ => ?_⟩
      · intro ha u hu
        exact hreached ha u (Finset.mem_of_mem_erase hu)
      · rw [creating_report]
        exact he
    · rw [step, deliver, if_neg ht]
      exact ⟨hreached, hclosed⟩
  | startExit exc =>
    obtain ⟨a, k, b, f, heq, -, hkeeps⟩ := startExit_eq py s exc
    refine ⟨hkeeps hreached, fun _ => ?_⟩
    rw [step, heq]
    exact he
  | wake =>
    obtain ⟨b, hb⟩ := wake_eq s
    rw [step, hb]
    exact ⟨hreached, hclosed⟩
  | abort => exact ⟨reached_abort s, fun _ => he⟩

end

/-- An abort is final: it is never undone, no call is accepted after it, and where factories
are synchronous it has reached every member. -/
theorem abort_is_final (path : Path) (py : Asyncio E) (parentDone : Bool)
    (es : List (GroupEvent E)) :
    let s := EventRun.run (step path py) (init E parentDone) es
    s.aborting = true →
    (∀ es', let s' := EventRun.run (step path py) s es'
      s'.aborting = true ∧ s'.statuses.length ≤ s.statuses.length + s.creating) ∧
    (EventRun.Meets (step path py) Synchronous (init E parentDone) es →
      s.creating = 0 ∧ ∀ t ∈ s.tasks, s.isDone t = true ∨ t ∈ s.cancelled) := by
  intro s haborting
  refine ⟨fun es' => ?_, fun hsync => ?_⟩
  · have hclosing : Closing (s.statuses.length + s.creating)
        (EventRun.run (step path py) s es') :=
      EventRun.run_inv (I := Closing (s.statuses.length + s.creating))
        (fun _ e h => closing_step h e) ⟨haborting, Nat.le_refl _⟩ es'
    exact ⟨hclosing.1, Nat.le_trans (Nat.le_add_right _ _) hclosing.2⟩
  · have hinit : (init E parentDone).aborting ≠ true := by simp [init]
    have hreached : s.Reached ∧ (s.aborting = true → s.creating = 0) :=
      EventRun.run_inv_of_meets
        (I := fun u : GroupState E => u.Reached ∧ (u.aborting = true → u.creating = 0))
        (C := Synchronous) (fun _ e h he => reached_step h e he)
        ⟨fun ha => absurd ha hinit, fun ha => absurd ha hinit⟩ hsync
    exact ⟨hreached.2 haborting, hreached.1 haborting⟩

/-- A child that failed, with a pending sibling: the sibling was asked to cancel. -/
theorem abort_is_final_failed_child :
    let s := EventRun.run (step .fast { hasAwaitedBy := true, isBaseError := fun _ => false })
      (init Nat false)
      [.enter, .call, .spawned .pending, .call, .spawned (.done (.exception 3)), .deliver 1]
    s.tasks = {0} ∧ s.creating = 0 ∧ (∀ t ∈ s.tasks, s.isDone t = true ∨ t ∈ s.cancelled) ∧
    ∀ es', (EventRun.run (step .fast { hasAwaitedBy := true, isBaseError := fun _ => false })
      s es').aborting = true := by
  intro s
  obtain ⟨hfinal, hreached⟩ := abort_is_final .fast
    { hasAwaitedBy := true, isBaseError := fun _ => false } false
    [.enter, .call, .spawned .pending, .call, .spawned (.done (.exception 3)), .deliver 1]
    (by decide)
  obtain ⟨hcreating, hall⟩ := hreached ⟨rfl, trivial, trivial, trivial, trivial, rfl, trivial⟩
  exact ⟨by decide, hcreating, hall, fun es' => (hfinal es').1⟩

end GroupState
end FerroIo
