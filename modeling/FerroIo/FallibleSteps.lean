import FerroIo.FanOutSteps
import FerroIo.RunFallible

/- `run_fallible` under every fair schedule, and beside `run_concurrent`.

   Main result: `run_fallible_runs`. Under every fair schedule of the calling thread and the
   tasks the call returns; and whatever the two interleavings, where `run_concurrent` gives
   its values for the items, `run_fallible` gives the same value for each item that is not
   to fail, and the panic of its own task for the others. The texts of the two error channels
   agree for panics with a string payload, and for no other failure (`pushed_eq_raised_iff`). -/
namespace FerroIo

variable {items fail : List UInt64} {s : FallibleCall}

/-! ## Progress -/

def handleWeight (handle : Option (Except JoinError UInt64)) : ℕ := if handle.isNone then 1 else 0

/-- The steps still to come: a spawn each for the items, a completion for each handle and a
    push for each item. -/
def FallibleCall.toCome (items : List UInt64) (s : FallibleCall) : ℕ :=
  2 * (items.length - s.handles.length) + JoinSet.total handleWeight s.handles +
    (items.length - s.out.length)

theorem fallible_step_measure (h : Isolated items fail s) (e : FallibleEvent) :
    s.step items fail e = s ∨ (s.step items fail e).toCome items < s.toCome items := by
  have hspawned := h.spawned
  cases e with
  | main =>
    simp only [FallibleCall.step]
    split
    · right
      simp only [FallibleCall.toCome, List.length_append, List.length_singleton,
        JoinSet.total_append, JoinSet.total, handleWeight, Option.isNone_none, if_true]
      omega
    · split
      · next res hres =>
        right
        have hlt : s.out.length < s.handles.length := (List.getElem?_eq_some_iff.mp hres).1
        simp only [FallibleCall.toCome, List.length_append, List.length_singleton]
        omega
      · exact .inl rfl
  | complete i =>
    simp only [FallibleCall.step]
    split
    · next v hnone hv =>
      right
      have hset := JoinSet.total_set handleWeight hnone (some (fallibleTask fail v))
      simp only [handleWeight, Option.isNone_none, Option.isNone_some, if_true,
        Bool.false_eq_true, if_false] at hset
      simp only [FallibleCall.toCome, List.length_set] at hset ⊢
      omega
    · exact .inl rfl

/-- A call that has not returned can go on: it spawns, or it pushes, or the task that it awaits
    can end. -/
theorem fallible_progress (h : Isolated items fail s)
    (hresult : ¬ (s.result items).isSome) : ∃ e, s.step items fail e ≠ s := by
  have hlength : s.out.length ≠ items.length := by
    intro heq
    exact hresult (by simp [FallibleCall.result, heq])
  have hlt : s.out.length < items.length := Nat.lt_of_le_of_ne h.out_le hlength
  have hmain : ∀ s' : FallibleCall, s'.handles.length ≠ s.handles.length ∨
      s'.out.length ≠ s.out.length → s' ≠ s := by
    rintro s' hne rfl
    exact hne.elim (· rfl) (· rfl)
  by_cases hspawn : s.handles.length < items.length
  · refine ⟨.main, hmain _ (.inl ?_)⟩
    simp [FallibleCall.step, hspawn]
  · have hhandle : s.out.length < s.handles.length := by
      have hspawned := h.spawned
      omega
    have hget := List.getElem?_eq_getElem hhandle
    cases hres : s.handles[s.out.length] with
    | some res =>
      refine ⟨.main, hmain _ (.inr ?_)⟩
      simp [FallibleCall.step, hspawn, hget, hres]
    | none =>
      refine ⟨.complete s.out.length, fun heq => ?_⟩
      have hlen : s.handles.length = items.length :=
        Nat.le_antisymm h.spawned (Nat.le_of_not_lt hspawn)
      have hended : ∃ res, (s.step items fail (.complete s.out.length)).handles[s.out.length]? =
          some (some res) := complete_ends s hlt hlen
      obtain ⟨res, hended⟩ := hended
      rw [heq, hget, hres] at hended
      cases hended

/-! ## Beside `run_concurrent` -/

/-- The values that `run_concurrent` returns, in every interleaving. -/
theorem concurrent_values {failure : ℕ → Option JoinError} {es : List JoinSet.Event}
    {out : List UInt64}
    (hout : indexedResult (concurrentCall items failure es) = some (.ok out)) :
    out = items.map fun v => v * v := by
  have h := JoinSet.run_sound (squareTasks items failure) mapErr es
  obtain ⟨collected, hcollected, hok⟩ := Option.map_eq_some_iff.mp hout
  obtain ⟨set, -, hset⟩ := h.returned_delivery hcollected
  have hrun : runConcurrent set = .ok out := by
    rw [← hok, hset]
    rfl
  obtain ⟨hvalues, hfails⟩ := run_concurrent_exact set
  by_cases hnone : ∀ i < items.length, failure i = none
  · exact Except.ok.inj (hrun.symm.trans (hvalues hnone))
  · obtain ⟨i, hi, hne⟩ : ∃ i, i < items.length ∧ failure i ≠ none := by
      by_contra hall
      exact hnone fun i hi => by_contra fun hne => hall ⟨i, hi, hne⟩
    obtain ⟨j, -, e, -, herror⟩ := hfails i hi hne
    rw [hrun] at herror
    cases herror

theorem zip_map_square (f : UInt64 → UInt64 → Bool × PyValue) :
    (items.zip (items.map fun v => v * v)).map (fun p => f p.1 p.2) =
      items.map fun v => f v (v * v) := by
  induction items with
  | nil => rfl
  | cons v items ih =>
    simp only [List.map_cons, List.zip_cons_cons, ih]

/-- The text for a task that failed is that of the exception which the other methods raise for
    it exactly when the panic's payload is a string. -/
theorem pushed_eq_raised_iff (e : JoinError) :
    (∃ m, pushed (.error e) = .error m ∧ PyErr.ofTaskError (.ofJoinError e) = .runtimeError m) ↔
      ∃ m, e = .panic (.staticStr m) ∨ e = .panic (.string m) := by
  cases e with
  | cancelled =>
    refine iff_of_false ?_ (by simp)
    rintro ⟨m, hpushed, hraised⟩
    obtain rfl := Except.error.inj hpushed
    exact absurd hraised (by decide)
  | panic payload =>
    cases payload with
    | staticStr s => exact iff_of_true ⟨_, rfl, rfl⟩ ⟨s, .inl rfl⟩
    | string s => exact iff_of_true ⟨_, rfl, rfl⟩ ⟨s, .inr rfl⟩
    | other =>
      refine iff_of_false ?_ (by simp)
      rintro ⟨m, hpushed, hraised⟩
      obtain rfl := Except.error.inj hpushed
      exact absurd hraised (by decide)

/-- What `run_fallible` does under fair schedules, and how its list compares with that of
    `run_concurrent`. -/
theorem run_fallible_runs (items : List UInt64) (failOn : Option (List UInt64)) :
    (∀ schedule, EventRun.Fair (FallibleCall.step items (failOn.getD [])) .init schedule →
      ∃ t, ((EventRun.after (FallibleCall.step items (failOn.getD [])) .init schedule t).result
        items).isSome) ∧
    ∀ es result failure es' out, runFallible items failOn es = some result →
      indexedResult (concurrentCall items failure es') = some (.ok out) →
      result = (items.zip out).map fun p =>
        if p.1 ∈ failOn.getD [] then
          (false, .str ("task panicked: " ++ ("forced failure at value=" ++ toString p.1)))
        else (true, .int p.2.toNat) := by
  refine ⟨fun schedule hfair => ?_, fun es result failure es' out hresult hout => ?_⟩
  · refine EventRun.eventually_of_fair (I := Isolated items (failOn.getD []))
      (P := fun s => (s.result items).isSome) (fun _ e h => isolated_step h e)
      (fun _ e h => fallible_step_measure h e) (fun _ h hnot => fallible_progress h hnot)
      (isolated_run items (failOn.getD []) []) hfair
  · rw [concurrent_values hout, zip_map_square fun item v =>
      if item ∈ failOn.getD [] then
        (false, .str ("task panicked: " ++ ("forced failure at value=" ++ toString item)))
      else (true, .int v.toNat)]
    rw [(isolated_run items (failOn.getD []) es).result_eq hresult]
    refine List.map_congr_left fun v _ => (tuple_pushed (failOn.getD []) v).trans ?_
    rw [UInt64.toNat_mul]

/-- Two items, of which the second is to fail and whose tasks end in either order, beside
    `run_concurrent` on them; and a fair schedule, under which the call returns. -/
theorem run_fallible_runs_second :
    (∃ es result, runFallible [2, 3] (some [3]) es = some result ∧
      result = ([2, 3].zip [4, 9]).map fun p : UInt64 × UInt64 =>
        if p.1 ∈ [3] then
          (false, .str ("task panicked: " ++ ("forced failure at value=" ++ toString p.1)))
        else (true, .int p.2.toNat)) ∧
    ∃ schedule, EventRun.Fair (FallibleCall.step [2, 3] [3]) .init schedule ∧
      ∃ t, ((EventRun.after (FallibleCall.step [2, 3] [3]) .init schedule t).result
        [2, 3]).isSome := by
  have hruns := run_fallible_runs [2, 3] (some [3])
  constructor
  · let es : List FallibleEvent := [.main, .main, .complete 1, .complete 0, .main, .main]
    have hreturned : (runFallible [2, 3] (some [3]) es).isSome := by decide
    obtain ⟨result, hresult⟩ := Option.isSome_iff_exists.mp hreturned
    have hbeside : indexedResult (concurrentCall [2, 3] (fun _ => none)
        [.spawn, .spawn, .finish 1, .join 1, .finish 0, .join 0, .empty]) =
          some (.ok [4, 9]) :=
      indexedResult_of_perm [(1, 9), (0, 4)] [(0, 4), (1, 9)] (by decide) (by decide)
        (.swap _ _ _)
    exact ⟨es, result, hresult, hruns.2 es result _ _ _ hresult hbeside⟩
  · have : Nonempty FallibleEvent := ⟨.main⟩
    obtain ⟨schedule, hfair⟩ := EventRun.exists_fair (FallibleCall.step [2, 3] [3]) .init
    exact ⟨schedule, hfair, hruns.1 schedule hfair⟩

end FerroIo
