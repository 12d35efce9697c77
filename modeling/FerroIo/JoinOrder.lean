import Mathlib.Data.List.Sort

/- Tasks that are joined in any order, and their results put back in order by a sort.

   A delivery hands out the outcome of each task once, in an order of its own. A loop
   collects what is delivered and stops at the first outcome that is an error. What the
   developments below use:
     1. `sortByKey_of_perm`: sorting by a key undoes any reordering of a list along which
        the key rises;
     2. `collect_tasks`: if no task fails, collecting and sorting gives the tasks' results
        in the order of the tasks; if some task fails, the loop ends with the error of a
        task that failed, and never with results. -/
namespace JoinOrder

variable {ρ α ε κ : Type*}

/-- The outcomes of the tasks, each once. -/
structure Delivery (tasks : List ρ) where
  joined : List ρ
  perm : joined.Perm tasks

/-- The loop, with what it has collected. `item` reads an outcome. -/
def collect (item : ρ → Except ε α) : List α → List ρ → Except ε (List α)
  | out, [] => .ok out
  | out, res :: rest => match item res with
    | .ok x => collect item (out ++ [x]) rest
    | .error e => .error e

/-- What is delivered for a task that gives `x` unless it fails. -/
def outcome (failure : Option ε) (x : α) : Except ε α :=
  match failure with
  | none => .ok x
  | some e => .error e

def sortByKey [LE κ] [DecidableLE κ] (key : α → κ) (xs : List α) : List α :=
  xs.mergeSort fun a b => key a ≤ key b

section
variable {item : ρ → Except ε α} {tasks : List ρ}

theorem collect_ok {rs : List ρ} (h : ∀ r ∈ rs, ∃ x, item r = .ok x) (out : List α) :
    collect item out rs = .ok (out ++ rs.filterMap fun r => (item r).toOption) := by
  induction rs generalizing out with
  | nil => simp [collect]
  | cons r rs ih =>
    obtain ⟨x, hx⟩ := h r List.mem_cons_self
    have hrest : ∀ r' ∈ rs, ∃ x, item r' = .ok x :=
      fun r' hr' => h r' (List.mem_cons_of_mem r hr')
    simp only [collect, hx]
    rw [ih hrest, List.filterMap_cons_some (b := x) (by simp [hx, Except.toOption])]
    simp

theorem collect_error {rs : List ρ} {r : ρ} (hr : r ∈ rs) {e : ε} (he : item r = .error e)
    (out : List α) :
    ∃ r' ∈ rs, ∃ e', item r' = .error e' ∧ collect item out rs = .error e' := by
  induction rs generalizing out with
  | nil => cases hr
  | cons r₀ rs ih =>
    cases hitem : item r₀ with
    | error e₀ => exact ⟨r₀, List.mem_cons_self, e₀, hitem, by simp only [collect, hitem]⟩
    | ok x =>
      have hrest : r ∈ rs := by
        rcases List.mem_cons.mp hr with heq | htail
        · rw [heq, hitem] at he
          cases he
        · exact htail
      obtain ⟨r', hr', e', he', hcollect⟩ := ih hrest (out ++ [x])
      exact ⟨r', List.mem_cons_of_mem r₀ hr', e', he', by simp only [collect, hitem, hcollect]⟩

/-- Sorting undoes any reordering of a list along which the key rises. -/
theorem sortByKey_of_perm [LinearOrder κ] {key : α → κ} {xs ys : List α}
    (hys : ys.Pairwise fun a b => key a < key b) (hperm : xs.Perm ys) :
    sortByKey key xs = ys := by
  have hsorted : (sortByKey key xs).Pairwise fun a b => decide (key a ≤ key b) = true := by
    refine List.pairwise_mergeSort (fun a b c hab hbc => ?_) (fun a b => ?_) xs
    · rw [decide_eq_true_eq] at hab hbc ⊢
      exact le_trans hab hbc
    · simpa using le_total (key a) (key b)
  have hnodup : (ys.map key).Nodup := List.pairwise_map.mpr (hys.imp fun h => ne_of_lt h)
  have hsorted' : ys.Pairwise fun a b => decide (key a ≤ key b) = true :=
    hys.imp fun h => decide_eq_true (le_of_lt h)
  have hsame : (sortByKey key xs).Perm ys := (List.mergeSort_perm _ _).trans hperm
  refine List.Perm.eq_of_pairwise (fun a b ha hb hab hba => ?_) hsorted hsorted' hsame
  rw [decide_eq_true_eq] at hab hba
  exact List.inj_on_of_nodup_map hnodup (hsame.mem_iff.mp ha) hb (le_antisymm hab hba)

/-- In every order of the tasks: their results, in the order of the tasks. -/
theorem collect_sorted [LinearOrder κ] {key : α → κ} {xs : List α}
    (hxs : xs.Pairwise fun a b => key a < key b) (h : tasks.map item = xs.map .ok)
    (d : Delivery tasks) : (collect item [] d.joined).map (sortByKey key) = .ok xs := by
  have hall : ∀ r ∈ d.joined, ∃ x, item r = .ok x := by
    intro r hr
    have hmem : item r ∈ xs.map .ok := h ▸ List.mem_map_of_mem (d.perm.mem_iff.mp hr)
    obtain ⟨x, -, hx⟩ := List.mem_map.mp hmem
    exact ⟨x, hx.symm⟩
  have hresults : tasks.filterMap (fun r => (item r).toOption) = xs := by
    calc tasks.filterMap (fun r => (item r).toOption)
        = (tasks.map item).filterMap Except.toOption := by rw [List.filterMap_map]; rfl
      _ = (xs.map .ok).filterMap Except.toOption := by rw [h]
      _ = xs := by rw [List.filterMap_map]; exact List.filterMap_some
  have hperm : (d.joined.filterMap fun r => (item r).toOption).Perm xs :=
    hresults ▸ d.perm.filterMap _
  rw [collect_ok hall, List.nil_append]
  exact congrArg Except.ok (sortByKey_of_perm hxs hperm)

/-- In every order of the tasks: the error of a task that failed. -/
theorem collect_fails {r : ρ} (hr : r ∈ tasks) {e : ε} (he : item r = .error e)
    (d : Delivery tasks) :
    ∃ r' ∈ tasks, ∃ e', item r' = .error e' ∧ collect item [] d.joined = .error e' := by
  obtain ⟨r', hr', e', he', hcollect⟩ := collect_error (d.perm.mem_iff.mpr hr) he []
  exact ⟨r', d.perm.mem_iff.mp hr', e', he', hcollect⟩

/-- What the loop and the sort give for the tasks of a list of work, in every order. -/
theorem collect_tasks {β : Type*} [LinearOrder κ] {work : List β} {task : β → ρ}
    (key : α → κ) (value : β → α) (failure : β → Option ε)
    (hitem : ∀ b ∈ work, item (task b) = outcome (failure b) (value b))
    (hkey : work.Pairwise fun a b => key (value a) < key (value b))
    (d : Delivery (work.map task)) :
    ((∀ b ∈ work, failure b = none) →
      (collect item [] d.joined).map (sortByKey key) = .ok (work.map value)) ∧
    (∀ b ∈ work, failure b ≠ none → ∃ b' ∈ work, ∃ e, failure b' = some e ∧
      collect item [] d.joined = .error e) := by
  constructor
  · intro hnone
    refine collect_sorted (List.pairwise_map.mpr hkey) ?_ d
    rw [List.map_map, List.map_map]
    refine List.map_congr_left fun b hb => ?_
    simp only [Function.comp_apply, hitem b hb, hnone b hb, outcome]
  · intro b hb hne
    obtain ⟨e, he⟩ := Option.ne_none_iff_exists'.mp hne
    have hfails : item (task b) = .error e := by simp only [hitem b hb, he, outcome]
    obtain ⟨r, hr, e', he', hcollect⟩ := collect_fails (List.mem_map_of_mem hb) hfails d
    obtain ⟨b', hb', rfl⟩ := List.mem_map.mp hr
    rw [hitem b' hb'] at he'
    cases hf : failure b' with
    | none =>
      rw [hf] at he'
      cases he'
    | some e'' =>
      rw [hf] at he'
      cases he'
      exact ⟨b', hb', e', hf, hcollect⟩

/-- The same for tasks that are numbered, and give their number with their result. -/
theorem collect_numbered {β γ : Type*} {items : List β} {task : β × ℕ → ρ}
    {item : ρ → Except ε (ℕ × γ)} (value : β → γ) (failure : ℕ → Option ε)
    (hitem : ∀ b, item (task b) = outcome (failure b.2) (b.2, value b.1))
    (d : Delivery (items.zipIdx.map task)) :
    ((∀ i < items.length, failure i = none) →
      (collect item [] d.joined).map (fun out => (sortByKey Prod.fst out).map Prod.snd) =
        .ok (items.map value)) ∧
    (∀ i < items.length, failure i ≠ none → ∃ j < items.length, ∃ e, failure j = some e ∧
      collect item [] d.joined = .error e) := by
  have hkey : items.zipIdx.Pairwise fun a b => a.2 < b.2 := by
    refine List.pairwise_map.mp ?_
    rw [List.zipIdx_map_snd]
    exact List.pairwise_lt_range'
  obtain ⟨hok, hfail⟩ := collect_tasks Prod.fst (fun b : β × ℕ => (b.2, value b.1))
    (fun b => failure b.2) (fun b _ => hitem b) hkey d
  constructor
  · intro hnone
    have hcollect := hok fun b hb => hnone b.2 (List.snd_lt_of_mem_zipIdx hb)
    have hvalues : (items.zipIdx.map fun b => (b.2, value b.1)).map Prod.snd = items.map value := by
      calc (items.zipIdx.map fun b => (b.2, value b.1)).map Prod.snd
          = (items.zipIdx.map Prod.fst).map value := by simp only [List.map_map]; rfl
        _ = items.map value := by rw [List.zipIdx_map_fst]
    cases hout : collect item [] d.joined with
    | error e =>
      rw [hout] at hcollect
      cases hcollect
    | ok out =>
      rw [hout] at hcollect
      simp only [Except.map, Except.ok.injEq] at hcollect ⊢
      rw [hcollect, hvalues]
  · intro i hi hne
    have hmem : (items[i], i) ∈ items.zipIdx :=
      List.mk_mem_zipIdx_iff_getElem?.mpr (List.getElem?_eq_getElem hi)
    obtain ⟨b, hb, e, he, hcollect⟩ := hfail (items[i], i) hmem hne
    exact ⟨b.2, List.snd_lt_of_mem_zipIdx hb, e, he, hcollect⟩

end

end JoinOrder
