import FerroIo.EventRun
import FerroIo.JoinOrder

/- A set of tasks that one owner spawns, joins and drops, step by step.

   The owner spawns its tasks one after another, and only then joins them: each join
   hands out any task that has ended. The first outcome that is an error ends the owner's
   loop; the set is dropped with it, and every task that still runs is aborted. An aborted
   task stops where it next yields, or ends before it does. Every interleaving of the
   owner and of the tasks is a list of events.

   What the developments below use:
     1. `run_sound` and `returned_delivery`: what the owner returns in any run is what the
        loop collects from a delivery of the tasks, whose beginning is the order in which
        they were joined;
     2. `settled_of_returned`: once the owner has returned, no task runs unless it is
        being aborted, and after results every task was joined;
     3. `eventually_returned`: under every fair schedule the owner returns. -/
namespace JoinSet
open EventRun JoinOrder

variable {ρ α ε : Type*}

inductive Phase where
  | running
  | aborting
  | ended
  | joined
  | aborted
  deriving DecidableEq, Repr

/-- The set is dropped. -/
def Phase.drop : Phase → Phase
  | .running => .aborting
  | p => p

structure Pool (ε α : Type*) where
  /-- One entry for each task that was spawned. -/
  tasks : List Phase
  /-- The numbers of the tasks that were joined, first to last. -/
  order : List ℕ
  out : List α
  returned : Option (Except ε (List α))

def start : Pool ε α := { tasks := [], order := [], out := [], returned := none }

inductive Event where
  | spawn
  /-- A task comes to its end. -/
  | finish (i : ℕ)
  /-- The owner is handed the outcome of a task. -/
  | join (i : ℕ)
  /-- A task that is being aborted stops. -/
  | stop (i : ℕ)
  /-- The owner finds the set empty. -/
  | empty
  deriving DecidableEq, Repr

/-- The owner takes an outcome, and goes on or returns its error. -/
def Pool.take (p : Pool ε α) (i : ℕ) : Except ε α → Pool ε α
  | .ok x => { p with
      tasks := p.tasks.set i .joined, order := p.order ++ [i], out := p.out ++ [x] }
  | .error e => { p with
      tasks := (p.tasks.set i .joined).map Phase.drop, order := p.order ++ [i],
      returned := some (.error e) }

/-- `results` are the tasks' outcomes, and `item` is how the owner reads one. -/
def step (results : List ρ) (item : ρ → Except ε α) (p : Pool ε α) : Event → Pool ε α
  | .spawn =>
    if p.returned.isNone ∧ p.tasks.length < results.length then
      { p with tasks := p.tasks ++ [.running] }
    else p
  | .finish i =>
    if p.tasks[i]? = some .running ∨ p.tasks[i]? = some .aborting then
      { p with tasks := p.tasks.set i .ended }
    else p
  | .join i =>
    if p.returned.isNone ∧ p.tasks.length = results.length ∧ p.tasks[i]? = some .ended then
      match results[i]? with
      | some res => p.take i (item res)
      | none => p
    else p
  | .stop i =>
    if p.tasks[i]? = some .aborting then { p with tasks := p.tasks.set i .aborted } else p
  | .empty =>
    if p.returned.isNone ∧ p.tasks.length = results.length ∧ ∀ q ∈ p.tasks, q = .joined then
      { p with returned := some (.ok p.out) }
    else p

/-- The outcomes of the tasks with these numbers. -/
def delivered (results : List ρ) (order : List ℕ) : List ρ := order.filterMap (results[·]?)

/-! ## What a step can do -/

/-- All that an event can do, with the conditions under which it does it. -/
inductive Move (results : List ρ) (item : ρ → Except ε α) (p : Pool ε α) :
    Event → Pool ε α → Prop
  | spawn (hreturned : p.returned = none) (hroom : p.tasks.length < results.length) :
      Move results item p .spawn { p with tasks := p.tasks ++ [.running] }
  | finish (i : ℕ) (hi : p.tasks[i]? = some .running ∨ p.tasks[i]? = some .aborting) :
      Move results item p (.finish i) { p with tasks := p.tasks.set i .ended }
  | join (i : ℕ) (res : ρ) (hreturned : p.returned = none)
      (hall : p.tasks.length = results.length) (hi : p.tasks[i]? = some .ended)
      (hres : results[i]? = some res) : Move results item p (.join i) (p.take i (item res))
  | stop (i : ℕ) (hi : p.tasks[i]? = some .aborting) :
      Move results item p (.stop i) { p with tasks := p.tasks.set i .aborted }
  | empty (hreturned : p.returned = none) (hall : p.tasks.length = results.length)
      (hjoined : ∀ q ∈ p.tasks, q = .joined) :
      Move results item p .empty { p with returned := some (.ok p.out) }

section
variable {results : List ρ} {item : ρ → Except ε α} {p : Pool ε α}

theorem step_move (results : List ρ) (item : ρ → Except ε α) (p : Pool ε α) (e : Event) :
    step results item p e = p ∨ Move results item p e (step results item p e) := by
  cases e with
  | spawn =>
    simp only [step]
    split
    · next h => exact .inr (.spawn (Option.isNone_iff_eq_none.mp h.1) h.2)
    · exact .inl rfl
  | finish i =>
    simp only [step]
    split
    · next h => exact .inr (.finish i h)
    · exact .inl rfl
  | join i =>
    simp only [step]
    split
    · next h =>
      cases hres : results[i]? with
      | none => exact .inl rfl
      | some res => exact .inr (.join i res (Option.isNone_iff_eq_none.mp h.1) h.2.1 h.2.2 hres)
    · exact .inl rfl
  | stop i =>
    simp only [step]
    split
    · next h => exact .inr (.stop i h)
    · exact .inl rfl
  | empty =>
    simp only [step]
    split
    · next h => exact .inr (.empty (Option.isNone_iff_eq_none.mp h.1) h.2.1 h.2.2)
    · exact .inl rfl

end

/-- A task that is still to end, aborted or not. -/
def Runs (p : Pool ε α) (i : ℕ) : Prop :=
  p.tasks[i]? = some .running ∨ p.tasks[i]? = some .aborting

/-- A task that has ended, joined or not. -/
def Over (p : Pool ε α) (i : ℕ) : Prop :=
  p.tasks[i]? = some .ended ∨ p.tasks[i]? = some .joined

/-! ## The invariant -/

/-- What holds of every pool that the events lead to. -/
structure Sound (results : List ρ) (item : ρ → Except ε α) (p : Pool ε α) : Prop where
  fits : p.tasks.length ≤ results.length
  nodup : p.order.Nodup
  order_iff : ∀ i, i ∈ p.order ↔ p.tasks[i]? = some .joined
  /-- While the owner is at work, no task is being aborted. -/
  live : p.returned = none → ∀ q ∈ p.tasks, q ≠ .aborting ∧ q ≠ .aborted
  all : p.returned ≠ none → p.tasks.length = results.length
  /-- Once it has returned, no task runs as before. -/
  quiet : p.returned ≠ none → Phase.running ∉ p.tasks
  ongoing : p.returned = none → ∀ rest,
    collect item [] (delivered results p.order ++ rest) = collect item p.out rest
  collected : ∀ out, p.returned = some (.ok out) →
    collect item [] (delivered results p.order) = .ok out ∧ ∀ q ∈ p.tasks, q = .joined
  failed : ∀ e, p.returned = some (.error e) → ∀ rest,
    collect item [] (delivered results p.order ++ rest) = .error e

section
variable {results : List ρ} {item : ρ → Except ε α} {p p' : Pool ε α} {ts : List Phase}
  {q q' : Phase} {i j : ℕ}

theorem getElem?_set_eq_joined (hq : ts[i]? = some q) (hne : q ≠ .joined) (hne' : q' ≠ .joined) :
    (ts.set i q')[j]? = some .joined ↔ ts[j]? = some .joined := by
  by_cases hij : i = j
  · subst hij
    have hlt : i < ts.length := (List.getElem?_eq_some_iff.mp hq).1
    rw [List.getElem?_set_self hlt, hq]
    simp [hne, hne']
  · rw [List.getElem?_set_ne hij]

theorem mem_set_joined (hq : ts[i]? = some q) :
    (ts.set i .joined)[j]? = some .joined ↔ j = i ∨ ts[j]? = some .joined := by
  by_cases hij : i = j
  · subst hij
    simp [List.getElem?_set_self (List.getElem?_eq_some_iff.mp hq).1]
  · rw [List.getElem?_set_ne hij]
    exact (or_iff_right (Ne.symm hij)).symm

/-- Dropping the set changes no task but those that run. -/
theorem getElem?_drop_eq (hrunning : q ≠ .running) (haborting : q ≠ .aborting) :
    (ts.map Phase.drop)[j]? = some q ↔ ts[j]? = some q := by
  rw [List.getElem?_map]
  cases h : ts[j]? with
  | none => simp
  | some r => cases r <;> simp [Phase.drop, hrunning.symm, haborting.symm]

theorem runs_of_drop
    (h : (ts.map Phase.drop)[j]? = some .running ∨ (ts.map Phase.drop)[j]? = some .aborting) :
    ts[j]? = some .running ∨ ts[j]? = some .aborting := by
  rw [List.getElem?_map] at h
  cases hj : ts[j]? with
  | none => simp [hj] at h
  | some r => cases r <;> simp_all [Phase.drop]

theorem running_not_mem_drop : Phase.running ∉ ts.map Phase.drop := by
  intro h
  obtain ⟨q, -, hq⟩ := List.mem_map.mp h
  cases q <;> cases hq

theorem delivered_append (results : List ρ) (xs ys : List ℕ) :
    delivered results (xs ++ ys) = delivered results xs ++ delivered results ys :=
  List.filterMap_append

theorem delivered_singleton {res : ρ} (hres : results[i]? = some res) :
    delivered results [i] = [res] := by
  simp [delivered, hres]

/-- No task is forgotten. -/
theorem Move.length_le {e : Event} (h : Move results item p e p') :
    p.tasks.length ≤ p'.tasks.length := by
  cases h with
  | spawn hreturned hroom => simp
  | finish i hi | stop i hi => simp
  | join i res hreturned hall hi hres => cases hitem : item res <;> simp [Pool.take]
  | empty hreturned hall hjoined => exact Nat.le_refl _

/-- Only the event of its end makes a task one that has ended. -/
theorem Move.over {e : Event} (h : Move results item p e p') (hover : Over p' i) :
    Over p i ∨ e = .finish i := by
  cases h with
  | spawn hreturned hroom =>
    refine .inl ?_
    by_cases hi : i < p.tasks.length
    · simpa only [Over, List.getElem?_append_left hi] using hover
    · -- the task that is just spawned runs
      simp only [Over, List.getElem?_append_right (Nat.le_of_not_lt hi)] at hover
      cases hk : i - p.tasks.length <;> simp [hk] at hover
  | finish j hj =>
    by_cases hij : j = i
    · exact .inr (by rw [hij])
    · simp only [Over, List.getElem?_set_ne hij] at hover
      exact .inl hover
  | join j res hreturned hall hj hres =>
    by_cases hij : j = i
    · exact .inl (.inl (hij ▸ hj))
    · cases hitem : item res with
      | ok x =>
        simp only [Over, Pool.take, hitem, List.getElem?_set_ne hij] at hover
        exact .inl hover
      | error e =>
        rw [hitem, Over, Pool.take, getElem?_drop_eq (by decide) (by decide),
          getElem?_drop_eq (by decide) (by decide), List.getElem?_set_ne hij] at hover
        exact .inl hover
  | stop j hj =>
    by_cases hij : j = i
    · subst hij
      simp [Over, List.getElem?_set_self (List.getElem?_eq_some_iff.mp hj).1] at hover
    · simp only [Over, List.getElem?_set_ne hij] at hover
      exact .inl hover
  | empty hreturned hall hjoined => exact .inl hover

/-- Only the event that spawns a task makes it run. -/
theorem Move.runs {e : Event} (h : Move results item p e p') (hruns : Runs p' i) :
    Runs p i ∨ p.tasks.length < results.length := by
  have hset : ∀ {j q q'}, p.tasks[j]? = some q → q' ≠ .running → q' ≠ .aborting →
      ((p.tasks.set j q')[i]? = some .running ∨ (p.tasks.set j q')[i]? = some .aborting) →
      Runs p i := by
    intro j q q' hj hrunning haborting h
    by_cases hij : j = i
    · subst hij
      rw [List.getElem?_set_self (List.getElem?_eq_some_iff.mp hj).1] at h
      simp [hrunning, haborting] at h
    · rwa [List.getElem?_set_ne hij] at h
  cases h with
  | spawn hreturned hroom => exact .inr hroom
  | finish j hj =>
    refine .inl ?_
    rcases hj with hj | hj <;> exact hset hj (by decide) (by decide) hruns
  | join j res hreturned hall hj hres =>
    refine .inl ?_
    cases hitem : item res with
    | ok x =>
      rw [hitem] at hruns
      exact hset hj (by decide) (by decide) hruns
    | error e =>
      rw [hitem] at hruns
      have hstays := runs_of_drop hruns
      exact hset hj (by decide) (by decide) hstays
  | stop j hj => exact .inl (hset hj (by decide) (by decide) hruns)
  | empty hreturned hall hjoined => exact .inl hruns

theorem start_sound (results : List ρ) (item : ρ → Except ε α) :
    Sound results item (start : Pool ε α) where
  fits := Nat.zero_le _
  nodup := List.nodup_nil
  order_iff := by simp [start]
  live := by simp [start]
  all := by simp [start]
  quiet := by simp [start]
  ongoing := fun _ _ => rfl
  collected := by simp [start]
  failed := by simp [start]

/-- A task other than a joined one changes its phase, to none that runs or is joined. -/
theorem Sound.change (h : Sound results item p) (hq : p.tasks[i]? = some q) (hne : q ≠ .joined)
    (hjoined : q' ≠ .joined) (hrunning : q' ≠ .running)
    (hlive : p.returned = none → q' ≠ .aborting ∧ q' ≠ .aborted) :
    Sound results item { p with tasks := p.tasks.set i q' } where
  fits := by simpa using h.fits
  nodup := h.nodup
  order_iff := fun j => (h.order_iff j).trans (getElem?_set_eq_joined hq hne hjoined).symm
  live := by
    intro hnone r hr
    rcases List.mem_or_eq_of_mem_set hr with hmem | heq
    · exact h.live hnone r hmem
    · exact heq ▸ hlive hnone
  all := by simpa using h.all
  quiet := by
    intro hret hmem
    rcases List.mem_or_eq_of_mem_set hmem with hmem | heq
    · exact h.quiet hret hmem
    · exact hrunning heq.symm
  ongoing := h.ongoing
  collected := by
    intro out hout
    have hall := (h.collected out hout).2
    exact absurd (hall q (List.mem_of_getElem? hq)) hne
  failed := h.failed

theorem Sound.spawn (h : Sound results item p) (hreturned : p.returned = none)
    (hroom : p.tasks.length < results.length) :
    Sound results item { p with tasks := p.tasks ++ [.running] } where
  fits := by
    rw [List.length_append, List.length_singleton]
    exact hroom
  nodup := h.nodup
  order_iff := by
    intro j
    rw [h.order_iff j]
    by_cases hj : j < p.tasks.length
    · rw [List.getElem?_append_left hj]
    · rw [List.getElem?_append_right (Nat.le_of_not_lt hj),
        List.getElem?_eq_none (Nat.le_of_not_lt hj)]
      cases j - p.tasks.length <;> simp
  live := by
    intro hnone q hq
    rcases List.mem_append.mp hq with hmem | hnew
    · exact h.live hnone q hmem
    · rw [List.mem_singleton.mp hnew]
      exact ⟨by decide, by decide⟩
  all := fun hret => absurd hreturned hret
  quiet := fun hret => absurd hreturned hret
  ongoing := h.ongoing
  collected := by simp [hreturned]
  failed := by simp [hreturned]

theorem Sound.empty (h : Sound results item p) (hreturned : p.returned = none)
    (hall : p.tasks.length = results.length) (hjoined : ∀ q ∈ p.tasks, q = .joined) :
    Sound results item { p with returned := some (.ok p.out) } where
  fits := h.fits
  nodup := h.nodup
  order_iff := h.order_iff
  live := by simp
  all := fun _ => hall
  quiet := fun _ hmem => absurd (hjoined _ hmem) (by decide)
  ongoing := by simp
  collected := by
    intro out hout
    have hnil := h.ongoing hreturned []
    rw [List.append_nil] at hnil
    cases hout
    exact ⟨hnil, hjoined⟩
  failed := by simp

/-- What the loop makes of the next outcome and of those after it. -/
theorem Sound.next (h : Sound results item p) {res : ρ} (hreturned : p.returned = none)
    (hres : results[i]? = some res) (rest : List ρ) :
    collect item [] (delivered results (p.order ++ [i]) ++ rest) =
      collect item p.out (res :: rest) := by
  rw [delivered_append, delivered_singleton hres, List.append_assoc]
  exact h.ongoing hreturned (res :: rest)

theorem Sound.nodup_join (h : Sound results item p) (hi : p.tasks[i]? = some .ended) :
    (p.order ++ [i]).Nodup := by
  have hnew : i ∉ p.order := by
    rw [h.order_iff i, hi]
    simp
  exact List.nodup_append.mpr ⟨h.nodup, List.nodup_singleton i, by grind⟩

theorem Sound.order_join_iff (h : Sound results item p) (hi : p.tasks[i]? = some .ended) (j : ℕ) :
    j ∈ p.order ++ [i] ↔ (p.tasks.set i .joined)[j]? = some .joined := by
  rw [mem_set_joined hi, List.mem_append, List.mem_singleton, h.order_iff j, or_comm]

theorem Sound.take_ok (h : Sound results item p) {res : ρ} {x : α} (hreturned : p.returned = none)
    (hi : p.tasks[i]? = some .ended) (hres : results[i]? = some res) (hitem : item res = .ok x) :
    Sound results item (p.take i (.ok x)) where
  fits := by simpa [Pool.take] using h.fits
  nodup := h.nodup_join hi
  order_iff := h.order_join_iff hi
  live := by
    intro _ r hr
    rcases List.mem_or_eq_of_mem_set hr with hmem | heq
    · exact h.live hreturned r hmem
    · rw [heq]
      exact ⟨by decide, by decide⟩
  all := fun hret => absurd hreturned hret
  quiet := fun hret => absurd hreturned hret
  ongoing := by
    intro _ rest
    refine (h.next hreturned hres rest).trans ?_
    simp only [collect, hitem, Pool.take]
  collected := by simp [Pool.take, hreturned]
  failed := by simp [Pool.take, hreturned]

theorem Sound.take_error (h : Sound results item p) {res : ρ} {e : ε}
    (hreturned : p.returned = none) (hall : p.tasks.length = results.length)
    (hi : p.tasks[i]? = some .ended) (hres : results[i]? = some res)
    (hitem : item res = .error e) : Sound results item (p.take i (.error e)) where
  fits := by simpa [Pool.take] using h.fits
  nodup := h.nodup_join hi
  order_iff := by
    intro j
    exact (h.order_join_iff hi j).trans (getElem?_drop_eq (by decide) (by decide)).symm
  live := by simp [Pool.take]
  all := fun _ => by simpa [Pool.take] using hall
  quiet := fun _ => running_not_mem_drop
  ongoing := by simp [Pool.take]
  collected := by simp [Pool.take]
  failed := by
    intro e' he' rest
    cases he'
    refine (h.next hreturned hres rest).trans ?_
    simp only [collect, hitem]

theorem Sound.take (h : Sound results item p) {res : ρ} (hreturned : p.returned = none)
    (hall : p.tasks.length = results.length) (hi : p.tasks[i]? = some .ended)
    (hres : results[i]? = some res) : Sound results item (p.take i (item res)) := by
  cases hitem : item res with
  | ok x => exact h.take_ok hreturned hi hres hitem
  | error e => exact h.take_error hreturned hall hi hres hitem

theorem step_sound (h : Sound results item p) (e : Event) :
    Sound results item (step results item p e) := by
  rcases step_move results item p e with hsame | hmove
  · rw [hsame]
    exact h
  · generalize step results item p e = p' at hmove
    cases hmove with
    | spawn hreturned hroom => exact h.spawn hreturned hroom
    | finish i hi =>
      rcases hi with hi | hi <;>
        exact h.change hi (by decide) (by decide) (by decide) fun _ => ⟨by decide, by decide⟩
    | join i res hreturned hall hi hres => exact h.take hreturned hall hi hres
    | stop i hi =>
      refine h.change hi (by decide) (by decide) (by decide) fun hnone => ?_
      exact absurd rfl (h.live hnone _ (List.mem_of_getElem? hi)).1
    | empty hreturned hall hjoined => exact h.empty hreturned hall hjoined

theorem run_sound (results : List ρ) (item : ρ → Except ε α) (es : List Event) :
    Sound results item (run (step results item) start es) :=
  run_inv (I := Sound results item) (fun _ e h => step_sound h e) (start_sound results item) es

/-! ## What the owner returns -/

/-- The tasks joined so far, and then those that are not. -/
theorem Sound.perm (h : Sound results item p) :
    (p.order ++ (List.range results.length).filter (· ∉ p.order)).Perm
      (List.range results.length) := by
  have hlt : ∀ i ∈ p.order, i < results.length := by
    intro i hi
    have hlen : i < p.tasks.length := (List.getElem?_eq_some_iff.mp ((h.order_iff i).mp hi)).1
    exact Nat.lt_of_lt_of_le hlen h.fits
  refine (List.perm_ext_iff_of_nodup ?_ List.nodup_range).mpr fun i => ?_
  · refine List.nodup_append.mpr ⟨h.nodup, List.nodup_range.filter _, fun a ha b hb hab => ?_⟩
    simp only [List.mem_filter, decide_eq_true_eq] at hb
    exact hb.2 (hab ▸ ha)
  · by_cases hi : i ∈ p.order
    · simp [hi, hlt i hi]
    · simp [hi]

theorem delivered_range (results : List ρ) :
    delivered results (List.range results.length) = results := by
  have hget : (List.range results.length).map (results[·]?) = results.map some := by
    apply List.ext_getElem
    · simp
    · intro i h _
      simp
  calc delivered results (List.range results.length)
      = ((List.range results.length).map (results[·]?)).filterMap id := by
        rw [List.filterMap_map]
        rfl
    _ = (results.map some).filterMap id := by rw [hget]
    _ = results := by rw [List.filterMap_map]; exact List.filterMap_some

/-- The joins so far, completed to a delivery of all tasks. -/
def Sound.delivery (h : Sound results item p) : Delivery results where
  joined := delivered results p.order ++
    delivered results ((List.range results.length).filter (· ∉ p.order))
  perm := by
    have hperm := h.perm.filterMap (results[·]?)
    rw [List.filterMap_append] at hperm
    exact hperm.trans (List.Perm.of_eq (delivered_range results))

/-- The owner returns what its loop collects from a delivery that begins with the tasks
it joined. -/
theorem Sound.returned_delivery (h : Sound results item p) {r : Except ε (List α)}
    (hr : p.returned = some r) :
    ∃ d : Delivery results, delivered results p.order <+: d.joined ∧
      r = collect item [] d.joined := by
  refine ⟨h.delivery, List.prefix_append _ _, ?_⟩
  cases r with
  | error e => exact (h.failed e hr _).symm
  | ok out =>
    obtain ⟨hcollect, hjoined⟩ := h.collected out hr
    have hlen := h.all (by simp [hr])
    -- every task was joined, so none is left to deliver
    have hnone : (List.range results.length).filter (· ∉ p.order) = [] := by
      refine List.filter_eq_nil_iff.mpr fun i hi => ?_
      rw [List.mem_range, ← hlen] at hi
      have hi' : p.tasks[i]? = some .joined := by
        rw [List.getElem?_eq_getElem hi, hjoined _ (List.getElem_mem hi)]
      simpa using (h.order_iff i).mpr hi'
    simp only [Sound.delivery, hnone, delivered, List.filterMap_nil, List.append_nil]
    exact hcollect.symm

/-- Once the owner has returned, no task runs unless it is being aborted; after results,
every task was joined. -/
theorem Sound.settled_of_returned (h : Sound results item p) {r : Except ε (List α)}
    (hr : p.returned = some r) :
    Phase.running ∉ p.tasks ∧
      ∀ out, r = .ok out → ∀ i < results.length, p.tasks[i]? = some .joined := by
  have hret : p.returned ≠ none := by simp [hr]
  refine ⟨h.quiet hret, fun out hout i hi => ?_⟩
  have hlt : i < p.tasks.length := by rw [h.all hret]; exact hi
  rw [List.getElem?_eq_getElem hlt,
    (h.collected out (by rw [hr, hout])).2 _ (List.getElem_mem hlt)]

/-- What the owner has returned stands. -/
theorem step_returned (e : Event) {r : Except ε (List α)} (hr : p.returned = some r) :
    (step results item p e).returned = some r := by
  rcases step_move results item p e with hsame | hmove
  · rw [hsame, hr]
  · generalize step results item p e = p' at hmove
    cases hmove with
    | spawn hnone _ | join _ _ hnone _ _ _ | empty hnone _ _ =>
      rw [hnone] at hr
      cases hr
    | finish i _ | stop i _ => exact hr

/-! ## Termination -/

/-- How many more steps a task in this phase can be part of. -/
def Phase.weight : Phase → ℕ
  | .running => 3
  | .aborting => 2
  | .ended => 1
  | .joined => 0
  | .aborted => 0

/-- The sum of the weights along a list. -/
def total {κ : Type*} (w : κ → ℕ) : List κ → ℕ
  | [] => 0
  | q :: qs => w q + total w qs

/-- Steps still to come, at most; `n` is how many tasks there are to be. -/
def measure (n : ℕ) (p : Pool ε α) : ℕ :=
  4 * (n - p.tasks.length) + total Phase.weight p.tasks + if p.returned.isNone then 1 else 0

theorem total_append {κ : Type*} (w : κ → ℕ) (xs ys : List κ) :
    total w (xs ++ ys) = total w xs + total w ys := by
  induction xs with
  | nil => exact (Nat.zero_add _).symm
  | cons x xs ih =>
    simp only [List.cons_append, total, ih]
    omega

theorem total_set {κ : Type*} (w : κ → ℕ) {xs : List κ} {x : κ} (hx : xs[i]? = some x) (y : κ) :
    total w (xs.set i y) + w x = total w xs + w y := by
  induction xs generalizing i with
  | nil => cases hx
  | cons z xs ih =>
    cases i with
    | zero =>
      cases hx
      simp only [List.set_cons_zero, total]
      omega
    | succ i =>
      have hrest := ih hx
      simp only [List.set_cons_succ, total]
      omega

theorem total_lt {κ : Type*} {w w' : κ → ℕ} {qs : List κ} {q : κ} (hq : q ∈ qs)
    (hless : w' q < w q) (hle : ∀ r, w' r ≤ w r) : total w' qs < total w qs := by
  have hall : ∀ rs : List κ, total w' rs ≤ total w rs := by
    intro rs
    induction rs with
    | nil => exact Nat.le_refl _
    | cons r rs ih => exact Nat.add_le_add (hle r) ih
  induction qs with
  | nil => cases hq
  | cons r rs ih =>
    rcases List.mem_cons.mp hq with rfl | hmem
    · exact Nat.add_lt_add_of_lt_of_le hless (hall rs)
    · exact Nat.add_lt_add_of_le_of_lt (hle r) (ih hmem)

theorem total_drop (ts : List Phase) :
    total Phase.weight (ts.map Phase.drop) ≤ total Phase.weight ts := by
  induction ts with
  | nil => exact Nat.le_refl _
  | cons t ts ih =>
    have ht : t.drop.weight ≤ t.weight := by cases t <;> decide
    simp only [List.map_cons, total]
    omega

theorem Move.lower {e : Event} (h : Move results item p e p') :
    measure results.length p' < measure results.length p := by
  cases h with
  | spawn hreturned hroom =>
    simp only [measure, List.length_append, List.length_singleton, total_append, total,
      Phase.weight]
    omega
  | finish i hi =>
    rcases hi with hi | hi <;>
    · have hset := total_set Phase.weight hi .ended
      simp only [measure, List.length_set, Phase.weight] at hset ⊢
      omega
  | join i res hreturned hall hi hres =>
    have hset := total_set Phase.weight hi .joined
    simp only [Phase.weight] at hset
    cases hitem : item res with
    | ok x =>
      simp only [measure, Pool.take, List.length_set, hreturned]
      omega
    | error e =>
      have hdrop := total_drop (p.tasks.set i .joined)
      simp only [measure, Pool.take, List.length_map, List.length_set, hreturned,
        Option.isNone_none, Option.isNone_some, if_true]
      simp only [Bool.false_eq_true, if_false]
      omega
  | stop i hi =>
    have hset := total_set Phase.weight hi .aborted
    simp only [measure, List.length_set, Phase.weight] at hset ⊢
    omega
  | empty hreturned hall hjoined =>
    simp only [measure, hreturned, Option.isNone_none, Option.isNone_some, if_true]
    simp

theorem step_measure (results : List ρ) (item : ρ → Except ε α) (p : Pool ε α) (e : Event) :
    step results item p e = p ∨
      measure results.length (step results item p e) < measure results.length p :=
  (step_move results item p e).imp id Move.lower

/-- Until the owner has returned, something can be done. -/
theorem Sound.progress (h : Sound results item p) (hnone : p.returned = none) :
    ∃ e, step results item p e ≠ p := by
  -- a move lowers the measure, so it is not to the same pool
  have hact : ∀ {e p'}, Move results item p e p' → step results item p e = p' →
      step results item p e ≠ p := by
    intro e p' hmove heq hsame
    have hlower := hmove.lower
    rw [← heq, hsame] at hlower
    exact Nat.lt_irrefl _ hlower
  have hisNone : p.returned.isNone = true := Option.isNone_iff_eq_none.mpr hnone
  by_cases hroom : p.tasks.length < results.length
  · exact ⟨.spawn, hact (.spawn hnone hroom) (if_pos ⟨hisNone, hroom⟩)⟩
  · have hall : p.tasks.length = results.length := Nat.le_antisymm h.fits (Nat.le_of_not_lt hroom)
    by_cases hjoined : ∀ q ∈ p.tasks, q = .joined
    · exact ⟨.empty, hact (.empty hnone hall hjoined) (if_pos ⟨hisNone, hall, hjoined⟩)⟩
    · push Not at hjoined
      obtain ⟨q, hq, hne⟩ := hjoined
      obtain ⟨i, hi⟩ := List.mem_iff_getElem?.mp hq
      cases q with
      | running => exact ⟨.finish i, hact (.finish i (.inl hi)) (if_pos (.inl hi))⟩
      | aborting => exact absurd rfl (h.live hnone _ hq).1
      | ended =>
        have hlt : i < results.length := hall ▸ (List.getElem?_eq_some_iff.mp hi).1
        have hres : results[i]? = some results[i] := List.getElem?_eq_getElem hlt
        refine ⟨.join i, hact (.join i results[i] hnone hall hi hres) ?_⟩
        simp only [step, hisNone, hall, hi, hres, and_self, if_true]
      | joined => exact absurd rfl hne
      | aborted => exact absurd rfl (h.live hnone _ hq).2

/-- Under every fair schedule the owner returns. -/
theorem eventually_returned (results : List ρ) (item : ρ → Except ε α) {schedule : ℕ → Event}
    (hfair : Fair (step results item) start schedule) :
    ∃ t r, (after (step results item) start schedule t).returned = some r := by
  obtain ⟨t, ht⟩ := eventually_of_fair (I := Sound results item) (P := fun p => p.returned ≠ none)
    (fun _ e h => step_sound h e) (fun p e _ => step_measure results item p e)
    (fun p h hP => h.progress (not_not.mp hP)) (start_sound results item) hfair
  exact ⟨t, Option.ne_none_iff_exists'.mp ht⟩

end

end JoinSet
