import FerroIo.EventRun
import Mathlib.Logic.Function.Basic

/- One shared register and any number of holders. A holder that enters saves the
   register's value and overrides it with `d`; one that leaves writes back what it
   saved. Holders may overlap in any order.

   Results, for a word in which each holder enters at most once and leaves at
   most once, after it has entered (`Ordered`):
     1. `blocks_iff`: the word splits into blocks, each opened and ended by one
        and the same holder (`Blocks`), exactly when the three-state automaton
        `phaseStep` accepts it;
     2. `value_eq_iff`: the register holds its first value `v` again after the
        word exactly when `v = d` or the word splits into blocks.
   So nested use restores the register (`Nested.blocks`), and of two overlapping
   holders the one that leaves last writes the override back. -/
namespace SaveRestore

/-- What a holder does. -/
inductive Event (K : Type*) where
  | enter (k : K)
  | leave (k : K)
  deriving DecidableEq, Repr

/-- A holder's own record. -/
inductive Slot (V : Type*) where
  | fresh
  | holding (saved : V)
  | left
  deriving DecidableEq, Repr

structure State (K V : Type*) where
  value : V
  slots : K → Slot V

variable {K V : Type*}

def init (v : V) : State K V := ⟨v, fun _ => .fresh⟩

/-- The word splits into blocks: each begins with the entering of a holder and
    ends when that holder leaves, whatever the others do in between. -/
inductive Blocks : List (Event K) → Prop where
  | nil : Blocks []
  | block (k : K) (mid rest : List (Event K)) :
      .leave k ∉ mid → Blocks rest → Blocks (.enter k :: mid ++ .leave k :: rest)

/-- Holders that leave in the reverse order of their entering, as `with`
    statements do. -/
inductive Nested : List (Event K) → Prop where
  | nil : Nested []
  | nest (k : K) (inner rest : List (Event K)) :
      Nested inner → Nested rest → Nested (.enter k :: inner ++ .leave k :: rest)

/-- Each holder enters at most once and leaves at most once, after it entered. -/
structure Ordered (w : List (Event K)) : Prop where
  nodup : w.Nodup
  after : ∀ pre k post, w = pre ++ .leave k :: post → .enter k ∈ pre

theorem Nested.blocks {w : List (Event K)} (h : Nested w) (hw : w.Nodup) : Blocks w := by
  induction h with
  | nil => exact .nil
  | nest k inner rest _ _ _ ih =>
    have hsplit := List.nodup_append.mp hw
    have hinner : .leave k ∉ inner := by
      intro hm
      exact hsplit.2.2 _ (List.mem_cons_of_mem _ hm) _ List.mem_cons_self rfl
    exact .block k inner rest hinner (ih (List.nodup_cons.mp hsplit.2.1).2)

/-- Every leaving in the word comes after its entering, given what came before. -/
def AfterEnter : List (Event K) → List (Event K) → Prop
  | _, [] => True
  | seen, .enter k :: w => AfterEnter (.enter k :: seen) w
  | seen, .leave k :: w => .enter k ∈ seen ∧ AfterEnter seen w

theorem afterEnter_iff {seen w : List (Event K)} : AfterEnter seen w ↔
    ∀ pre k post, w = pre ++ .leave k :: post → .enter k ∈ seen ∨ .enter k ∈ pre := by
  induction w generalizing seen with
  | nil => simp [AfterEnter]
  | cons e w ih =>
    cases e with
    | enter j =>
      simp only [AfterEnter, ih, List.mem_cons]
      constructor
      · intro h pre k post hw
        cases pre with
        | nil => cases hw
        | cons a pre =>
          obtain ⟨rfl, hw'⟩ := List.cons.inj hw
          rcases h pre k post hw' with (h | h) | h
          · exact .inr (h ▸ List.mem_cons_self)
          · exact .inl h
          · exact .inr (List.mem_cons_of_mem _ h)
      · intro h pre k post hw
        rcases h (.enter j :: pre) k post (by rw [hw]; rfl) with h | h
        · exact .inl (.inr h)
        · rcases List.mem_cons.mp h with h | h
          · exact .inl (.inl h)
          · exact .inr h
    | leave j =>
      simp only [AfterEnter, ih]
      constructor
      · intro ⟨hj, h⟩ pre k post hw
        cases pre with
        | nil =>
          obtain ⟨he, -⟩ := List.cons.inj hw
          cases he
          exact .inl hj
        | cons a pre =>
          obtain ⟨rfl, hw'⟩ := List.cons.inj hw
          exact (h pre k post hw').imp id (List.mem_cons_of_mem _)
      · intro h
        refine ⟨?_, ?_⟩
        · rcases h [] j w rfl with h | h
          · exact h
          · cases h
        · intro pre k post hw
          rcases h (.leave j :: pre) k post (by rw [hw]; rfl) with h | h
          · exact .inl h
          · rcases List.mem_cons.mp h with h | h
            · cases h
            · exact .inr h

theorem ordered_iff (w : List (Event K)) : Ordered w ↔ w.Nodup ∧ AfterEnter [] w := by
  simp only [afterEnter_iff, List.not_mem_nil, false_or]
  exact ⟨fun h => ⟨h.nodup, h.after⟩, fun h => ⟨h.1, h.2⟩⟩

section
variable [DecidableEq K]

instance decidableAfterEnter : ∀ seen w : List (Event K), Decidable (AfterEnter seen w)
  | _, [] => .isTrue trivial
  | seen, .enter k :: w => decidableAfterEnter (.enter k :: seen) w
  | seen, .leave k :: w =>
    have := decidableAfterEnter seen w
    inferInstanceAs (Decidable (.enter k ∈ seen ∧ AfterEnter seen w))

instance (w : List (Event K)) : Decidable (Ordered w) := decidable_of_iff _ (ordered_iff w).symm

def step (d : V) (s : State K V) : Event K → State K V
  | .enter k => ⟨d, Function.update s.slots k (.holding s.value)⟩
  | .leave k => match s.slots k with
    | .holding v => ⟨v, Function.update s.slots k .left⟩
    | _ => s

/-- A step that a holder takes in its turn: it enters fresh and leaves holding. -/
def InTurn (s : State K V) : Event K → Prop
  | .enter k => s.slots k = .fresh
  | .leave k => ∃ v, s.slots k = .holding v

end

/-! ## The automaton of the blocks -/

/-- Between blocks, in the block of one holder, or past the point where the
    register could come back. -/
inductive Phase (K : Type*) where
  | idle
  | held (k : K)
  | lost
  deriving DecidableEq, Repr

section
variable [DecidableEq K]

def phaseStep : Phase K → Event K → Phase K
  | .idle, .enter k => .held k
  | .idle, .leave _ => .lost
  | .held g, .leave k => if k = g then .idle else .held g
  | .held g, .enter _ => .held g
  | .lost, _ => .lost

theorem run_lost (w : List (Event K)) : EventRun.run phaseStep .lost w = .lost := by
  induction w with
  | nil => rfl
  | cons e w ih => exact ih

/-- A block lasts until its own holder leaves. -/
theorem run_held {g : K} {w : List (Event K)} (h : .leave g ∉ w) :
    EventRun.run phaseStep (.held g) w = .held g := by
  induction w with
  | nil => rfl
  | cons e w ih =>
    have hne : .leave g ≠ e := fun he => h (he ▸ List.mem_cons_self)
    have hw : .leave g ∉ w := fun hm => h (List.mem_cons_of_mem _ hm)
    have hstep : phaseStep (.held g) e = .held g := by
      cases e with
      | enter k => rfl
      | leave k =>
        have hk : k ≠ g := fun hk => hne (by rw [hk])
        simp only [phaseStep, if_neg hk]
    rw [EventRun.run_cons, hstep]
    exact ih hw

theorem run_block (g : K) (mid rest : List (Event K)) (h : .leave g ∉ mid) :
    EventRun.run phaseStep .idle (.enter g :: mid ++ .leave g :: rest) =
      EventRun.run phaseStep .idle rest := by
  have hmid : EventRun.run phaseStep (.held g) mid = .held g := run_held h
  simp [phaseStep, hmid]

theorem blocks_of_idle : ∀ (n : Nat) (w : List (Event K)), w.length ≤ n →
    EventRun.run phaseStep .idle w = .idle → Blocks w := by
  intro n
  induction n with
  | zero =>
    intro w hlen _
    rw [List.eq_nil_of_length_eq_zero (Nat.le_zero.mp hlen)]
    exact .nil
  | succ n ih =>
    intro w hlen hrun
    match w, hlen, hrun with
    | [], _, _ => exact .nil
    | .leave k :: w, _, hrun =>
      have hlost : EventRun.run phaseStep .lost w = .idle := hrun
      rw [run_lost] at hlost
      cases hlost
    | .enter g :: w, hlen, hrun =>
      have hheld : EventRun.run phaseStep (.held g) w = .idle := hrun
      by_cases hg : .leave g ∈ w
      · obtain ⟨mid, rest, rfl, hmid⟩ := List.eq_append_cons_of_mem hg
        refine .block g mid rest hmid (ih rest ?_ ?_)
        · simp at hlen
          omega
        · rw [← run_block g mid rest hmid]
          exact hrun
      · rw [run_held hg] at hheld
        cases hheld

theorem blocks_iff (w : List (Event K)) : Blocks w ↔ EventRun.run phaseStep .idle w = .idle := by
  constructor
  · intro h
    induction h with
    | nil => rfl
    | block k mid rest hmid _ ih => rw [run_block k mid rest hmid]; exact ih
  · exact blocks_of_idle w.length w (Nat.le_refl _)

instance (w : List (Event K)) : Decidable (Blocks w) := decidable_of_iff _ (blocks_iff w).symm

/-! ## The register follows the automaton -/

/-- In an ordered word every holder takes its steps in its turn. -/
theorem meets_inTurn (d : V) : ∀ (w : List (Event K)) (s : State K V), w.Nodup →
    (∀ k, .enter k ∈ w → s.slots k = .fresh) →
    (∀ pre k post, w = pre ++ .leave k :: post →
      .enter k ∈ pre ∨ ∃ v, s.slots k = .holding v) →
    EventRun.Meets (step d) InTurn s w := by
  intro w
  induction w with
  | nil => intro s _ _ _; trivial
  | cons e w ih =>
    intro s hnd hfresh hafter
    obtain ⟨hnot, hnd'⟩ := List.nodup_cons.mp hnd
    cases e with
    | enter k =>
      refine ⟨hfresh k List.mem_cons_self, ih _ hnd' ?_ ?_⟩
      · intro j hj
        have hne : j ≠ k := by
          intro hjk
          exact hnot (hjk ▸ hj)
        show Function.update s.slots k _ j = .fresh
        rw [Function.update_of_ne hne]
        exact hfresh j (List.mem_cons_of_mem _ hj)
      · intro pre j post hw
        by_cases hjk : j = k
        · refine .inr ⟨s.value, ?_⟩
          show Function.update s.slots k _ j = _
          rw [hjk, Function.update_self]
        · rcases hafter (.enter k :: pre) j post (by rw [hw]; rfl) with hm | ⟨v, hv⟩
          · rcases List.mem_cons.mp hm with heq | hm
            · exact absurd (Event.enter.inj heq) hjk
            · exact .inl hm
          · refine .inr ⟨v, ?_⟩
            show Function.update s.slots k _ j = _
            rw [Function.update_of_ne hjk, hv]
    | leave k =>
      obtain ⟨v, hv⟩ : ∃ v, s.slots k = .holding v := by
        rcases hafter [] k w rfl with hm | hv
        · cases hm
        · exact hv
      have hstep : step d s (.leave k) = ⟨v, Function.update s.slots k .left⟩ := by
        simp only [step, hv]
      refine ⟨⟨v, hv⟩, ?_⟩
      rw [hstep]
      refine ih _ hnd' ?_ ?_
      · intro j hj
        have hj' := hfresh j (List.mem_cons_of_mem _ hj)
        have hne : j ≠ k := by
          intro hjk
          rw [hjk, hv] at hj'
          cases hj'
        show Function.update s.slots k _ j = .fresh
        rw [Function.update_of_ne hne, hj']
      · intro pre j post hw
        have hne : j ≠ k := by
          intro hjk
          apply hnot
          rw [hw, hjk]
          simp
        rcases hafter (.leave k :: pre) j post (by rw [hw]; rfl) with hm | ⟨u, hu⟩
        · rcases List.mem_cons.mp hm with heq | hm
          · cases heq
          · exact .inl hm
        · refine .inr ⟨u, ?_⟩
          show Function.update s.slots k _ j = _
          rw [Function.update_of_ne hne, hu]

theorem Ordered.inTurn {w : List (Event K)} (h : Ordered w) (d v : V) :
    EventRun.Meets (step d) InTurn (init v) w :=
  meets_inTurn d w (init v) h.nodup (fun _ _ => rfl)
    (fun pre k post hw => .inl (h.after pre k post hw))

/-- The state the automaton's phase stands for: `v` is in the register between
    blocks and saved by the holder of the block; everything else is `d`. -/
def Follows (d v : V) (s : State K V) : Phase K → Prop
  | .idle => s.value = v ∧ ∀ k u, s.slots k = .holding u → u = d
  | .held g => s.value = d ∧ s.slots g = .holding v ∧
      ∀ k u, k ≠ g → s.slots k = .holding u → u = d
  | .lost => s.value = d ∧ ∀ k u, s.slots k = .holding u → u = d

theorem holding_update {slots : K → Slot V} {k j : K} {a : Slot V} {u : V}
    (h : Function.update slots k a j = .holding u) :
    (j = k ∧ a = .holding u) ∨ (j ≠ k ∧ slots j = .holding u) := by
  by_cases hjk : j = k
  · subst hjk
    rw [Function.update_self] at h
    exact .inl ⟨rfl, h⟩
  · rw [Function.update_of_ne hjk] at h
    exact .inr ⟨hjk, h⟩

theorem follows_enter {d v : V} {s : State K V} {p : Phase K} (h : Follows d v s p) (k : K)
    (hk : s.slots k = .fresh) : Follows d v (step d s (.enter k)) (phaseStep p (.enter k)) := by
  cases p with
  | idle =>
    obtain ⟨hv, hs⟩ := h
    refine ⟨rfl, ?_, ?_⟩
    · show Function.update s.slots k _ k = _
      rw [Function.update_self, hv]
    · intro j u hjk hu
      rcases holding_update hu with ⟨hj, -⟩ | ⟨-, hu⟩
      · exact absurd hj hjk
      · exact hs j u hu
  | held g =>
    obtain ⟨hv, hg, hs⟩ := h
    have hgk : g ≠ k := by
      intro hgk
      rw [hgk, hk] at hg
      cases hg
    refine ⟨rfl, ?_, ?_⟩
    · show Function.update s.slots k _ g = _
      rw [Function.update_of_ne hgk, hg]
    · intro j u hjg hu
      rcases holding_update hu with ⟨-, hu⟩ | ⟨-, hu⟩
      · rw [← Slot.holding.inj hu, hv]
      · exact hs j u hjg hu
  | lost =>
    obtain ⟨hv, hs⟩ := h
    refine ⟨rfl, ?_⟩
    intro j u hu
    rcases holding_update hu with ⟨-, hu⟩ | ⟨-, hu⟩
    · rw [← Slot.holding.inj hu, hv]
    · exact hs j u hu

theorem follows_leave {d v : V} {s : State K V} {p : Phase K} (h : Follows d v s p) (k : K)
    {w : V} (hk : s.slots k = .holding w) :
    Follows d v (step d s (.leave k)) (phaseStep p (.leave k)) := by
  have hstep : step d s (.leave k) = ⟨w, Function.update s.slots k .left⟩ := by
    simp only [step, hk]
  -- who still holds something held it before
  have hrest : ∀ j u, Function.update s.slots k .left j = .holding u →
      j ≠ k ∧ s.slots j = .holding u := by
    intro j u hu
    rcases holding_update hu with ⟨-, hu⟩ | hu
    · cases hu
    · exact hu
  rw [hstep]
  cases p with
  | idle =>
    obtain ⟨-, hs⟩ := h
    exact ⟨hs k w hk, fun j u hu => hs j u (hrest j u hu).2⟩
  | held g =>
    obtain ⟨-, hg, hs⟩ := h
    by_cases hkg : k = g
    · subst hkg
      have hw : v = w := Slot.holding.inj (hg.symm.trans hk)
      simp only [phaseStep, if_true]
      exact ⟨hw.symm, fun j u hu => hs j u (hrest j u hu).1 (hrest j u hu).2⟩
    · simp only [phaseStep, if_neg hkg]
      refine ⟨hs k w hkg hk, ?_, fun j u hjg hu => hs j u hjg (hrest j u hu).2⟩
      show Function.update s.slots k _ g = _
      rw [Function.update_of_ne (Ne.symm hkg), hg]
  | lost =>
    obtain ⟨-, hs⟩ := h
    exact ⟨hs k w hk, fun j u hu => hs j u (hrest j u hu).2⟩

/-- Step lemma: a step in turn keeps the register in its phase. -/
theorem follows_step {d v : V} {s : State K V} {p : Phase K} (e : Event K)
    (h : Follows d v s p) (he : InTurn s e) : Follows d v (step d s e) (phaseStep p e) := by
  cases e with
  | enter k => exact follows_enter h k he
  | leave k =>
    obtain ⟨w, hw⟩ := he
    exact follows_leave h k hw

theorem follows_run {d v : V} : ∀ (w : List (Event K)) {s : State K V} {p : Phase K},
    Follows d v s p → EventRun.Meets (step d) InTurn s w →
    Follows d v (EventRun.run (step d) s w) (EventRun.run phaseStep p w) := by
  intro w
  induction w with
  | nil => intro s p h _; exact h
  | cons e w ih => intro s p h hw; exact ih (follows_step e h hw.1) hw.2

/-- When the register comes back: it started with the override, or the word
    splits into blocks. -/
theorem value_eq_iff (d v : V) {w : List (Event K)} (hw : Ordered w) :
    (EventRun.run (step d) (init v) w).value = v ↔ v = d ∨ Blocks w := by
  have h : Follows d v (EventRun.run (step d) (init v) w) (EventRun.run phaseStep .idle w) := by
    refine follows_run w ⟨rfl, ?_⟩ (hw.inTurn d v)
    intro k u hu
    cases hu
  rw [blocks_iff]
  cases hp : EventRun.run phaseStep .idle w with
  | idle =>
    rw [hp] at h
    simp [h.1]
  | held g =>
    rw [hp] at h
    rw [h.1]
    simp [eq_comm]
  | lost =>
    rw [hp] at h
    rw [h.1]
    simp [eq_comm]

end

end SaveRestore
