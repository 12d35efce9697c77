import Mathlib.Data.List.Nodup
import Mathlib.Tactic.Common

/- A dictionary that keeps its insertion order: writing a present key replaces its
   value in place, writing a new key appends it. (`AList.insert` moves the key to
   the front, so iterating over it would visit the values in another order.)

   The keys of a dictionary are distinct, which every operation keeps. What the
   operations do to a lookup is `get_set` and `get_pop`; what they do to the values
   a loop visits is then `mem_values`. -/

structure OrderedDict (K V : Type*) where
  entries : List (K × V)
  nodup : (entries.map Prod.fst).Nodup

namespace OrderedDict

variable {K V : Type*}

theorem ext {d e : OrderedDict K V} (h : d.entries = e.entries) : d = e := by
  cases d
  cases e
  cases h
  rfl

/-- The values, in the order of the keys. -/
def values (d : OrderedDict K V) : List V := d.entries.map Prod.snd

variable [DecidableEq K]

def setIn (k : K) (v : V) : List (K × V) → List (K × V)
  | [] => [(k, v)]
  | (j, u) :: l => if j = k then (j, v) :: l else (j, u) :: setIn k v l

theorem mem_keys_setIn {k j : K} {v : V} {l : List (K × V)} :
    j ∈ (setIn k v l).map Prod.fst ↔ j = k ∨ j ∈ l.map Prod.fst := by
  induction l with
  | nil => simp [setIn]
  | cons e l ih =>
    obtain ⟨i, u⟩ := e
    simp only [setIn]
    split
    · next h => simp [h]
    · simp only [List.map_cons, List.mem_cons, ih]
      tauto

theorem nodup_setIn {k : K} {v : V} {l : List (K × V)} (h : (l.map Prod.fst).Nodup) :
    ((setIn k v l).map Prod.fst).Nodup := by
  induction l with
  | nil => simp [setIn]
  | cons e l ih =>
    obtain ⟨i, u⟩ := e
    obtain ⟨hi, hl⟩ := List.nodup_cons.mp h
    simp only [setIn]
    split
    · exact h
    · next hne =>
      refine List.nodup_cons.mpr ⟨?_, ih hl⟩
      intro hm
      rcases mem_keys_setIn.mp hm with heq | hm
      · exact hne heq
      · exact hi hm

def get (d : OrderedDict K V) (k : K) : Option V := d.entries.lookup k

def set (d : OrderedDict K V) (k : K) (v : V) : OrderedDict K V :=
  ⟨setIn k v d.entries, nodup_setIn d.nodup⟩

def pop (d : OrderedDict K V) (k : K) : OrderedDict K V :=
  ⟨d.entries.filter (fun e => e.1 ≠ k), d.nodup.sublist (List.filter_sublist.map _)⟩

theorem lookup_cons_eq (k j : K) (v : V) (l : List (K × V)) :
    ((j, v) :: l).lookup k = if k = j then some v else l.lookup k := by
  by_cases h : k = j
  · subst h
    simp
  · have hb : (k == j) = false := beq_false_of_ne h
    rw [List.lookup_cons, hb, if_neg h]

theorem lookup_setIn (k j : K) (v : V) (l : List (K × V)) :
    (setIn k v l).lookup j = if k = j then some v else l.lookup j := by
  induction l with
  | nil => simp [setIn, lookup_cons_eq, eq_comm]
  | cons e l ih =>
    obtain ⟨i, u⟩ := e
    simp only [setIn]
    split
    · next h =>
      subst h
      simp only [lookup_cons_eq, eq_comm (a := j)]
      split <;> rfl
    · next h =>
      simp only [lookup_cons_eq, ih]
      by_cases hij : j = i
      · simp [hij, Ne.symm h]
      · simp [hij]

theorem lookup_filter (k j : K) (l : List (K × V)) :
    (l.filter (fun e => e.1 ≠ k)).lookup j = if k = j then none else l.lookup j := by
  induction l with
  | nil => simp
  | cons e l ih =>
    obtain ⟨i, u⟩ := e
    by_cases hik : i = k
    · subst hik
      rw [List.filter_cons_of_neg (by simp), ih, lookup_cons_eq]
      by_cases hij : i = j
      · simp [hij]
      · simp [hij, Ne.symm hij]
    · rw [List.filter_cons_of_pos (by simpa using hik)]
      simp only [lookup_cons_eq, ih]
      by_cases hij : j = i
      · simp [hij, Ne.symm hik]
      · simp [hij]

theorem get_set (d : OrderedDict K V) (k j : K) (v : V) :
    (d.set k v).get j = if k = j then some v else d.get j :=
  lookup_setIn k j v d.entries

theorem get_pop (d : OrderedDict K V) (k j : K) :
    (d.pop k).get j = if k = j then none else d.get j :=
  lookup_filter k j d.entries

@[simp] theorem get_set_self (d : OrderedDict K V) (k : K) (v : V) :
    (d.set k v).get k = some v := by
  rw [get_set, if_pos rfl]

@[simp] theorem get_pop_self (d : OrderedDict K V) (k : K) : (d.pop k).get k = none := by
  rw [get_pop, if_pos rfl]

theorem setIn_setIn (k : K) (u v : V) (l : List (K × V)) :
    setIn k v (setIn k u l) = setIn k v l := by
  induction l with
  | nil => simp [setIn]
  | cons e l ih =>
    obtain ⟨i, w⟩ := e
    by_cases h : i = k <;> simp [setIn, h, ih]

theorem setIn_of_lookup {k : K} {v : V} {l : List (K × V)} (h : l.lookup k = some v) :
    setIn k v l = l := by
  induction l with
  | nil => cases h
  | cons e l ih =>
    obtain ⟨i, w⟩ := e
    rw [lookup_cons_eq] at h
    by_cases hik : k = i
    · simp only [if_pos hik, Option.some.injEq] at h
      simp [setIn, hik, h]
    · rw [if_neg hik] at h
      simp [setIn, Ne.symm hik, ih h]

/-- A value written over is gone. -/
theorem set_set (d : OrderedDict K V) (k : K) (u v : V) : (d.set k u).set k v = d.set k v :=
  ext (setIn_setIn k u v d.entries)

/-- Writing what is there changes nothing, not even the order. -/
theorem set_of_get {d : OrderedDict K V} {k : K} {v : V} (h : d.get k = some v) :
    d.set k v = d :=
  ext (setIn_of_lookup h)

theorem mem_of_lookup {k : K} {v : V} {l : List (K × V)} (h : l.lookup k = some v) :
    (k, v) ∈ l := by
  obtain ⟨l₁, l₂, rfl, -⟩ := List.lookup_eq_some_iff.mp h
  simp

theorem lookup_of_mem {k : K} {v : V} {l : List (K × V)} (hl : (l.map Prod.fst).Nodup)
    (h : (k, v) ∈ l) : l.lookup k = some v := by
  induction l with
  | nil => cases h
  | cons e l ih =>
    obtain ⟨hi, hl⟩ := List.nodup_cons.mp hl
    rcases List.mem_cons.mp h with rfl | h
    · exact List.lookup_cons_self
    · have hne : k ≠ e.1 := by
        intro hek
        apply hi
        rw [← hek]
        exact List.mem_map.mpr ⟨(k, v), h, rfl⟩
      rw [lookup_cons_eq, if_neg hne]
      exact ih hl h

/-- A loop over the values visits what some key holds. -/
theorem mem_values {d : OrderedDict K V} {v : V} : v ∈ d.values ↔ ∃ k, d.get k = some v := by
  constructor
  · intro h
    obtain ⟨⟨k, u⟩, hm, rfl⟩ := List.mem_map.mp h
    exact ⟨k, lookup_of_mem d.nodup hm⟩
  · intro ⟨k, h⟩
    exact List.mem_map.mpr ⟨(k, v), mem_of_lookup h, rfl⟩

theorem mem_values_set {d : OrderedDict K V} {k : K} {v x : V} :
    x ∈ (d.set k v).values ↔ x = v ∨ x ∈ (d.pop k).values := by
  simp only [mem_values, get_set, get_pop]
  constructor
  · intro ⟨j, h⟩
    by_cases hkj : k = j
    · rw [if_pos hkj] at h
      exact .inl (Option.some.inj h).symm
    · rw [if_neg hkj] at h
      exact .inr ⟨j, by rw [if_neg hkj, h]⟩
  · intro h
    rcases h with rfl | ⟨j, h⟩
    · exact ⟨k, if_pos rfl⟩
    · by_cases hkj : k = j
      · rw [if_pos hkj] at h
        cases h
      · rw [if_neg hkj] at h
        exact ⟨j, by rw [if_neg hkj, h]⟩

/-- The values are the one under a key and those under the other keys. -/
theorem mem_values_of_get {d : OrderedDict K V} {k : K} {v x : V} (h : d.get k = some v) :
    x ∈ d.values ↔ x = v ∨ x ∈ (d.pop k).values := by
  rw [← mem_values_set, set_of_get h]

end OrderedDict
