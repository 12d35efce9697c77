import Mathlib.Data.List.Basic

/- The body of a module that binds names to values of its own and to the values of
   another module, some of them only where the other module has an attribute.

   What the developments below use:
     1. `exec_ok_iff`: when the body runs to its end;
     2. `exec_bound`: which names it then binds;
     3. `exec_foreign`, `exec_defined`: what a name is bound to that the body does not bind
        to a value of its own, or that it only defines. -/
namespace ModuleBody

variable {N A : Type*}

abbrev Names (N A : Type*) := N → Option A

/-- `define` is any statement that binds the name to a value of the module's own. -/
inductive Stmt (N : Type*) where
  | define (name : N)
  | rename (name source : N)
  | aliasOf (name : N)
  deriving DecidableEq, Repr

inductive Item (N : Type*) where
  | always (s : Stmt N)
  | ifHasattr (attr : N) (body : List (Stmt N))
  deriving DecidableEq, Repr

inductive Missing (N : Type*) where
  | name (n : N)
  | attribute (n : N)
  deriving DecidableEq, Repr

def Stmt.name : Stmt N → N
  | .define n => n
  | .rename n _ => n
  | .aliasOf n => n

/-- The attribute of the other module that the statement reads. -/
def Stmt.attribute : Stmt N → Option N
  | .aliasOf n => some n
  | _ => none

/-- The statements that are run, given the attributes that the other module has. -/
def Item.stmts (has : N → Bool) : Item N → List (Stmt N)
  | .always s => [s]
  | .ifHasattr attr body => if has attr then body else []

def stmts (has : N → Bool) (body : List (Item N)) : List (Stmt N) :=
  body.flatMap (Item.stmts has)

def Stmt.value (other : Names N A) (own : N → A) (ns : Names N A) :
    Stmt N → Except (Missing N) A
  | .define n => .ok (own n)
  | .rename _ source =>
    match ns source with
    | some a => .ok a
    | none => .error (.name source)
  | .aliasOf n =>
    match other n with
    | some a => .ok a
    | none => .error (.attribute n)

section
variable [DecidableEq N]

def execAll (other : Names N A) (own : N → A) :
    List (Stmt N) → Names N A → Except (Missing N) (Names N A)
  | [], ns => .ok ns
  | s :: rest, ns =>
    match s.value other own ns with
    | .ok a => execAll other own rest (Function.update ns s.name (some a))
    | .error missing => .error missing

def exec (other : Names N A) (own : N → A) (body : List (Item N)) (ns : Names N A) :
    Except (Missing N) (Names N A) :=
  execAll other own (stmts (fun n => (other n).isSome) body) ns

/-- Every `rename` takes a name that is bound, or that a statement before it binds. -/
def RenamesBound : List N → List (Stmt N) → Prop
  | _, [] => True
  | bound, s :: rest => (∀ n source, s = .rename n source → source ∈ bound) ∧
      RenamesBound (s.name :: bound) rest

variable {other : Names N A} {own : N → A} {ns ns' : Names N A} {ss : List (Stmt N)} {n : N}

theorem execAll_cons_ok {s : Stmt N} (h : execAll other own (s :: ss) ns = .ok ns') :
    ∃ a, s.value other own ns = .ok a ∧
      execAll other own ss (Function.update ns s.name (some a)) = .ok ns' := by
  simp only [execAll] at h
  cases hvalue : s.value other own ns with
  | error missing =>
    rw [hvalue] at h
    cases h
  | ok a =>
    rw [hvalue] at h
    exact ⟨a, rfl, h⟩

/-- No binding is taken away. -/
theorem execAll_bound (h : execAll other own ss ns = .ok ns') :
    (ns' n).isSome ↔ (ns n).isSome ∨ n ∈ ss.map Stmt.name := by
  induction ss generalizing ns with
  | nil =>
    cases h
    simp
  | cons s rest ih =>
    obtain ⟨a, -, hrest⟩ := execAll_cons_ok h
    rw [ih hrest, List.map_cons, List.mem_cons]
    by_cases hn : n = s.name
    · simp [hn]
    · simp [hn]

/-- Bindings that all give `v` leave the name bound to `v`. -/
theorem execAll_value {v : Option A} (h : execAll other own ss ns = .ok ns')
    (hv : ∀ s ∈ ss, s.name = n → ∀ ns a, s.value other own ns = .ok a → some a = v) :
    ns' n = if n ∈ ss.map Stmt.name then v else ns n := by
  induction ss generalizing ns with
  | nil =>
    cases h
    simp
  | cons s rest ih =>
    obtain ⟨a, hvalue, hrest⟩ := execAll_cons_ok h
    rw [ih hrest fun s' hs' => hv s' (List.mem_cons_of_mem _ hs')]
    by_cases hn : n = s.name
    · have ha : some a = v := hv s List.mem_cons_self hn.symm ns a hvalue
      simp [hn, ha]
    · simp [hn]

theorem execAll_ok_iff {bound : List N} (hren : RenamesBound bound ss)
    (hbound : ∀ n ∈ bound, (ns n).isSome) :
    (∃ ns', execAll other own ss ns = .ok ns') ↔
      ∀ n ∈ ss.filterMap Stmt.attribute, (other n).isSome := by
  induction ss generalizing bound ns with
  | nil => simp [execAll]
  | cons s rest ih =>
    obtain ⟨hs, hrest⟩ := hren
    have hkeep : ∀ a, ∀ n ∈ s.name :: bound, (Function.update ns s.name (some a) n).isSome := by
      intro a n hn
      by_cases hname : n = s.name
      · simp [hname]
      · simpa [hname] using hbound n ((List.mem_cons.mp hn).resolve_left hname)
    have hstep : ∀ a, s.value other own ns = .ok a →
        ((∃ ns', execAll other own (s :: rest) ns = .ok ns') ↔
          ∀ n ∈ rest.filterMap Stmt.attribute, (other n).isSome) := by
      intro a ha
      simp only [execAll, ha]
      exact ih hrest (hkeep a)
    cases s with
    | define n =>
      rw [hstep _ rfl]
      rfl
    | rename n source =>
      obtain ⟨a, ha⟩ := Option.isSome_iff_exists.mp (hbound source (hs n source rfl))
      rw [hstep a (by simp [Stmt.value, ha])]
      rfl
    | aliasOf n =>
      cases ho : other n with
      | none =>
        refine ⟨?_, ?_⟩
        · rintro ⟨ns', h⟩
          obtain ⟨a, hvalue, -⟩ := execAll_cons_ok h
          simp [Stmt.value, ho] at hvalue
        · intro h
          have hsome := h n List.mem_cons_self
          simp [ho] at hsome
      | some a =>
        have hattr : (Stmt.aliasOf n :: rest).filterMap Stmt.attribute =
            n :: rest.filterMap Stmt.attribute := rfl
        rw [hstep a (by simp [Stmt.value, ho]), hattr, List.forall_mem_cons]
        simp [ho]

/-! ## Bodies -/

variable {body : List (Item N)}

theorem exec_ok_iff (h : RenamesBound [] (stmts (fun n => (other n).isSome) body)) :
    (∃ ns', exec other own body ns = .ok ns') ↔
      ∀ n ∈ (stmts (fun n => (other n).isSome) body).filterMap Stmt.attribute,
        (other n).isSome :=
  execAll_ok_iff h fun _ hn => absurd hn List.not_mem_nil

theorem exec_bound (h : exec other own body ns = .ok ns') :
    (ns' n).isSome ↔ (ns n).isSome ∨ n ∈ (stmts (fun n => (other n).isSome) body).map Stmt.name :=
  execAll_bound h

/-- The names that some statement of the body binds to a value of the module's own. -/
def ownNames (body : List (Item N)) : List N :=
  (stmts (fun _ => true) body).filterMap fun
    | .define n => some n
    | .rename n _ => some n
    | .aliasOf _ => none

omit [DecidableEq N] in
theorem mem_stmts (has : N → Bool) {s : Stmt N} (h : s ∈ stmts has body) :
    s ∈ stmts (fun _ => true) body := by
  obtain ⟨item, hitem, hs⟩ := List.mem_flatMap.mp h
  refine List.mem_flatMap.mpr ⟨item, hitem, ?_⟩
  cases item with
  | always s' => exact hs
  | ifHasattr attr ss =>
    simp only [Item.stmts] at hs ⊢
    split at hs
    · exact hs
    · exact absurd hs List.not_mem_nil

/-- A name that the body does not bind to a value of its own keeps its binding, or is
    bound as in the other module. -/
theorem exec_foreign (h : exec other own body ns = .ok ns') (hn : n ∉ ownNames body) :
    ns' n = ns n ∨ ns' n = other n := by
  have hvalue : ∀ s ∈ stmts (fun n => (other n).isSome) body, s.name = n →
      ∀ ns a, s.value other own ns = .ok a → some a = other n := by
    intro s hs hname ns a ha
    have hmem := mem_stmts _ hs
    cases s with
    | define n' =>
      refine absurd (List.mem_filterMap.mpr ⟨_, hmem, ?_⟩) hn
      exact congrArg some hname
    | rename n' source =>
      refine absurd (List.mem_filterMap.mpr ⟨_, hmem, ?_⟩) hn
      exact congrArg some hname
    | aliasOf n' =>
      obtain rfl : n' = n := hname
      cases ho : other n' with
      | none => simp [Stmt.value, ho] at ha
      | some b =>
        simp only [Stmt.value, ho, Except.ok.injEq] at ha
        rw [ha]
  rw [execAll_value h hvalue]
  split
  · exact .inr rfl
  · exact .inl rfl

/-- A name that only `define` binds, and unconditionally. -/
theorem exec_defined (h : exec other own body ns = .ok ns')
    (hdef : ∀ s ∈ stmts (fun _ => true) body, s.name = n → s = .define n)
    (hmem : Item.always (.define n) ∈ body) : ns' n = some (own n) := by
  have hvalue : ∀ s ∈ stmts (fun n => (other n).isSome) body, s.name = n →
      ∀ ns a, s.value other own ns = .ok a → some a = some (own n) := by
    intro s hs hname ns a ha
    rw [hdef s (mem_stmts _ hs) hname] at ha
    simp only [Stmt.value, Except.ok.injEq] at ha
    rw [ha]
  have hbinds : n ∈ (stmts (fun n => (other n).isSome) body).map Stmt.name :=
    List.mem_map.mpr ⟨.define n, List.mem_flatMap.mpr ⟨_, hmem, List.mem_singleton_self _⟩, rfl⟩
  rw [execAll_value h hvalue, if_pos hbinds]

end

end ModuleBody
