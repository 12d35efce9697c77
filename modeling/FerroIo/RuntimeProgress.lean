import FerroIo.JoinSet
import FerroIo.RuntimeSingleton

/- No call of `_runtime` waits for ever. `_rt_lock` is taken once and not twice by a thread,
   and `with` releases it when `AsyncRuntime()` raises.

   Main result: `runtime_calls_end`. From every state of every run, once no more calls are
   made, every fair schedule of the threads ends each call under way exactly once, whatever
   the constructions give, and leaves the lock free. The lock cannot be what all wait for: its
   holder is in the `with` block (`SingletonInv.holder`), where every step can be taken. -/
namespace FerroIo

variable {K : Type*} [DecidableEq K]

/-- The steps of a call still to come, at most. -/
def RuntimePc.weight : RuntimePc → ℕ
  | .idle => 0
  | .unwind _ => 1
  | .readResult => 1
  | .release => 2
  | .assign _ => 3
  | .constructing => 4
  | .readLocked => 5
  | .acquire => 6
  | .readFast => 7

/-- A thread takes its next step; nobody calls `_runtime` anew. -/
def Singleton.advance (cpus : Nat) (s : Singleton K) (e : K × Except String Runtime) :
    Singleton K :=
  s.step cpus (.step e.1 e.2)

/-- A call of thread `k` counts once: while it is under way, or when it has ended. -/
def Singleton.owed (s : Singleton K) (k : K) : ℕ :=
  s.outcomes.countP (fun outcome => outcome.1 = k) + if s.pc k = .idle then 0 else 1

/-- What a thread that moves does to its place and to the log. -/
structure Moved (s s' : Singleton K) (k : K) (p : RuntimePc) : Prop where
  pc : s'.pc = Function.update s.pc k p
  lower : p.weight < (s.pc k).weight
  outcomes : if p = .idle then ∃ outcome, s'.outcomes = s.outcomes ++ [(k, outcome)]
    else s'.outcomes = s.outcomes

section
variable {cpus : Nat} {s : Singleton K}

theorem Moved.busy {s' : Singleton K} {k : K} {p : RuntimePc} (h : Moved s s' k p) :
    s.pc k ≠ .idle := by
  intro hidle
  have hlower := h.lower
  rw [hidle] at hlower
  exact Nat.not_lt_zero _ hlower

/-- A thread moves unless it is idle or waits for the lock. -/
theorem advance_cases (cpus : Nat) (s : Singleton K) (k : K)
    (getOrInitGlobal : Except String Runtime) :
    s.advance cpus (k, getOrInitGlobal) = s ∧
        (s.pc k = .idle ∨ s.pc k = .acquire ∧ s.lock ≠ none) ∨
      ∃ p, Moved s (s.advance cpus (k, getOrInitGlobal)) k p := by
  cases hpc : s.pc k with
  | idle =>
    refine .inl ⟨?_, .inl rfl⟩
    simp [Singleton.advance, Singleton.step, hpc]
  | readFast =>
    right
    cases hrt : s.rt with
    | none =>
      refine ⟨.acquire, ?_, by simp [hpc, RuntimePc.weight], ?_⟩ <;>
        simp [Singleton.advance, Singleton.step, hpc, hrt, Singleton.goto]
    | some o =>
      refine ⟨.readResult, ?_, by simp [hpc, RuntimePc.weight], ?_⟩ <;>
        simp [Singleton.advance, Singleton.step, hpc, hrt, Singleton.goto]
  | acquire =>
    cases hlock : s.lock with
    | some j =>
      refine .inl ⟨?_, .inr ⟨rfl, by simp⟩⟩
      simp [Singleton.advance, Singleton.step, hpc, hlock]
    | none =>
      right
      refine ⟨.readLocked, ?_, by simp [hpc, RuntimePc.weight], ?_⟩ <;>
        simp [Singleton.advance, Singleton.step, hpc, hlock, Singleton.goto]
  | readLocked =>
    right
    cases hrt : s.rt with
    | none =>
      refine ⟨.constructing, ?_, by simp [hpc, RuntimePc.weight], ?_⟩ <;>
        simp [Singleton.advance, Singleton.step, hpc, hrt, Singleton.goto]
    | some o =>
      refine ⟨.release, ?_, by simp [hpc, RuntimePc.weight], ?_⟩ <;>
        simp [Singleton.advance, Singleton.step, hpc, hrt, Singleton.goto]
  | constructing =>
    right
    cases hnew : AsyncRuntime.new cpus none getOrInitGlobal with
    | error message =>
      refine ⟨.unwind message, ?_, by simp [hpc, RuntimePc.weight], ?_⟩ <;>
        simp [Singleton.advance, Singleton.step, hpc, hnew, Singleton.goto]
    | ok handle =>
      refine ⟨.assign { id := s.made.length, handle := handle }, ?_,
        by simp [hpc, RuntimePc.weight], ?_⟩ <;>
        simp [Singleton.advance, Singleton.step, hpc, hnew, Singleton.goto]
  | assign o =>
    right
    refine ⟨.release, ?_, by simp [hpc, RuntimePc.weight], ?_⟩ <;>
      simp [Singleton.advance, Singleton.step, hpc, Singleton.goto]
  | release =>
    right
    refine ⟨.readResult, ?_, by simp [hpc, RuntimePc.weight], ?_⟩ <;>
      simp [Singleton.advance, Singleton.step, hpc, Singleton.goto]
  | unwind message =>
    right
    refine ⟨.idle, ?_, by simp [hpc, RuntimePc.weight], ?_⟩ <;>
      simp [Singleton.advance, Singleton.step, hpc, Singleton.goto, Singleton.endCall]
  | readResult =>
    right
    refine ⟨.idle, ?_, by simp [hpc, RuntimePc.weight], ?_⟩ <;>
      simp [Singleton.advance, Singleton.step, hpc, Singleton.goto, Singleton.endCall]

/-- A call neither vanishes nor ends twice. -/
theorem owed_advance (s : Singleton K) (e : K × Except String Runtime) (j : K) :
    (s.advance cpus e).owed j = s.owed j := by
  obtain ⟨k, getOrInitGlobal⟩ := e
  rcases advance_cases cpus s k getOrInitGlobal with ⟨hsame, -⟩ | ⟨p, hmoved⟩
  · rw [hsame]
  · have hout := hmoved.outcomes
    have hbusy : s.pc k ≠ .idle := by
      intro hidle
      have hlower := hmoved.lower
      rw [hidle] at hlower
      exact absurd hlower (Nat.not_lt_zero _)
    simp only [Singleton.owed, hmoved.pc]
    by_cases hj : j = k
    · subst hj
      rw [Function.update_self, if_neg hmoved.busy]
      split at hout
      · next hp =>
        obtain ⟨outcome, heq⟩ := hout
        rw [heq, hp, List.countP_append]
        simp
      · next hp => rw [hout, if_neg hp]
    · rw [Function.update_of_ne hj]
      split at hout
      · obtain ⟨outcome, heq⟩ := hout
        rw [heq, List.countP_append]
        simp [Ne.symm hj]
      · rw [hout]

/-- All that the threads of the list have still to do. -/
def Singleton.toCome (ks : List K) (s : Singleton K) : ℕ :=
  JoinSet.total (fun k => (s.pc k).weight) ks

theorem advance_measure {ks : List K} (hks : ∀ k, s.pc k ≠ .idle → k ∈ ks)
    (e : K × Except String Runtime) :
    s.advance cpus e = s ∨ (s.advance cpus e).toCome ks < s.toCome ks := by
  obtain ⟨k, getOrInitGlobal⟩ := e
  rcases advance_cases cpus s k getOrInitGlobal with ⟨hsame, -⟩ | ⟨p, hmoved⟩
  · exact .inl hsame
  · right
    have hlower := hmoved.lower
    simp only [Singleton.toCome, hmoved.pc]
    refine JoinSet.total_lt (hks k hmoved.busy) ?_ fun j => ?_
    · rw [Function.update_self]
      exact hlower
    · by_cases hj : j = k
      · rw [hj, Function.update_self]
        exact hlower.le
      · rw [Function.update_of_ne hj]

/-- No deadlock: while some call is under way, some thread moves. If the lock is taken, that is
    its holder. -/
theorem advance_progress (cpus : Nat) (h : SingletonInv s) (hbusy : ¬ ∀ k, s.pc k = .idle) :
    ∃ e : K × Except String Runtime, s.advance cpus e ≠ s := by
  have hmoves : ∀ k, s.pc k ≠ .idle → ¬ (s.pc k = .acquire ∧ s.lock ≠ none) →
      s.advance cpus (k, .error "") ≠ s := by
    intro k hk hfree hsame
    rcases advance_cases cpus s k (.error "") with ⟨-, hidle | hwaits⟩ | ⟨p, hmoved⟩
    · exact hk hidle
    · exact hfree hwaits
    · have hlower := hmoved.lower
      have hpc := congrFun hmoved.pc k
      rw [hsame, Function.update_self] at hpc
      rw [hpc] at hlower
      exact absurd hlower (Nat.lt_irrefl _)
  cases hlock : s.lock with
  | some j =>
    have hinside := (h.holder j).mp hlock
    refine ⟨(j, .error ""), hmoves j ?_ ?_⟩
    · intro hidle
      rw [hidle] at hinside
      cases hinside
    · rintro ⟨hacquire, -⟩
      rw [hacquire] at hinside
      cases hinside
  | none =>
    obtain ⟨k, hk⟩ : ∃ k, s.pc k ≠ .idle := by
      by_contra hall
      exact hbusy fun k => by_contra fun hk => hall ⟨k, hk⟩
    exact ⟨(k, .error ""), hmoves k hk fun hwaits => hwaits.2 hlock⟩

/-- No step starts a call. -/
theorem busy_of_advance {e : K × Except String Runtime} {j : K}
    (h : (s.advance cpus e).pc j ≠ .idle) : s.pc j ≠ .idle := by
  obtain ⟨k, getOrInitGlobal⟩ := e
  rcases advance_cases cpus s k getOrInitGlobal with ⟨hsame, -⟩ | ⟨p, hmoved⟩
  · rwa [hsame] at h
  · by_cases hj : j = k
    · rw [hj]
      exact hmoved.busy
    · rwa [hmoved.pc, Function.update_of_ne hj] at h

/-- Only threads that have called are not idle. -/
theorem busy_finite (cpus : Nat) (es : List (RuntimeStep K)) : ∃ ks : List K,
    ∀ k, (EventRun.run (Singleton.step cpus) .init es).pc k ≠ .idle → k ∈ ks := by
  refine EventRun.run_inv (I := fun s : Singleton K => ∃ ks : List K, ∀ k, s.pc k ≠ .idle → k ∈ ks)
    (fun s e hs => ?_) ⟨[], fun k hk => absurd rfl hk⟩ es
  obtain ⟨ks, hks⟩ := hs
  cases e with
  | call k =>
    refine ⟨k :: ks, fun j hj => ?_⟩
    by_cases hjk : j = k
    · exact hjk ▸ List.mem_cons_self
    · refine List.mem_cons_of_mem _ (hks j ?_)
      simp only [Singleton.step] at hj
      split at hj
      · simpa [Singleton.goto, hjk] using hj
      · exact hj
  | step k getOrInitGlobal =>
    have hadvance : s.step cpus (.step k getOrInitGlobal) =
      s.advance cpus (k, getOrInitGlobal) := rfl
    exact ⟨ks, fun j hj => hks j (busy_of_advance (hadvance ▸ hj))⟩

end

/-- Every call of `_runtime` under way ends, once, under every fair schedule. -/
theorem runtime_calls_end (cpus : Nat) (es : List (RuntimeStep K))
    (schedule : ℕ → K × Except String Runtime) :
    let s := EventRun.run (Singleton.step cpus) .init es
    EventRun.Fair (Singleton.advance cpus) s schedule →
      ∃ n, let s' := EventRun.after (Singleton.advance cpus) s schedule n
        s'.lock = none ∧ ∀ k, s'.pc k = .idle ∧
          s'.outcomes.countP (fun outcome => outcome.1 = k) =
            s.outcomes.countP (fun outcome => outcome.1 = k) +
              if s.pc k = .idle then 0 else 1 := by
  intro s hfair
  obtain ⟨ks, hks⟩ := busy_finite cpus es
  have hinit : SingletonInv s ∧ (∀ k, s.pc k ≠ .idle → k ∈ ks) ∧ ∀ k, s.owed k = s.owed k :=
    ⟨singletonInv_run cpus es, hks, fun _ => rfl⟩
  have hstep : ∀ (t : Singleton K) (e : K × Except String Runtime),
      (SingletonInv t ∧ (∀ k, t.pc k ≠ .idle → k ∈ ks) ∧ ∀ k, t.owed k = s.owed k) →
      SingletonInv (t.advance cpus e) ∧ (∀ k, (t.advance cpus e).pc k ≠ .idle → k ∈ ks) ∧
        ∀ k, (t.advance cpus e).owed k = s.owed k := by
    rintro t e ⟨ht, hbusy, howed⟩
    exact ⟨singletonInv_step cpus ht _, fun k hk => hbusy k (busy_of_advance hk),
      fun k => (owed_advance t e k).trans (howed k)⟩
  obtain ⟨n, hidle⟩ := EventRun.eventually_of_fair (P := fun t : Singleton K => ∀ k, t.pc k = .idle)
    (μ := Singleton.toCome ks) hstep (fun _ e ht => advance_measure ht.2.1 e)
    (fun _ ht hbusy => advance_progress cpus ht.1 hbusy) hinit hfair
  obtain ⟨ht, -, howed⟩ := EventRun.after_inv hstep hinit schedule n
  refine ⟨n, ?_, fun k => ⟨hidle k, ?_⟩⟩
  · cases hlock : (EventRun.after (Singleton.advance cpus) s schedule n).lock with
    | none => rfl
    | some j =>
      -- the holder would be in the `with` block
      have hinside := (ht.holder j).mp hlock
      rw [hidle j] at hinside
      cases hinside
  · have hk := howed k
    simp only [Singleton.owed, hidle k, if_true] at hk
    exact hk

/-- Two threads call, and the first construction fails: a fair schedule ends both calls. -/
theorem runtime_calls_end_two : ∃ schedule : ℕ → Fin 2 × Except String Runtime,
    let s : Singleton (Fin 2) := EventRun.run (Singleton.step 4) .init
      [.call 0, .call 1, .step 0 (.error "no threads"), .step 1 (.error "no threads"),
        .step 0 (.error "no threads"), .step 0 (.error "no threads"),
        .step 0 (.error "no threads")]
    s.lock = some 0 ∧ s.pc 1 = .acquire ∧ EventRun.Fair (Singleton.advance 4) s schedule ∧
    ∃ n, (EventRun.after (Singleton.advance 4) s schedule n).lock = none := by
  have : Nonempty (Fin 2 × Except String Runtime) := ⟨(0, .error "")⟩
  obtain ⟨schedule, hfair⟩ := EventRun.exists_fair (Singleton.advance 4)
    (EventRun.run (Singleton.step 4) (Singleton.init : Singleton (Fin 2))
      [.call 0, .call 1, .step 0 (.error "no threads"), .step 1 (.error "no threads"),
        .step 0 (.error "no threads"), .step 0 (.error "no threads"),
        .step 0 (.error "no threads")])
  obtain ⟨n, hlock, -⟩ := runtime_calls_end 4
    [.call 0, .call 1, .step 0 (.error "no threads"), .step 1 (.error "no threads"),
      .step 0 (.error "no threads"), .step 0 (.error "no threads"),
      .step 0 (.error "no threads")] schedule hfair
  exact ⟨schedule, by decide, by decide, hfair, n, hlock⟩

end FerroIo
