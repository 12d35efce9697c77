import FerroIo.FanOut
import FerroIo.JoinSet

/- `sleep_many` of `src/lib.rs`, step by step, with a clock: the calling thread inside
   `block_on`, the tasks on the workers, and the timer that each task starts when it is
   first polled.

   Correspondence (Rust ↔ Lean):
     `set.spawn(..)`, `set.join_next().await`, `?`  ↔ `JoinSet.step`
     `sleep(Duration::from_millis(millis))`         ↔ `.poll`, which sets the deadline
     `.await` on it                                 ↔ `SleepCall.permits`
     a millisecond                                  ↔ `.tick`

   Main result: `sleep_many_time`. A call that returns its numbers has slept at least
   `millis`. Where the workers are prompt, so that time passes only while nothing else can
   be done, it has returned once `millis` are over: it sleeps once, however many tasks it
   has. -/
namespace FerroIo
open JoinOrder

structure SleepCall where
  pool : JoinSet.Pool TaskError UInt64
  /-- Milliseconds since the call. -/
  clock : ℕ
  /-- When each task's timer fires, from the task's first poll on. -/
  deadlines : List (Option ℕ)

inductive SleepEvent where
  | pool (e : JoinSet.Event)
  | poll (i : ℕ)
  | tick
  deriving DecidableEq, Repr

def SleepCall.init (count : UInt64) : SleepCall :=
  { pool := JoinSet.start, clock := 0, deadlines := List.replicate count.toNat none }

/-- Whether the timer of a task has fired. -/
def SleepCall.fired (s : SleepCall) (i : ℕ) : Bool :=
  match s.deadlines[i]? with
  | some (some deadline) => deadline ≤ s.clock
  | _ => false

def SleepCall.permits (failure : ℕ → Option JoinError) (s : SleepCall) : JoinSet.Event → Bool
  | .finish i => s.fired i || (failure i).isSome
  | _ => true

def sleepManyStep (count millis : UInt64) (failure : ℕ → Option JoinError) (s : SleepCall) :
    SleepEvent → SleepCall
  | .pool e =>
    if s.permits failure e then
      { s with pool := JoinSet.step (sleepTasks count failure) mapErr s.pool e }
    else s
  | .poll i =>
    if (s.pool.tasks[i]? = some .running ∨ s.pool.tasks[i]? = some .aborting) ∧
        s.deadlines[i]? = some none then
      { s with deadlines := s.deadlines.set i (some (s.clock + millis.toNat)) }
    else s
  | .tick => { s with clock := s.clock + 1 }

def sleepCall (count millis : UInt64) (failure : ℕ → Option JoinError) (es : List SleepEvent) :
    SleepCall :=
  EventRun.run (sleepManyStep count millis failure) (.init count) es

/-- The method returns at once for no tasks. -/
def SleepCall.result (count : UInt64) (s : SleepCall) : Option (Except PyErr (List UInt64)) :=
  if count = 0 then some (.ok [])
  else s.pool.returned.map fun collected =>
    (collected.map (sortByKey UInt64.toNat)).mapError PyErr.ofTaskError

/-! ## How long it sleeps -/

/-- A task that has ended has slept its time out, unless it failed by itself. -/
structure SleepCall.Sound (count millis : UInt64) (failure : ℕ → Option JoinError)
    (s : SleepCall) : Prop where
  pool : JoinSet.Sound (sleepTasks count failure) mapErr s.pool
  deadlines : s.deadlines.length = count.toNat
  late : ∀ (i deadline : ℕ), s.deadlines[i]? = some (some deadline) → millis.toNat ≤ deadline
  ended : ∀ i, JoinSet.Over s.pool i → s.fired i ∨ failure i ≠ none

/-- Time passes only when nothing else can be done: the workers are prompt. -/
def Prompt (count millis : UInt64) (failure : ℕ → Option JoinError) (s : SleepCall)
    (e : SleepEvent) : Prop :=
  e = .tick → ∀ e', e' ≠ .tick → sleepManyStep count millis failure s e' = s

section
variable {count millis : UInt64} {failure : ℕ → Option JoinError} {s : SleepCall} {i : ℕ}

theorem fired_iff : s.fired i = true ↔
    ∃ deadline, s.deadlines[i]? = some (some deadline) ∧ deadline ≤ s.clock := by
  simp only [SleepCall.fired]
  split
  · next deadline h => simp [h]
  · next h =>
    refine ⟨fun hfalse => by simp at hfalse, ?_⟩
    rintro ⟨deadline, hget, -⟩
    exact absurd hget (h deadline)

theorem sleep_step_sound (h : s.Sound count millis failure) (e : SleepEvent) :
    (sleepManyStep count millis failure s e).Sound count millis failure := by
  cases e with
  | pool e =>
    simp only [sleepManyStep]
    split
    · next hpermits =>
      refine ⟨JoinSet.step_sound h.pool e, h.deadlines, h.late, fun i hi => ?_⟩
      rcases JoinSet.step_move (sleepTasks count failure) mapErr s.pool e with hsame | hmove
      · rw [hsame] at hi
        exact h.ended i hi
      · rcases hmove.over hi with hover | rfl
        · exact h.ended i hover
        · simp only [SleepCall.permits, Bool.or_eq_true, Option.isSome_iff_ne_none] at hpermits
          exact hpermits
    · exact h
  | poll i =>
    simp only [sleepManyStep]
    split
    · next hi =>
      have hlt : i < s.deadlines.length := (List.getElem?_eq_some_iff.mp hi.2).1
      refine ⟨h.pool, by simpa using h.deadlines, fun j deadline hj => ?_, fun j hj => ?_⟩
      · by_cases hij : i = j
        · subst hij
          rw [List.getElem?_set_self hlt] at hj
          cases hj
          exact Nat.le_add_left _ _
        · rw [List.getElem?_set_ne hij] at hj
          exact h.late j deadline hj
      · have hij : i ≠ j := by
          -- a task at its first poll has not ended
          rintro rfl
          rcases hi.1 with htask | htask <;> simp [JoinSet.Over, htask] at hj
        refine (h.ended j hj).imp (fun hfired => ?_) id
        rw [fired_iff] at hfired ⊢
        rwa [List.getElem?_set_ne hij]
    · exact h
  | tick =>
    refine ⟨h.pool, h.deadlines, h.late, fun i hi => (h.ended i hi).imp (fun hfired => ?_) id⟩
    obtain ⟨deadline, hget, hle⟩ := fired_iff.mp hfired
    exact fired_iff.mpr ⟨deadline, hget, Nat.le_succ_of_le hle⟩

theorem sleep_init_sound (count millis : UInt64) (failure : ℕ → Option JoinError) :
    (SleepCall.init count).Sound count millis failure where
  pool := JoinSet.start_sound _ _
  deadlines := by simp [SleepCall.init]
  late := by simp [SleepCall.init, List.getElem?_replicate]
  ended := by simp [JoinSet.Over, SleepCall.init, JoinSet.start]

theorem sleep_run_sound (count millis : UInt64) (failure : ℕ → Option JoinError)
    (es : List SleepEvent) : (sleepCall count millis failure es).Sound count millis failure :=
  EventRun.run_inv (I := SleepCall.Sound count millis failure) (fun _ e h => sleep_step_sound h e)
    (sleep_init_sound _ _ _) es

/-- What holds in every state of a prompt run. -/
structure SleepCall.OnTime (count millis : UInt64) (failure : ℕ → Option JoinError)
    (s : SleepCall) : Prop where
  sound : s.Sound count millis failure
  /-- Time has passed only after every task was spawned and every timer started. -/
  started : 0 < s.clock → s.pool.tasks.length = count.toNat ∧
    ∀ i, JoinSet.Runs s.pool i → s.deadlines[i]? ≠ some none
  exact : ∀ (i deadline : ℕ), s.deadlines[i]? = some (some deadline) → deadline = millis.toNat
  inTime : s.pool.returned = none → s.clock ≤ millis.toNat

theorem length_sleepTasks : (sleepTasks count failure).length = count.toNat := by
  simp [sleepTasks]

/-- Where nothing but the clock can go on, every task has been spawned, and every timer
started. -/
theorem started_of_still (h : s.Sound count millis failure)
    (hstill : ∀ e, e ≠ .tick → sleepManyStep count millis failure s e = s) :
    s.pool.tasks.length = count.toNat ∧
      ∀ i, JoinSet.Runs s.pool i → s.deadlines[i]? ≠ some none := by
  constructor
  · cases hreturned : s.pool.returned with
    | some r => rw [h.pool.all (by simp [hreturned]), length_sleepTasks]
    | none =>
      have hfits := h.pool.fits
      rw [length_sleepTasks] at hfits
      refine Nat.le_antisymm hfits ?_
      by_contra hlt
      have hroom : s.pool.tasks.length < (sleepTasks count failure).length := by
        rw [length_sleepTasks]
        omega
      -- another task would be spawned
      have hsame := congrArg (·.pool.tasks.length) (hstill (.pool .spawn) (by simp))
      simp only [sleepManyStep, SleepCall.permits, if_true, JoinSet.step, hreturned,
        Option.isNone_none, hroom, and_self, List.length_append, List.length_singleton] at hsame
      omega
  · intro i hi hnone
    -- the timer would be started
    have hsame := congrArg (·.deadlines[i]?) (hstill (.poll i) (by simp))
    have hlt : i < s.deadlines.length := (List.getElem?_eq_some_iff.mp hnone).1
    simp only [sleepManyStep] at hsame
    rw [if_pos ⟨hi, hnone⟩, List.getElem?_set_self hlt, hnone] at hsame
    cases hsame

/-- Where nothing but the clock can go on and the call has not returned, some timer has not
fired. -/
theorem waiting_of_still (h : s.Sound count millis failure) (hnone : s.pool.returned = none)
    (hstill : ∀ e, e ≠ .tick → sleepManyStep count millis failure s e = s) :
    ∃ i, JoinSet.Runs s.pool i ∧ s.fired i = false := by
  obtain ⟨e, he⟩ := h.pool.progress hnone
  by_cases hpermits : s.permits failure e
  · have hsame := congrArg SleepCall.pool (hstill (.pool e) (by simp))
    simp only [sleepManyStep, hpermits, if_true] at hsame
    exact absurd hsame he
  · cases e with
    | finish i =>
      refine ⟨i, ?_, by simp_all [SleepCall.permits]⟩
      by_contra hruns
      exact he (if_neg hruns)
    | spawn | join i | stop i | empty => exact absurd rfl hpermits

theorem SleepCall.OnTime.tick (h : s.OnTime count millis failure)
    (hstill : ∀ e, e ≠ .tick → sleepManyStep count millis failure s e = s) :
    (sleepManyStep count millis failure s .tick).OnTime count millis failure where
  sound := sleep_step_sound h.sound .tick
  started := by
    intro _
    have hstarted := started_of_still h.sound hstill
    exact hstarted
  exact := h.exact
  inTime := by
    intro hnone
    obtain ⟨i, hruns, hfired⟩ := waiting_of_still h.sound hnone hstill
    obtain ⟨hall, hpolled⟩ := started_of_still h.sound hstill
    have hlt : i < s.deadlines.length := by
      rw [h.sound.deadlines, ← hall]
      rcases hruns with hi | hi <;> exact (List.getElem?_eq_some_iff.mp hi).1
    have hget : s.deadlines[i]? = some s.deadlines[i] := List.getElem?_eq_getElem hlt
    cases hd : s.deadlines[i] with
    | none => exact absurd (hd ▸ hget) (hpolled i hruns)
    | some deadline =>
      rw [hd] at hget
      have hexact := h.exact i deadline hget
      have hlate : s.clock < deadline := by
        by_contra hle
        have hfires : s.fired i = true := fired_iff.mpr ⟨deadline, hget, Nat.le_of_not_lt hle⟩
        simp [hfired] at hfires
      exact hexact ▸ hlate

theorem SleepCall.OnTime.poll (h : s.OnTime count millis failure) (hruns : JoinSet.Runs s.pool i)
    (hnone : s.deadlines[i]? = some none) :
    SleepCall.OnTime count millis failure
      { s with deadlines := s.deadlines.set i (some (s.clock + millis.toNat)) } := by
  -- a timer is started before time passes
  have hclock : s.clock = 0 := by
    by_contra hpos
    exact (h.started (Nat.pos_of_ne_zero hpos)).2 i hruns hnone
  refine ⟨?_, fun hpos => absurd hclock (Nat.ne_of_gt hpos), fun j deadline hj => ?_, h.inTime⟩
  · have hsound := sleep_step_sound h.sound (.poll i)
    rwa [sleepManyStep, if_pos ⟨hruns, hnone⟩] at hsound
  · by_cases hij : i = j
    · subst hij
      rw [List.getElem?_set_self (List.getElem?_eq_some_iff.mp hnone).1, hclock] at hj
      cases hj
      exact Nat.zero_add _
    · rw [List.getElem?_set_ne hij] at hj
      exact h.exact j deadline hj

theorem SleepCall.OnTime.pool (h : s.OnTime count millis failure) {e : JoinSet.Event}
    (hpermits : s.permits failure e = true) :
    SleepCall.OnTime count millis failure
      { s with pool := JoinSet.step (sleepTasks count failure) mapErr s.pool e } := by
  have hsound := sleep_step_sound h.sound (.pool e)
  rw [sleepManyStep, if_pos hpermits] at hsound
  rcases JoinSet.step_move (sleepTasks count failure) mapErr s.pool e with hsame | hmove
  · rw [hsame]
    exact h
  · refine ⟨hsound, fun hpos => ?_, h.exact, fun hnone => h.inTime ?_⟩
    · obtain ⟨hall, hpolled⟩ := h.started hpos
      constructor
      · have hlength := hmove.length_le
        have hfits := hsound.pool.fits
        rw [length_sleepTasks] at hfits
        exact Nat.le_antisymm hfits (hall ▸ hlength)
      · intro i hi
        refine hpolled i ((hmove.runs hi).resolve_right ?_)
        rw [length_sleepTasks, hall]
        exact Nat.lt_irrefl _
    · cases hreturned : s.pool.returned with
      | none => rfl
      | some r => rw [JoinSet.step_returned e hreturned] at hnone; cases hnone

theorem sleep_step_onTime (h : s.OnTime count millis failure) (e : SleepEvent)
    (hprompt : Prompt count millis failure s e) :
    (sleepManyStep count millis failure s e).OnTime count millis failure := by
  cases e with
  | pool e =>
    simp only [sleepManyStep]
    split
    · next hpermits => exact h.pool hpermits
    · exact h
  | poll i =>
    simp only [sleepManyStep]
    split
    · next hi => exact h.poll hi.1 hi.2
    · exact h
  | tick => exact h.tick (hprompt rfl)

theorem sleep_run_onTime {es : List SleepEvent} (hprompt : EventRun.Meets
      (sleepManyStep count millis failure) (Prompt count millis failure) (.init count) es) :
    (sleepCall count millis failure es).OnTime count millis failure := by
  refine EventRun.run_inv_of_meets (I := SleepCall.OnTime count millis failure)
    (C := Prompt count millis failure) (fun s e h hC => sleep_step_onTime h e hC) ?_ hprompt
  refine ⟨sleep_init_sound _ _ _, fun hpos => absurd hpos (Nat.lt_irrefl 0), ?_,
    fun _ => Nat.zero_le _⟩
  simp [SleepCall.init, List.getElem?_replicate]

/-! ## Time passes -/

/-- Steps still to come, at most, before time passes. -/
def SleepCall.measure (n : ℕ) (s : SleepCall) : ℕ :=
  JoinSet.measure n s.pool + JoinSet.total (fun d => if d.isNone then 1 else 0) s.deadlines

theorem sleep_step_measure (s : SleepCall) (e : SleepEvent) (he : e ≠ .tick) :
    sleepManyStep count millis failure s e = s ∨
      (sleepManyStep count millis failure s e).measure count.toNat < s.measure count.toNat := by
  cases e with
  | pool e =>
    simp only [sleepManyStep]
    split
    · rcases JoinSet.step_measure (sleepTasks count failure) mapErr s.pool e with hsame | hlower
      · rw [hsame]
        exact .inl rfl
      · rw [length_sleepTasks] at hlower
        exact .inr (Nat.add_lt_add_right hlower _)
    · exact .inl rfl
  | poll i =>
    simp only [sleepManyStep]
    split
    · next hi =>
      have hset := JoinSet.total_set (fun d : Option ℕ => if d.isNone then 1 else 0) hi.2
        (some (s.clock + millis.toNat))
      simp only [Option.isNone_none, Option.isNone_some, if_true, Bool.false_eq_true,
        if_false] at hset
      simp only [SleepCall.measure]
      omega
    · exact .inl rfl
  | tick => exact absurd rfl he

theorem clock_step (s : SleepCall) {e : SleepEvent} (he : e ≠ .tick) :
    (sleepManyStep count millis failure s e).clock = s.clock := by
  cases e with
  | pool e | poll i =>
    simp only [sleepManyStep]
    split <;> rfl
  | tick => exact absurd rfl he

/-- After finitely many prompt steps nothing but the clock can go on. -/
theorem exists_still (count millis : UInt64) (failure : ℕ → Option JoinError) (n : ℕ)
    (s : SleepCall) (hn : s.measure count.toNat ≤ n) :
    ∃ es, EventRun.Meets (sleepManyStep count millis failure) (Prompt count millis failure) s es ∧
      (EventRun.run (sleepManyStep count millis failure) s es).clock = s.clock ∧
      ∀ e, e ≠ .tick → sleepManyStep count millis failure
        (EventRun.run (sleepManyStep count millis failure) s es) e =
          EventRun.run (sleepManyStep count millis failure) s es := by
  induction n generalizing s with
  | zero =>
    refine ⟨[], trivial, rfl, fun e he => (sleep_step_measure s e he).resolve_right ?_⟩
    omega
  | succ n ih =>
    by_cases hstill : ∀ e, e ≠ .tick → sleepManyStep count millis failure s e = s
    · exact ⟨[], trivial, rfl, hstill⟩
    · push Not at hstill
      obtain ⟨e, he, hact⟩ := hstill
      have hlower := (sleep_step_measure s e he).resolve_left hact
      obtain ⟨es, hprompt, hclock, hrest⟩ := ih (sleepManyStep count millis failure s e) (by omega)
      refine ⟨e :: es, ⟨fun htick => absurd htick he, hprompt⟩, ?_, hrest⟩
      exact hclock.trans (clock_step s he)

/-- However promptly the workers act, the clock goes on: every time comes. -/
theorem exists_prompt (count millis : UInt64) (failure : ℕ → Option JoinError) (time : ℕ) :
    ∃ es, EventRun.Meets (sleepManyStep count millis failure) (Prompt count millis failure)
        (.init count) es ∧
      (sleepCall count millis failure es).clock = time := by
  induction time with
  | zero => exact ⟨[], trivial, rfl⟩
  | succ time ih =>
    obtain ⟨es, hprompt, hclock⟩ := ih
    obtain ⟨es', hprompt', hclock', hstill⟩ :=
      exists_still count millis failure _ (sleepCall count millis failure es) (Nat.le_refl _)
    refine ⟨es ++ (es' ++ [.tick]), EventRun.meets_append.mpr ⟨hprompt,
      EventRun.meets_append.mpr ⟨hprompt', fun _ => hstill, trivial⟩⟩, ?_⟩
    simp only [sleepCall, EventRun.run_append, EventRun.run_cons, EventRun.run_nil]
    exact congrArg (· + 1) (hclock'.trans hclock)

end

/-- What `sleep_many` does in every interleaving: it returns what the loop gives for some
order of the tasks, and its numbers not before `millis` are over. Where the workers are
prompt, it has returned once they are over. -/
theorem sleep_many_time (count millis : UInt64) (failure : ℕ → Option JoinError)
    (es : List SleepEvent) :
    (∀ r, (sleepCall count millis failure es).result count = some r →
      (∃ set : Delivery (sleepTasks count failure), r = sleepMany millis set) ∧
      ∀ out, r = .ok out → count ≠ 0 → millis.toNat ≤ (sleepCall count millis failure es).clock) ∧
    (EventRun.Meets (sleepManyStep count millis failure) (Prompt count millis failure)
        (.init count) es →
      millis.toNat < (sleepCall count millis failure es).clock →
      ∃ r, (sleepCall count millis failure es).result count = some r) := by
  have h := sleep_run_sound count millis failure es
  by_cases hcount : count = 0
  · subst hcount
    simp only [SleepCall.result, if_true]
    refine ⟨fun r hr => ⟨⟨h.pool.delivery, ?_⟩, fun _ _ hne => absurd rfl hne⟩, fun _ _ => ⟨_, rfl⟩⟩
    cases hr
    rfl
  · simp only [SleepCall.result, if_neg hcount]
    constructor
    · intro r hr
      obtain ⟨collected, hcollected, rfl⟩ := Option.map_eq_some_iff.mp hr
      obtain ⟨set, -, hset⟩ := h.pool.returned_delivery hcollected
      have hresult : (collected.map (sortByKey UInt64.toNat)).mapError PyErr.ofTaskError =
          sleepMany millis set := by
        rw [hset, sleepMany, if_neg hcount]
      refine ⟨⟨set, hresult⟩, fun out hout _ => ?_⟩
      have hpos : 0 < count.toNat := by
        refine Nat.pos_of_ne_zero fun hzero => hcount ?_
        exact UInt64.toNat_inj.mp hzero
      have hover : JoinSet.Over (sleepCall count millis failure es).pool 0 := by
        cases collected with
        | error e => cases hout
        | ok xs =>
          exact .inr ((h.pool.settled_of_returned hcollected).2 xs rfl 0
            (by rw [length_sleepTasks]; exact hpos))
      rcases h.ended 0 hover with hfired | hfailed
      · obtain ⟨deadline, hget, hle⟩ := fired_iff.mp hfired
        exact Nat.le_trans (h.late 0 deadline hget) hle
      · -- a task that failed by itself makes the call raise
        obtain ⟨j, -, e, -, he⟩ := (sleep_many_exact millis set).2 0 hpos hfailed
        rw [hresult, he] at hout
        cases hout
    · intro hprompt hlate
      have htime := (sleep_run_onTime hprompt).inTime
      cases hreturned : (sleepCall count millis failure es).pool.returned with
      | none => exact absurd (htime hreturned) (Nat.not_le_of_lt hlate)
      | some r => exact ⟨_, rfl⟩

/-- Two tasks that sleep for five milliseconds each: a prompt call is over after the sixth. -/
theorem sleep_many_time_prompt : ∃ es,
    EventRun.Meets (sleepManyStep 2 5 fun _ => none) (Prompt 2 5 fun _ => none) (.init 2) es ∧
    (sleepCall 2 5 (fun _ => none) es).clock = 6 ∧
    ∃ r, (sleepCall 2 5 (fun _ => none) es).result 2 = some r := by
  obtain ⟨es, hprompt, hclock⟩ := exists_prompt 2 5 (fun _ => none) 6
  refine ⟨es, hprompt, hclock, (sleep_many_time 2 5 (fun _ => none) es).2 hprompt ?_⟩
  rw [hclock]
  decide

end FerroIo
