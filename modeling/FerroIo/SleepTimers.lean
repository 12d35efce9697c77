import FerroIo.EventRun
import FerroIo.Sleep

/- The timers that a sequence of `await sleep(delay, result)` starts.

   Main result: `sleep_timers`. Whatever the delays, each positive one below 2^64 seconds
   starts one timer, within half a nanosecond of the delay, and no other call starts any; so
   a delay starts a timer of length zero exactly up to half a nanosecond, and delays that
   grow start timers that do not shrink. -/
namespace FerroIo
open Binary64

variable {Obj : Type*}

/-- `await sleep(delay, result)`, and what it leaves whether it raises or not. -/
def SleepState.sleepOnce (getOrInitGlobal : Except String Runtime) (s : SleepState)
    (call : F64 × Option Obj) : SleepState :=
  match sleep getOrInitGlobal call.1 call.2 s with
  | (.ok a, s) => (a.await getOrInitGlobal s).2
  | (.error _, s) => s

/-- The timer of a delay. -/
def timerOf (delay : F64) : Option Duration :=
  if delay ≤ 0 then none else Duration.fromSecsF64 delay

/-- The timers of the delays, on a loop that runs and with a runtime. -/
def timersOf (getOrInitGlobal : Except String Runtime) (loopRunning : Bool)
    (calls : List (F64 × Option Obj)) : List Duration :=
  match getOrInitGlobal, loopRunning with
  | .ok _, true => calls.filterMap fun call => timerOf call.1
  | _, _ => []

/-- `async_sleep` starts the timer that the conversion gives, or none. -/
theorem asyncSleep_timers (getOrInitGlobal : Except String Runtime) (delay : F64)
    (s : SleepState) :
    (asyncSleep getOrInitGlobal delay s).2 = { s with timers := s.timers ++
      match getOrInitGlobal, s.loopRunning with
      | .ok _, true => (Duration.fromSecsF64 delay).toList
      | _, _ => [] } := by
  obtain ⟨loopRunning, timers⟩ := s
  simp only [asyncSleep]
  by_cases hcheck : delay.isFinite = false ∨ delay < 0
  · have hnone : Duration.fromSecsF64 delay = none := by
      rw [← Option.not_isSome_iff_eq_none]
      exact fun hsome => passes_of_isSome hsome hcheck
    rw [if_pos hcheck, hnone]
    cases getOrInitGlobal <;> cases loopRunning <;> simp
  · rw [if_neg hcheck]
    cases getOrInitGlobal with
    | error message => simp
    | ok rt => cases Duration.fromSecsF64 delay with
      | none => cases loopRunning <;> simp
      | some secs => cases loopRunning <;> simp [futureIntoPy]

theorem timersOf_cons (getOrInitGlobal : Except String Runtime) (loopRunning : Bool)
    (call : F64 × Option Obj) (calls : List (F64 × Option Obj)) :
    timersOf getOrInitGlobal loopRunning (call :: calls) =
      timersOf getOrInitGlobal loopRunning [call] ++
        timersOf getOrInitGlobal loopRunning calls := by
  cases getOrInitGlobal with
  | error message => rfl
  | ok rt => cases loopRunning with
    | false => rfl
    | true =>
      simp only [timersOf, List.filterMap_cons, List.filterMap_nil]
      cases timerOf call.1 <;> rfl

/-- Step lemma. -/
theorem sleepOnce_timers (getOrInitGlobal : Except String Runtime) (s : SleepState)
    (call : F64 × Option Obj) :
    s.sleepOnce getOrInitGlobal call =
      { s with timers := s.timers ++ timersOf getOrInitGlobal s.loopRunning [call] } := by
  obtain ⟨delay, result⟩ := call
  by_cases hzero : delay ≤ 0
  · obtain ⟨loopRunning, timers⟩ := s
    have hnone : timerOf delay = none := if_pos hzero
    simp only [SleepState.sleepOnce, sleep, if_pos hzero, Awaitable.await, timersOf]
    cases getOrInitGlobal <;> cases loopRunning <;> simp [hnone]
  · have htimer : timerOf delay = Duration.fromSecsF64 delay := if_neg hzero
    have htimers : (asyncSleep getOrInitGlobal delay s).2 =
        { s with
          timers := s.timers ++ timersOf getOrInitGlobal s.loopRunning [(delay, result)] } := by
      rw [asyncSleep_timers]
      simp only [timersOf, List.filterMap_cons, List.filterMap_nil, htimer]
      cases Duration.fromSecsF64 delay <;> rfl
    rw [← htimers]
    cases hasync : asyncSleep getOrInitGlobal delay s with
    | mk outcome after =>
      cases result <;> cases outcome <;>
        simp [SleepState.sleepOnce, sleep, if_neg hzero, Awaitable.await, hasync]

/-- Run lemma. -/
theorem sleepAll_timers (getOrInitGlobal : Except String Runtime) (s : SleepState)
    (calls : List (F64 × Option Obj)) :
    EventRun.run (SleepState.sleepOnce getOrInitGlobal) s calls =
      { s with timers := s.timers ++ timersOf getOrInitGlobal s.loopRunning calls } := by
  induction calls generalizing s with
  | nil => cases getOrInitGlobal <;> cases hloop : s.loopRunning <;> simp [timersOf, ← hloop]
  | cons call calls ih =>
    rw [EventRun.run_cons, ih, sleepOnce_timers, timersOf_cons _ _ call calls]
    simp only [List.append_assoc]

/-! ## How long the timers are -/

/-- A timer comes from a positive number, and is as long up to half a nanosecond. -/
theorem timerOf_cases {delay : F64} {d : Duration} (h : timerOf delay = some d) :
    ∃ x, delay = .finite x ∧ 0 < x.value ∧
      (d.nanos : ℤ) = roundHalfEven (x.value * 10 ^ 9) := by
  unfold timerOf at h
  split at h
  · cases h
  · next hpos =>
    cases delay with
    | nan => cases h
    | inf neg => cases h
    | finite x =>
      have hvalue : 0 < x.value := by
        by_contra hle
        refine hpos (F64.finite_le.mpr ?_)
        rw [Finite.zero_value]
        exact not_lt.mp hle
      refine ⟨x, rfl, hvalue, ?_⟩
      simp only [Duration.fromSecsF64, if_neg (not_lt.mpr hvalue.le)] at h
      split at h
      · obtain rfl := Option.some.inj h
        apply Int.toNat_of_nonneg
        apply le_roundHalfEven
        push_cast
        positivity
      · cases h

theorem timerOf_mono {delay delay' : F64} {d d' : Duration} (h : timerOf delay = some d)
    (h' : timerOf delay' = some d') (hle : delay ≤ delay') : d.nanos ≤ d'.nanos := by
  obtain ⟨x, rfl, -, hd⟩ := timerOf_cases h
  obtain ⟨y, rfl, -, hd'⟩ := timerOf_cases h'
  have hvalue : x.value * 10 ^ 9 ≤ y.value * 10 ^ 9 :=
    mul_le_mul_of_nonneg_right (F64.finite_le.mp hle) (by positivity)
  have hround := roundHalfEven_mono hvalue
  omega

theorem timerOf_near {delay : F64} {d : Duration} (h : timerOf delay = some d) :
    ∃ x, delay = .finite x ∧ |(d.nanos : ℚ) - x.value * 10 ^ 9| ≤ 1 / 2 ∧
      (d.nanos = 0 ↔ x.value * 10 ^ 9 ≤ 1 / 2) := by
  obtain ⟨x, hx, hpos, hd⟩ := timerOf_cases h
  have hcast : ((d.nanos : ℤ) : ℚ) = d.nanos := Int.cast_natCast _
  have hnear : |(d.nanos : ℚ) - x.value * 10 ^ 9| ≤ 1 / 2 := by
    rw [← hcast, hd]
    exact abs_roundHalfEven_sub_le _
  refine ⟨x, hx, hnear, fun hzero => ?_, fun hle => ?_⟩
  · rw [hzero, Nat.cast_zero, zero_sub, abs_neg, abs_of_pos (by positivity)] at hnear
    exact hnear
  · -- the floor is 0, which is even
    have hround : roundHalfEven (x.value * 10 ^ 9) = 0 := by
      have hfloor : ⌊x.value * 10 ^ 9⌋ = 0 := by
        rw [Int.floor_eq_zero_iff]
        exact ⟨by positivity, by linarith⟩
      simp only [roundHalfEven, hfloor]
      split_ifs <;> first | rfl | (push_cast at *; linarith) | omega
    omega

/-- The timers of a sequence of sleeps: which calls start one, how long it is, and that they
    are in the order of the delays. -/
theorem sleep_timers (getOrInitGlobal : Except String Runtime) (s : SleepState)
    (calls : List (F64 × Option Obj)) :
    (EventRun.run (SleepState.sleepOnce getOrInitGlobal) s calls).timers =
      s.timers ++ timersOf getOrInitGlobal s.loopRunning calls ∧
    (∀ delay, (timerOf delay).isSome ↔ ¬ delay ≤ 0 ∧ delay < durationLimit) ∧
    (∀ delay d, timerOf delay = some d → ∃ x, delay = .finite x ∧
      |(d.nanos : ℚ) - x.value * 10 ^ 9| ≤ 1 / 2 ∧ (d.nanos = 0 ↔ x.value * 10 ^ 9 ≤ 1 / 2)) ∧
    ((calls.map Prod.fst).Pairwise (· ≤ ·) →
      (timersOf getOrInitGlobal s.loopRunning calls).Pairwise (·.nanos ≤ ·.nanos)) := by
  refine ⟨?_, fun delay => ?_, fun delay d h => timerOf_near h, fun hsorted => ?_⟩
  · rw [sleepAll_timers]
  · unfold timerOf
    split
    · next hzero => exact iff_of_false (by simp) fun h => h.1 hzero
    · next hpos =>
      rw [fromSecsF64_isSome_iff]
      constructor
      · exact fun h => ⟨hpos, h.2⟩
      · rintro ⟨-, hlt⟩
        have hnan : delay ≠ .nan := by
          rintro rfl
          obtain ⟨a, ha, -⟩ := hlt
          cases ha
        have hzero : (0 : F64) ≠ .nan := by
          intro h
          cases h
        exact ⟨F64.le_of_lt ((F64.not_le_iff hnan hzero).mp hpos), hlt⟩
  · cases getOrInitGlobal with
    | error message => exact List.Pairwise.nil
    | ok rt => cases s.loopRunning with
      | false => exact List.Pairwise.nil
      | true =>
        rw [timersOf, List.pairwise_filterMap]
        rw [List.pairwise_map] at hsorted
        exact hsorted.imp fun hle d hd d' hd' => timerOf_mono hd hd' hle

end FerroIo
