import FerroIo.Binary64
import FerroIo.FanOut
import FerroIo.GlobalRuntime

/- `sleep` of `ferro_io/__init__.py` and `async_sleep` of `src/lib.rs`, for every binary64
   delay.

   Correspondence (source ↔ Lean):
     `Duration::from_secs_f64`               ↔ `Duration.fromSecsF64`
     `future_into_py`                        ↔ `futureIntoPy`
     `async_sleep`                           ↔ `asyncSleep`
     `sleep`, `_sleep_with_result`           ↔ `sleep`, `CoroutineBody.sleepWithResult`
     `asyncio.sleep(0, result)`              ↔ `CoroutineBody.asyncioSleep`
     `await`                                 ↔ `Awaitable.await`

   Main results: `sleep_like_asyncio_iff`, on what the caller of `sleep` gets, and
   `duration_protected_iff`, on the conversion that the check of `async_sleep` is there
   to protect. Both turn on `asyncSleep_ok_iff`: a check of sign and finiteness lets
   delays of 2^64 seconds and more through to the conversion, which panics. -/
namespace FerroIo
open Binary64

/-- `std::time::Duration`, in nanoseconds: a 64-bit count of seconds, and the rest. -/
structure Duration where
  nanos : ℕ
  lt : nanos < 2 ^ 64 * 10 ^ 9

/-- Rounds to nanoseconds. It panics on a value that is negative or not finite, or too
    large when rounded. -/
def Duration.fromSecsF64 : F64 → Option Duration
  | .finite x =>
    if x.value < 0 then none
    else
      let nanos := (roundHalfEven (x.value * 10 ^ 9)).toNat
      if h : nanos < 2 ^ 64 * 10 ^ 9 then some ⟨nanos, h⟩ else none
  | _ => none

/-- The thread's event loop, and the timers started so far. -/
structure SleepState where
  loopRunning : Bool
  timers : List Duration

/-- The `asyncio.Future` that a started timer completes. -/
structure TimerFuture where
  secs : Duration

/-- Starts the timer at once. -/
def futureIntoPy (secs : Duration) (s : SleepState) : Except PyErr TimerFuture × SleepState :=
  if s.loopRunning then (.ok ⟨secs⟩, { s with timers := s.timers ++ [secs] })
  else (.error (.runtimeError "no running event loop"), s)

def asyncSleep (getOrInitGlobal : Except String Runtime) (delay : F64) (s : SleepState) :
    Except PyErr TimerFuture × SleepState :=
  if delay.isFinite = false ∨ delay < 0 then
    (.error (.valueError "delay must be a non-negative finite number"), s)
  else match getOrInitGlobal with
  | .error message => (.error (.runtimeError message), s)
  | .ok _ => match Duration.fromSecsF64 delay with
    | none => (.error .panicException, s)
    | some secs => futureIntoPy secs s

variable {Obj : Type*}

inductive CoroutineBody (Obj : Type*) where
  | asyncioSleep (result : Option Obj)
  | sleepWithResult (delay : F64) (result : Obj)

/-- What `sleep` returns. A coroutine does nothing until it is awaited. -/
inductive Awaitable (Obj : Type*) where
  | coroutine (body : CoroutineBody Obj)
  | future (f : TimerFuture)

/-- `result` is `none` for `None`. -/
def sleep (getOrInitGlobal : Except String Runtime) (delay : F64) (result : Option Obj)
    (s : SleepState) : Except PyErr (Awaitable Obj) × SleepState :=
  if delay ≤ 0 then (.ok (.coroutine (.asyncioSleep result)), s)
  else match result with
  | none => match asyncSleep getOrInitGlobal delay s with
    | (.ok f, s) => (.ok (.future f), s)
    | (.error e, s) => (.error e, s)
  | some result => (.ok (.coroutine (.sleepWithResult delay result)), s)

/-- What an `await` gives: the `result` argument, or `()`. -/
inductive Awaited (Obj : Type*) where
  | result (result : Option Obj)
  | unit
  deriving DecidableEq, Repr

/-- What awaiting it gives in the end. The future of `async_sleep` has Rust's `()`, an
    empty tuple and not `None`. -/
def Awaitable.await (getOrInitGlobal : Except String Runtime) :
    Awaitable Obj → SleepState → Except PyErr (Awaited Obj) × SleepState
  | .future _, s => (.ok .unit, s)
  | .coroutine (.asyncioSleep result), s => (.ok (.result result), s)
  | .coroutine (.sleepWithResult delay result), s =>
    match asyncSleep getOrInitGlobal delay s with
    | (.ok _, s) => (.ok (.result (some result)), s)
    | (.error e, s) => (.error e, s)

/-! ## The conversion -/

/-- 2^64 seconds, which no `Duration` holds. -/
def durationLimit : F64 :=
  .finite ⟨false, 2 ^ 52, 12 + 1074, by decide, by decide, .inl (Nat.le_refl _)⟩

theorem durationLimit_toExt : durationLimit.toExt =
    some (((2 ^ 64 : ℚ) : WithTop ℚ) : WithBot (WithTop ℚ)) := by
  have hvalue : dyadic (2 ^ 52) (12 + 1074) 1074 = 2 ^ 64 := by
    rw [dyadic_shift]
    norm_num
  simp only [durationLimit, F64.toExt, Finite.value, Finite.magnitude, Bool.false_eq_true,
    if_false, hvalue]

/-- The conversion succeeds below 2^64 seconds: the largest number below is so far below
    that rounding to nanoseconds does not reach 2^64 seconds. -/
theorem fromSecsF64_finite (x : Finite) :
    (Duration.fromSecsF64 (.finite x)).isSome ↔ 0 ≤ x.value ∧ x.value < 2 ^ 64 := by
  simp only [Duration.fromSecsF64]
  by_cases hneg : x.value < 0
  · rw [if_pos hneg]
    exact iff_of_false (by simp) fun h => absurd hneg (not_lt.mpr h.1)
  · rw [if_neg hneg]
    have hnonneg : 0 ≤ x.value := not_lt.mp hneg
    by_cases hlt : x.value < 2 ^ 64
    · -- 2^64 = 2^(11 + 53), so the next number down is 2^11 seconds away
      have hle : x.value ≤ 2 ^ 64 - 2 ^ 11 := x.value_le_of_lt_pow (k := 11) hlt
      have hround : roundHalfEven (x.value * 10 ^ 9) ≤ (2 ^ 64 - 2 ^ 11) * 10 ^ 9 := by
        refine roundHalfEven_le ?_
        push_cast
        linarith
      have hnanos : (roundHalfEven (x.value * 10 ^ 9)).toNat < 2 ^ 64 * 10 ^ 9 := by omega
      rw [dif_pos hnanos]
      exact iff_of_true rfl ⟨hnonneg, hlt⟩
    · have hround : 2 ^ 64 * 10 ^ 9 ≤ roundHalfEven (x.value * 10 ^ 9) := by
        refine le_roundHalfEven ?_
        push_cast
        linarith
      have hnanos : ¬ (roundHalfEven (x.value * 10 ^ 9)).toNat < 2 ^ 64 * 10 ^ 9 := by omega
      rw [dif_neg hnanos]
      exact iff_of_false (by simp) fun h => hlt h.2

theorem durationLimit_pos : 0 < durationLimit := by
  refine (F64.lt_iff rfl durationLimit_toExt).mpr ?_
  rw [WithBot.coe_lt_coe, WithTop.coe_lt_coe, Finite.zero_value]
  norm_num

theorem finite_lt_zero {x : Finite} : F64.finite x < 0 ↔ x.value < 0 :=
  F64.finite_lt.trans (by rw [Finite.zero_value])

theorem zero_le_finite {x : Finite} : 0 ≤ F64.finite x ↔ 0 ≤ x.value :=
  F64.finite_le.trans (by rw [Finite.zero_value])

theorem finite_lt_limit {x : Finite} : F64.finite x < durationLimit ↔ x.value < 2 ^ 64 := by
  rw [F64.lt_iff rfl durationLimit_toExt, WithBot.coe_lt_coe, WithTop.coe_lt_coe]

theorem fromSecsF64_isSome_iff (delay : F64) :
    (Duration.fromSecsF64 delay).isSome ↔ 0 ≤ delay ∧ delay < durationLimit := by
  cases delay with
  | nan => exact iff_of_false (by simp [Duration.fromSecsF64]) fun h => F64.not_le_nan 0 h.1
  | inf neg =>
    refine iff_of_false (by simp [Duration.fromSecsF64]) fun h => ?_
    cases neg with
    | true =>
      have hle := (F64.le_iff rfl rfl).mp h.1
      simp at hle
    | false =>
      have hlt := (F64.lt_iff rfl durationLimit_toExt).mp h.2
      simp at hlt
  | finite x => rw [fromSecsF64_finite, zero_le_finite, finite_lt_limit]

/-- What the conversion accepts passes the check. -/
theorem passes_of_isSome {delay : F64} (h : (Duration.fromSecsF64 delay).isSome) :
    ¬ (delay.isFinite = false ∨ delay < 0) := by
  cases delay with
  | nan => simp [Duration.fromSecsF64] at h
  | inf neg => simp [Duration.fromSecsF64] at h
  | finite x =>
    have hnonneg := ((fromSecsF64_finite x).mp h).1
    rintro (hfinite | hlt)
    · cases hfinite
    · exact absurd (finite_lt_zero.mp hlt) (not_lt.mpr hnonneg)

theorem asyncSleep_ok_iff (getOrInitGlobal : Except String Runtime) (delay : F64) (s : SleepState) :
    (∃ f, (asyncSleep getOrInitGlobal delay s).1 = .ok f) ↔
      s.loopRunning = true ∧ (∃ rt, getOrInitGlobal = .ok rt) ∧
        (Duration.fromSecsF64 delay).isSome := by
  simp only [asyncSleep]
  by_cases hcheck : delay.isFinite = false ∨ delay < 0
  · rw [if_pos hcheck]
    exact iff_of_false (by simp) fun h => passes_of_isSome h.2.2 hcheck
  · rw [if_neg hcheck]
    cases hsecs : Duration.fromSecsF64 delay with
    | none => cases getOrInitGlobal <;> simp
    | some secs =>
      cases hrun : s.loopRunning <;> cases getOrInitGlobal <;> simp [futureIntoPy, hrun]

/-! ## `sleep` beside `asyncio.sleep` -/

/-- The call returns a coroutine and does nothing else, whether a loop is running or not,
    and awaiting it gives `result`. -/
def LikeAsyncio (getOrInitGlobal : Except String Runtime) (delay : F64) (result : Option Obj) :
    Prop :=
  ∀ s : SleepState, ∃ body, sleep getOrInitGlobal delay result s = (.ok (.coroutine body), s) ∧
    ∀ later : SleepState, later.loopRunning = true →
      ((Awaitable.coroutine body).await getOrInitGlobal later).1 = .ok (.result result)

/-- A bare future is what `sleep` returns at best for a positive delay without result. -/
theorem sleep_none (getOrInitGlobal : Except String Runtime) {delay : F64} (hpos : ¬ delay ≤ 0)
    (s s' : SleepState) (body : CoroutineBody Obj) :
    sleep getOrInitGlobal delay none s ≠ (.ok (.coroutine body), s') := by
  simp only [sleep, if_neg hpos]
  cases hasync : asyncSleep getOrInitGlobal delay s with
  | mk outcome after => cases outcome <;> simp

theorem await_sleepWithResult (getOrInitGlobal : Except String Runtime) (delay : F64)
    (result : Obj) (s : SleepState) :
    ((Awaitable.coroutine (.sleepWithResult delay result)).await getOrInitGlobal s).1 =
        .ok (.result (some result)) ↔
      ∃ f, (asyncSleep getOrInitGlobal delay s).1 = .ok f := by
  simp only [Awaitable.await]
  cases hasync : asyncSleep getOrInitGlobal delay s with
  | mk outcome after => cases outcome <;> simp

/-- For which delays and results `sleep` behaves like `asyncio.sleep`. -/
theorem sleep_like_asyncio_iff (getOrInitGlobal : Except String Runtime) (delay : F64)
    (hdelay : delay ≠ .nan) (result : Option Obj) :
    LikeAsyncio getOrInitGlobal delay result ↔
      delay ≤ 0 ∨ result ≠ none ∧ delay < durationLimit ∧ ∃ rt, getOrInitGlobal = .ok rt := by
  by_cases hpos : delay ≤ 0
  · refine iff_of_true (fun s => ?_) (.inl hpos)
    exact ⟨.asyncioSleep result, by simp only [sleep, if_pos hpos], fun _ _ => rfl⟩
  · have hzero : (0 : F64) < delay := (F64.not_le_iff hdelay (by intro h; cases h)).mp hpos
    cases result with
    | none =>
      -- whatever the state, no coroutine is returned
      refine iff_of_false (fun h => ?_) (by simp [hpos])
      obtain ⟨body, hbody, -⟩ := h ⟨true, []⟩
      exact sleep_none getOrInitGlobal hpos _ _ _ hbody
    | some result =>
      have hcall : ∀ s, sleep getOrInitGlobal delay (some result) s =
          (.ok (.coroutine (.sleepWithResult delay result)), s) := by
        intro s
        simp only [sleep, if_neg hpos]
      constructor
      · intro h
        obtain ⟨body, hbody, hawait⟩ := h ⟨true, []⟩
        rw [hcall] at hbody
        cases hbody
        have hok := (await_sleepWithResult getOrInitGlobal delay result ⟨true, []⟩).mp
          (hawait ⟨true, []⟩ rfl)
        obtain ⟨-, hrt, hsome⟩ := (asyncSleep_ok_iff _ _ _).mp hok
        exact .inr ⟨Option.some_ne_none result, ((fromSecsF64_isSome_iff delay).mp hsome).2, hrt⟩
      · rintro (hle | ⟨-, hlt, hrt⟩)
        · exact absurd hle hpos
        · refine fun s => ⟨.sleepWithResult delay result, hcall s, fun later hloop => ?_⟩
          rw [await_sleepWithResult, asyncSleep_ok_iff, fromSecsF64_isSome_iff]
          exact ⟨hloop, hrt, F64.le_of_lt hzero, hlt⟩

def oneSecond : F64 :=
  .finite ⟨false, 2 ^ 52, 1022, by decide, by decide, .inl (Nat.le_refl _)⟩

theorem oneSecond_value : ∃ x, oneSecond = .finite x ∧ x.value = 1 := by
  refine ⟨_, rfl, ?_⟩
  have hone : dyadic (2 ^ 52) 1022 (52 + 1022) = 1 := dyadic_one 52 1022
  simp only [Finite.value, Finite.magnitude, Bool.false_eq_true, if_false]
  exact hone

theorem oneSecond_pos : ¬ oneSecond ≤ 0 := by
  obtain ⟨x, hx, hvalue⟩ := oneSecond_value
  rw [hx]
  intro hle
  have hle' := F64.finite_le.mp hle
  rw [hvalue, Finite.zero_value] at hle'
  exact absurd hle' (by norm_num)

theorem oneSecond_isSome : (Duration.fromSecsF64 oneSecond).isSome := by
  obtain ⟨x, hx, hvalue⟩ := oneSecond_value
  rw [hx, fromSecsF64_finite, hvalue]
  norm_num

/-- One second, with a result. -/
theorem sleep_like_asyncio_one_second :
    oneSecond ≠ .nan ∧ LikeAsyncio (.ok ⟨0, 1⟩) oneSecond (some 7) := by
  have hnan : oneSecond ≠ .nan := by
    intro h
    cases h
  have hlt := ((fromSecsF64_isSome_iff oneSecond).mp oneSecond_isSome).2
  exact ⟨hnan, (sleep_like_asyncio_iff (.ok ⟨0, 1⟩) oneSecond hnan (some 7)).mpr
    (.inr ⟨Option.some_ne_none 7, hlt, ⟨0, 1⟩, rfl⟩)⟩

/-- One second, without a result: the call raises while no loop is running, and while one
    is, it starts the timer and returns a future. -/
theorem sleep_one_second_future :
    ¬ LikeAsyncio (.ok ⟨0, 1⟩) oneSecond (none : Option ℕ) ∧
    (sleep (.ok ⟨0, 1⟩) oneSecond (none : Option ℕ) ⟨false, []⟩).1 =
      .error (.runtimeError "no running event loop") ∧
    ∃ f, sleep (.ok ⟨0, 1⟩) oneSecond (none : Option ℕ) ⟨true, []⟩ =
      (.ok (.future f), ⟨true, [f.secs]⟩) := by
  obtain ⟨secs, hsecs⟩ := Option.isSome_iff_exists.mp oneSecond_isSome
  have hpasses := passes_of_isSome oneSecond_isSome
  refine ⟨fun h => ?_, ?_⟩
  · obtain ⟨body, hbody, -⟩ := h ⟨true, []⟩
    exact sleep_none _ oneSecond_pos _ _ _ hbody
  · simp [sleep, asyncSleep, futureIntoPy, oneSecond_pos, hpasses, hsecs]

/-! ## The check of `async_sleep` -/

/-- What `async_sleep` is to reject. -/
def Rejected (delay : F64) : Prop := delay = .nan ∨ (∃ neg, delay = .inf neg) ∨ delay < 0

/-- The check rejects what it is to reject, and the conversion succeeds on what it lets
    through and on every positive delay that `sleep` forwards. -/
structure Protected (getOrInitGlobal : Except String Runtime) (delay : F64) : Prop where
  rejects : Rejected delay → ∀ s, asyncSleep getOrInitGlobal delay s =
    (.error (.valueError "delay must be a non-negative finite number"), s)
  accepted : ¬ Rejected delay → (Duration.fromSecsF64 delay).isSome ∧
    ∀ s, (asyncSleep getOrInitGlobal delay s).1 ≠ .error .panicException
  forwarded : ¬ delay ≤ 0 → 0 < delay → (Duration.fromSecsF64 delay).isSome

theorem rejected_iff (delay : F64) : Rejected delay ↔ delay.isFinite = false ∨ delay < 0 := by
  cases delay with
  | nan => simp [Rejected, F64.isFinite]
  | inf neg => simp [Rejected, F64.isFinite]
  | finite x => simp [Rejected, F64.isFinite]

theorem asyncSleep_no_panic (getOrInitGlobal : Except String Runtime) {delay : F64}
    (h : (Duration.fromSecsF64 delay).isSome) (s : SleepState) :
    (asyncSleep getOrInitGlobal delay s).1 ≠ .error .panicException := by
  obtain ⟨secs, hsecs⟩ := Option.isSome_iff_exists.mp h
  simp only [asyncSleep, if_neg (passes_of_isSome h), hsecs]
  cases getOrInitGlobal with
  | error message => simp
  | ok rt => cases hrun : s.loopRunning <;> simp [futureIntoPy, hrun]

/-- Delays from 2^64 seconds on, `inf` included, and no others lie outside. -/
theorem isSome_of_not_limit_le {delay : F64} (hlimit : ¬ durationLimit ≤ delay)
    (hnan : delay ≠ .nan) (hneg : ¬ delay < 0) : (Duration.fromSecsF64 delay).isSome := by
  have hzero : (0 : F64) ≠ .nan := by
    intro h
    cases h
  have hmax : durationLimit ≠ .nan := by
    intro h
    cases h
  rw [fromSecsF64_isSome_iff]
  refine ⟨?_, (F64.not_le_iff hmax hnan).mp hlimit⟩
  by_contra hle
  exact hneg ((F64.not_le_iff hzero hnan).mp hle)

/-- For which delays the check protects the conversion. -/
theorem duration_protected_iff (getOrInitGlobal : Except String Runtime) (delay : F64) :
    Protected getOrInitGlobal delay ↔ ¬ durationLimit ≤ delay := by
  constructor
  · intro h hle
    -- such a delay is positive, so `sleep` forwards it
    have hpos : 0 < delay := F64.lt_of_lt_of_le durationLimit_pos hle
    have hsome := h.forwarded (fun hzero => F64.not_lt_of_le hzero hpos) hpos
    exact F64.not_lt_of_le hle ((fromSecsF64_isSome_iff delay).mp hsome).2
  · intro hlimit
    refine ⟨fun hrej s => ?_, fun hacc => ?_, fun _ hpos => ?_⟩
    · simp only [asyncSleep, if_pos ((rejected_iff delay).mp hrej)]
    · have hsome := isSome_of_not_limit_le hlimit (fun h => hacc (.inl h))
        fun h => hacc (.inr (.inr h))
      exact ⟨hsome, asyncSleep_no_panic getOrInitGlobal hsome⟩
    · refine isSome_of_not_limit_le hlimit ?_ fun hneg => ?_
      · rintro rfl
        exact F64.not_lt_nan 0 hpos
      · exact absurd hneg (F64.not_lt_of_le (F64.le_of_lt hpos))

/-- 2^64 seconds pass the check, and the conversion panics. -/
theorem sleep_limit_panics :
    ¬ Protected (.ok ⟨0, 1⟩) durationLimit ∧
    ¬ Rejected durationLimit ∧ Duration.fromSecsF64 durationLimit = none ∧
    (asyncSleep (.ok ⟨0, 1⟩) durationLimit ⟨true, []⟩).1 = .error .panicException := by
  have hpass : ¬ (durationLimit.isFinite = false ∨ durationLimit < 0) := by
    rintro (hfinite | hlt)
    · cases hfinite
    · exact F64.not_lt_of_le (F64.le_of_lt durationLimit_pos) hlt
  have hnone : Duration.fromSecsF64 durationLimit = none := by
    rw [← Option.not_isSome_iff_eq_none, fromSecsF64_isSome_iff]
    intro h
    have hlt := (F64.lt_iff durationLimit_toExt durationLimit_toExt).mp h.2
    exact absurd hlt (lt_irrefl _)
  have haccepted : ¬ Rejected durationLimit := fun h => hpass ((rejected_iff _).mp h)
  have hpanic : (asyncSleep (.ok ⟨0, 1⟩) durationLimit ⟨true, []⟩).1 = .error .panicException := by
    simp only [asyncSleep, if_neg hpass, hnone]
  exact ⟨fun h => (h.accepted haccepted).2 _ hpanic, haccepted, hnone, hpanic⟩

end FerroIo
