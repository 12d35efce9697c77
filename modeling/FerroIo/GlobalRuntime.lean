import FerroIo.EventRun
import Mathlib.Logic.Function.Basic

/- `get_or_init_global` of `src/lib.rs`: any number of racing calls, each made of
   four atomic steps, over two cells that are each written once.

   Correspondence (Rust ↔ Lean):
     `GLOBAL_RT`                          ↔ `RuntimeState.globalRt`
     the runtime of pyo3-async-runtimes   ↔ `RuntimeState.registered`
     `GLOBAL_RT.get`                      ↔ `RuntimeEvent.read`
     `runtime::build_runtime`, `Box::leak` ↔ `RuntimeEvent.build`
     `init_with_runtime`                  ↔ `RuntimeEvent.initWithRuntime`
     `GLOBAL_RT.get_or_init`              ↔ `RuntimeEvent.getOrInit`
     the callers' worker counts           ↔ `Caller.workers`

   Main result: `shared_iff`. All calls that returned have the one runtime that is
   in `GLOBAL_RT` and registered, in every state of a run, exactly when the first
   call that comes to `GLOBAL_RT.get_or_init` is the first that came to
   `init_with_runtime` (`OrderState.InOrder`). The first half, one runtime in
   `GLOBAL_RT` for everybody, needs no condition (`returned_globalRt`).

   The body never releases the GIL, so on a build with a GIL the calls do not overlap
   and meet the condition (`shared_of_serial`). They overlap on a free-threaded build
   (`registered_differs`). -/
namespace FerroIo

/-- Who calls, with the worker count asked for. -/
inductive Caller where
  | asyncRuntimeNew (workerThreads : Option Nat)
  | asyncSleep
  deriving DecidableEq, Repr

/-- The worker count passed on, where `cpus` is `num_cpus::get()`. -/
def Caller.workers (cpus : Nat) : Caller → Nat
  | .asyncRuntimeNew workerThreads => max (workerThreads.getD cpus) 1
  | .asyncSleep => cpus

/-- A leaked runtime: which call built it, and with how many workers. -/
structure Runtime where
  builder : Nat
  workerThreads : Nat
  deriving DecidableEq, Repr

/-- Where a call is in the body. -/
inductive CallState where
  | start
  | building
  | leaked (rt : Runtime)
  | initialised (rt : Runtime)
  | returned (rt : Runtime)
  | failed (message : String)
  deriving DecidableEq, Repr

structure RuntimeState where
  globalRt : Option Runtime
  registered : Option Runtime
  calls : Nat → CallState

def RuntimeState.init : RuntimeState :=
  { globalRt := none, registered := none, calls := fun _ => .start }

/-- The next step of a call. Building a runtime ends in an error or in a runtime. -/
inductive RuntimeEvent where
  | read (c : Nat)
  | build (c : Nat) (error : Option String)
  | initWithRuntime (c : Nat)
  | getOrInit (c : Nat)
  deriving DecidableEq, Repr

def RuntimeState.setCall (s : RuntimeState) (c : Nat) (p : CallState) : RuntimeState :=
  { s with calls := Function.update s.calls c p }

/-- `init_with_runtime`: registers the runtime unless one is registered already. -/
def initWithRuntime (rt : Runtime) (registered : Option Runtime) :
    Except Unit Unit × Option Runtime :=
  match registered with
  | none => (.ok (), some rt)
  | some other => (.error (), some other)

/-- One step of the run; a step that is not the call's next one changes nothing. -/
def RuntimeState.step (cpus : Nat) (caller : Nat → Caller) (s : RuntimeState) :
    RuntimeEvent → RuntimeState
  | .read c => match s.calls c with
    | .start => match s.globalRt with
      | some rt => s.setCall c (.returned rt)
      | none => s.setCall c .building
    | _ => s
  | .build c error => match s.calls c with
    | .building => match error with
      | some e => s.setCall c (.failed ("failed to build tokio runtime: " ++ e))
      | none => s.setCall c (.leaked { builder := c, workerThreads := (caller c).workers cpus })
    | _ => s
  | .initWithRuntime c => match s.calls c with
    -- the error of a second registration is ignored
    | .leaked rt => { s with registered := (initWithRuntime rt s.registered).2 }.setCall c
        (.initialised rt)
    | _ => s
  | .getOrInit c => match s.calls c with
    | .initialised rt =>
      let stored := s.globalRt.getD rt
      { s with globalRt := some stored }.setCall c (.returned stored)
    | _ => s

/-- The call `c` has returned `rt`. -/
def RuntimeState.Returned (s : RuntimeState) (c : Nat) (rt : Runtime) : Prop :=
  s.calls c = .returned rt

/-- Every call that returned has what `GLOBAL_RT` holds. -/
def OneGlobal (s : RuntimeState) : Prop := ∀ c rt, s.Returned c rt → s.globalRt = some rt

/-- Every call that returned has the runtime that is in `GLOBAL_RT` and registered. -/
def Shared (s : RuntimeState) : Prop :=
  ∀ c rt, s.Returned c rt → s.globalRt = some rt ∧ s.registered = some rt

/-- The runtime that the call builds, if it does. -/
def built (cpus : Nat) (caller : Nat → Caller) (c : Nat) : Runtime :=
  { builder := c, workerThreads := (caller c).workers cpus }

theorem built_injective (cpus : Nat) (caller : Nat → Caller) :
    Function.Injective (built cpus caller) := by
  intro c d h
  exact congrArg Runtime.builder h

/-! ## The order of the calls -/

/-- The call whose turn it is to register, where the step is that one. -/
def RuntimeState.initialises (s : RuntimeState) : RuntimeEvent → Option Nat
  | .initWithRuntime c => match s.calls c with
    | .leaked _ => some c
    | _ => none
  | _ => none

/-- The call whose turn it is to store, where the step is that one. -/
def RuntimeState.stores (s : RuntimeState) : RuntimeEvent → Option Nat
  | .getOrInit c => match s.calls c with
    | .initialised _ => some c
    | _ => none
  | _ => none

/-- The calls. The last two fields record the order of the steps, and no step reads
    them. -/
structure OrderState extends RuntimeState where
  initialiser : Option Nat -- the first call that came to `init_with_runtime`
  storer : Option Nat -- the first call that came to `GLOBAL_RT.get_or_init`

def OrderState.init : OrderState := { RuntimeState.init with initialiser := none, storer := none }

def OrderState.step (cpus : Nat) (caller : Nat → Caller) (s : OrderState) (e : RuntimeEvent) :
    OrderState :=
  { s.toRuntimeState.step cpus caller e with
    initialiser := s.initialiser.or (s.initialises e)
    storer := s.storer.or (s.stores e) }

/-- The first call that came to store is the first one that came to register. -/
def OrderState.InOrder (s : OrderState) : Prop := ∀ c, s.storer = some c → s.initialiser = some c

instance (s : OrderState) : Decidable s.InOrder :=
  decidable_of_iff (s.storer = none ∨ s.storer = s.initialiser) <| by
    cases h : s.storer <;> simp [OrderState.InOrder, h, eq_comm]

/-! ## What a step does -/

/-- The event is the call's next step. -/
def RuntimeState.InTurn (s : RuntimeState) : RuntimeEvent → Prop
  | .read c => s.calls c = .start
  | .build c _ => s.calls c = .building
  | .initWithRuntime c => ∃ rt, s.calls c = .leaked rt
  | .getOrInit c => ∃ rt, s.calls c = .initialised rt

theorem initialises_eq_none {s : RuntimeState} {e : RuntimeEvent} (h : ¬ s.InTurn e) :
    s.initialises e = none := by
  cases e with
  | initWithRuntime c =>
    simp only [RuntimeState.initialises]
    split
    · next rt hcall => exact absurd ⟨rt, hcall⟩ h
    · rfl
  | read c | build c error | getOrInit c => rfl

theorem stores_eq_none {s : RuntimeState} {e : RuntimeEvent} (h : ¬ s.InTurn e) :
    s.stores e = none := by
  cases e with
  | getOrInit c =>
    simp only [RuntimeState.stores]
    split
    · next rt hcall => exact absurd ⟨rt, hcall⟩ h
    · rfl
  | read c | build c error | initWithRuntime c => rfl

/-- All that an event can do, with where its call was. -/
inductive RuntimeMove (cpus : Nat) (caller : Nat → Caller) (s : RuntimeState) :
    RuntimeEvent → RuntimeState → Prop
  | readFilled (c : Nat) (rt : Runtime) (hcall : s.calls c = .start)
      (hglobal : s.globalRt = some rt) :
      RuntimeMove cpus caller s (.read c) (s.setCall c (.returned rt))
  | readEmpty (c : Nat) (hcall : s.calls c = .start) (hglobal : s.globalRt = none) :
      RuntimeMove cpus caller s (.read c) (s.setCall c .building)
  | buildFails (c : Nat) (error : String) (hcall : s.calls c = .building) :
      RuntimeMove cpus caller s (.build c (some error))
        (s.setCall c (.failed ("failed to build tokio runtime: " ++ error)))
  | builds (c : Nat) (hcall : s.calls c = .building) :
      RuntimeMove cpus caller s (.build c none) (s.setCall c (.leaked (built cpus caller c)))
  | initialises (c : Nat) (rt : Runtime) (hcall : s.calls c = .leaked rt) :
      RuntimeMove cpus caller s (.initWithRuntime c)
        ({ s with registered := (initWithRuntime rt s.registered).2 }.setCall c (.initialised rt))
  | stores (c : Nat) (rt : Runtime) (hcall : s.calls c = .initialised rt) :
      RuntimeMove cpus caller s (.getOrInit c)
        ({ s with globalRt := some (s.globalRt.getD rt) }.setCall c
          (.returned (s.globalRt.getD rt)))

/-- A step out of turn changes nothing, and one in turn is a move. -/
theorem runtime_move (cpus : Nat) (caller : Nat → Caller) (s : RuntimeState) (e : RuntimeEvent) :
    (¬ s.InTurn e ∧ s.step cpus caller e = s) ∨
      RuntimeMove cpus caller s e (s.step cpus caller e) := by
  cases e with
  | read c =>
    simp only [RuntimeState.step]
    split
    · next hcall =>
      split
      · next rt hglobal => exact .inr (.readFilled c rt hcall hglobal)
      · next hglobal => exact .inr (.readEmpty c hcall hglobal)
    · next hcall => exact .inl ⟨hcall, rfl⟩
  | build c error =>
    simp only [RuntimeState.step]
    split
    · next hcall =>
      split
      · next error => exact .inr (.buildFails c error hcall)
      · exact .inr (.builds c hcall)
    · next hcall => exact .inl ⟨hcall, rfl⟩
  | initWithRuntime c =>
    simp only [RuntimeState.step]
    split
    · next rt hcall => exact .inr (.initialises c rt hcall)
    · next hcall => exact .inl ⟨fun ⟨rt, hleaked⟩ => hcall rt hleaked, rfl⟩
  | getOrInit c =>
    simp only [RuntimeState.step]
    split
    · next rt hcall => exact .inr (.stores c rt hcall)
    · next hcall => exact .inl ⟨fun ⟨rt, hinitialised⟩ => hcall rt hinitialised, rfl⟩

/-! ## The invariant -/

section
variable {cpus : Nat} {caller : Nat → Caller}

/-- The order is kept beside the machine. -/
theorem orderStep_state (s : OrderState) (es : List RuntimeEvent) :
    (EventRun.run (OrderState.step cpus caller) s es).toRuntimeState =
      EventRun.run (RuntimeState.step cpus caller) s.toRuntimeState es := by
  induction es generalizing s with
  | nil => rfl
  | cons e es ih => exact ih (s.step cpus caller e)

/-- Who was first stays first. -/
theorem first_run (cpus : Nat) (caller : Nat → Caller) (s : OrderState)
    (es : List RuntimeEvent) :
    (∀ c, s.initialiser = some c →
      (EventRun.run (OrderState.step cpus caller) s es).initialiser = some c) ∧
    ∀ c, s.storer = some c →
      (EventRun.run (OrderState.step cpus caller) s es).storer = some c := by
  induction es generalizing s with
  | nil => exact ⟨fun _ h => h, fun _ h => h⟩
  | cons e es ih =>
    obtain ⟨hinitialiser, hstorer⟩ := ih (s.step cpus caller e)
    refine ⟨fun c hc => hinitialiser c ?_, fun c hc => hstorer c ?_⟩
    · simp [OrderState.step, hc]
    · simp [OrderState.step, hc]

/-- What a call holds: its own runtime until it returns, then that of `GLOBAL_RT`. -/
def OrderState.CallHolds (cpus : Nat) (caller : Nat → Caller) (s : OrderState) (c : Nat) :
    CallState → Prop
  | .start | .building | .failed _ => True
  | .leaked rt => rt = built cpus caller c
  | .initialised rt => rt = built cpus caller c ∧ s.initialiser ≠ none
  | .returned rt => s.globalRt = some rt

/-- Each cell holds the runtime of the call that came first to it. -/
structure OrderInv (cpus : Nat) (caller : Nat → Caller) (s : OrderState) : Prop where
  registered : s.registered = s.initialiser.map (built cpus caller)
  globalRt : s.globalRt = s.storer.map (built cpus caller)
  first : s.storer ≠ none → s.initialiser ≠ none
  returned : ∀ c, s.storer = some c → ∃ rt, s.Returned c rt
  calls : ∀ c, s.CallHolds cpus caller c (s.calls c)

theorem orderInv_init : OrderInv cpus caller .init where
  registered := rfl
  globalRt := rfl
  first h := absurd rfl h
  returned c h := by cases h
  calls _ := trivial

/-- Step lemma: call `c` moves to `p`, and who was first stays first. -/
theorem OrderInv.move {s s' : OrderState} (h : OrderInv cpus caller s) {c : Nat} {p : CallState}
    (hmoves : ∀ rt, ¬ s.Returned c rt) (hcalls : s'.calls = Function.update s.calls c p)
    (hregistered : s'.registered = s'.initialiser.map (built cpus caller))
    (hglobal : s'.globalRt = s'.storer.map (built cpus caller))
    (hinitialiser : s.initialiser ≠ none → s'.initialiser ≠ none)
    (hstorer : s'.storer = s.storer ∨
      s.storer = none ∧ s'.storer = some c ∧ s'.initialiser ≠ none ∧ ∃ rt, p = .returned rt)
    (hp : s'.CallHolds cpus caller c p) : OrderInv cpus caller s' where
  registered := hregistered
  globalRt := hglobal
  first hsome := by
    rcases hstorer with hsame | ⟨_, _, hfirst, _⟩
    · rw [hsame] at hsome
      exact hinitialiser (h.first hsome)
    · exact hfirst
  returned d hd := by
    rcases hstorer with hsame | ⟨_, hnew, _, rt, rfl⟩
    · rw [hsame] at hd
      obtain ⟨rt, hret⟩ := h.returned d hd
      have hne : d ≠ c := by
        rintro rfl
        exact hmoves rt hret
      refine ⟨rt, ?_⟩
      rw [RuntimeState.Returned, hcalls, Function.update_of_ne hne]
      exact hret
    · obtain rfl := Option.some.inj (hnew.symm.trans hd)
      exact ⟨rt, by rw [RuntimeState.Returned, hcalls, Function.update_self]⟩
  calls j := by
    rw [hcalls]
    by_cases hj : j = c
    · rw [hj, Function.update_self]
      exact hp
    · rw [Function.update_of_ne hj]
      have hold := h.calls j
      cases hcall : s.calls j with
      | start | building | failed _ => trivial
      | leaked rt =>
        rw [hcall] at hold
        exact hold
      | initialised rt =>
        rw [hcall] at hold
        exact ⟨hold.1, hinitialiser hold.2⟩
      | returned rt =>
        rw [hcall] at hold
        have hfilled : s.globalRt = some rt := hold
        rcases hstorer with hsame | ⟨hnone, _⟩
        · rw [OrderState.CallHolds, hglobal, hsame, ← h.globalRt]
          exact hfilled
        · -- nobody had returned while the cell was empty
          rw [h.globalRt, hnone] at hfilled
          cases hfilled

theorem orderInv_step {s : OrderState} (h : OrderInv cpus caller s) (e : RuntimeEvent) :
    OrderInv cpus caller (s.step cpus caller e) := by
  simp only [OrderState.step]
  rcases runtime_move cpus caller s.toRuntimeState e with ⟨hturn, hsame⟩ | hmove
  · rw [hsame, initialises_eq_none hturn, stores_eq_none hturn, Option.or_none, Option.or_none]
    exact h
  · generalize s.toRuntimeState.step cpus caller e = after at hmove
    have hmoves : ∀ {c p}, s.calls c = p → (∀ rt, p ≠ .returned rt) →
        ∀ rt, ¬ s.Returned c rt := by
      intro c p hcall hp rt hret
      exact hp rt (hcall.symm.trans hret)
    cases hmove with
    | readFilled c rt hcall hglobal =>
      simp only [RuntimeState.initialises, RuntimeState.stores, Option.or_none]
      exact h.move (hmoves hcall (by simp)) rfl h.registered h.globalRt id (.inl rfl) hglobal
    | readEmpty c hcall hglobal =>
      simp only [RuntimeState.initialises, RuntimeState.stores, Option.or_none]
      exact h.move (hmoves hcall (by simp)) rfl h.registered h.globalRt id (.inl rfl) trivial
    | buildFails c error hcall =>
      simp only [RuntimeState.initialises, RuntimeState.stores, Option.or_none]
      exact h.move (hmoves hcall (by simp)) rfl h.registered h.globalRt id (.inl rfl) trivial
    | builds c hcall =>
      simp only [RuntimeState.initialises, RuntimeState.stores, Option.or_none]
      exact h.move (hmoves hcall (by simp)) rfl h.registered h.globalRt id (.inl rfl) rfl
    | initialises c rt hcall =>
      have hown : rt = built cpus caller c := by
        have hold := h.calls c
        rw [hcall] at hold
        exact hold
      have hcell : (initWithRuntime rt s.registered).2 =
          (s.initialiser.or (some c)).map (built cpus caller) := by
        rw [h.registered, hown]
        cases s.initialiser <;> rfl
      simp only [RuntimeState.initialises, RuntimeState.stores, hcall, Option.or_none]
      exact h.move (hmoves hcall (by simp)) rfl hcell h.globalRt (by simp) (.inl rfl)
        ⟨hown, by simp⟩
    | stores c rt hcall =>
      obtain ⟨hown, hinitialiser⟩ : rt = built cpus caller c ∧ s.initialiser ≠ none := by
        have hold := h.calls c
        rw [hcall] at hold
        exact hold
      have hcell : some (s.globalRt.getD rt) =
          (s.storer.or (some c)).map (built cpus caller) := by
        rw [h.globalRt, hown]
        cases s.storer <;> rfl
      simp only [RuntimeState.initialises, RuntimeState.stores, hcall, Option.or_none]
      refine h.move (hmoves hcall (by simp)) rfl h.registered hcell id ?_ rfl
      cases hstorer : s.storer with
      | none => exact .inr ⟨rfl, rfl, hinitialiser, _, rfl⟩
      | some d => exact .inl rfl

theorem orderInv_run {s : OrderState} (h : OrderInv cpus caller s) (es : List RuntimeEvent) :
    OrderInv cpus caller (EventRun.run (OrderState.step cpus caller) s es) :=
  EventRun.run_inv (I := OrderInv cpus caller) (fun _ e h => orderInv_step h e) h es

theorem OrderInv.one {s : OrderState} (h : OrderInv cpus caller s) :
    OneGlobal s.toRuntimeState := by
  intro c rt hret
  have hold := h.calls c
  rw [show s.calls c = .returned rt from hret] at hold
  exact hold

/-- In every state of every run, whatever a call returned is in `GLOBAL_RT`. -/
theorem returned_globalRt (cpus : Nat) (caller : Nat → Caller) (es : List RuntimeEvent) :
    OneGlobal (EventRun.run (RuntimeState.step cpus caller) .init es) := by
  have h : OrderInv cpus caller _ := orderInv_run orderInv_init es
  have hone := h.one
  rwa [orderStep_state] at hone

/-- In one state, sharing is a matter of who came first to the two cells. -/
theorem shared_iff_inOrder {s : OrderState} (h : OrderInv cpus caller s) :
    Shared s.toRuntimeState ↔ s.InOrder := by
  constructor
  · intro hshared c hstorer
    obtain ⟨rt, hret⟩ := h.returned c hstorer
    obtain ⟨hglobal, hregistered⟩ := hshared c rt hret
    rw [h.globalRt, hstorer] at hglobal
    obtain rfl := Option.some.inj hglobal
    rw [h.registered] at hregistered
    obtain ⟨d, hd, hsame⟩ := Option.map_eq_some_iff.mp hregistered
    rw [hd, built_injective cpus caller hsame]
  · intro horder c rt hret
    have hglobal : s.globalRt = some rt := h.one c rt hret
    refine ⟨hglobal, ?_⟩
    rw [h.globalRt] at hglobal
    obtain ⟨d, hd, rfl⟩ := Option.map_eq_some_iff.mp hglobal
    rw [h.registered, horder d hd]
    rfl

/-- A run that ends in order was in order all the time. -/
theorem inOrder_of_run {s : OrderState} (h : OrderInv cpus caller s) (es : List RuntimeEvent)
    (hend : (EventRun.run (OrderState.step cpus caller) s es).InOrder) : s.InOrder := by
  intro c hstorer
  obtain ⟨hinitialiser, hstays⟩ := first_run cpus caller s es
  have hlast := hend c (hstays c hstorer)
  obtain ⟨d, hd⟩ := Option.ne_none_iff_exists'.mp (h.first (by simp [hstorer]))
  rw [hd, ← hlast, hinitialiser d hd]

theorem throughout_shared {s : OrderState} (h : OrderInv cpus caller s) (es : List RuntimeEvent) :
    EventRun.Throughout (RuntimeState.step cpus caller) Shared s.toRuntimeState es ↔
      (EventRun.run (OrderState.step cpus caller) s es).InOrder := by
  rw [EventRun.throughout_iff]
  constructor
  · intro hall
    rw [← shared_iff_inOrder (orderInv_run h es), orderStep_state]
    exact hall es List.prefix_rfl
  · rintro hend pre ⟨post, rfl⟩
    rw [EventRun.run_append] at hend
    have hpre := orderInv_run h pre
    rw [← orderStep_state, shared_iff_inOrder hpre]
    exact inOrder_of_run hpre post hend

end

/-- When a run keeps one runtime for everybody. -/
theorem shared_iff (cpus : Nat) (caller : Nat → Caller) (es : List RuntimeEvent) :
    EventRun.Throughout (RuntimeState.step cpus caller) Shared .init es ↔
      (EventRun.run (OrderState.step cpus caller) .init es).InOrder :=
  throughout_shared orderInv_init es

/-- Call 0 registered first, and call 1 stores first. -/
example : ¬ (EventRun.run (OrderState.step 4 fun _ => .asyncSleep) .init
    [.read 0, .read 1, .build 0 none, .build 1 none, .initWithRuntime 0, .initWithRuntime 1,
      .getOrInit 1]).InOrder := by
  decide

/-! ## Calls that do not overlap -/

/-- The steps of one call, with what building a runtime would end in. -/
def wholeCall (c : Nat × Option String) : List RuntimeEvent :=
  [.read c.1, .build c.1 c.2, .initWithRuntime c.1, .getOrInit c.1]

/-- No call is between its first and its last step, and the cells agree. -/
structure Quiet (s : RuntimeState) : Prop where
  cells : s.registered = s.globalRt
  calls : ∀ c, s.calls c = .start ∨ (∃ rt, s.calls c = .returned rt) ∨
    ∃ message, s.calls c = .failed message

theorem quiet_setCall {s : RuntimeState} (h : Quiet s) {g : Option Runtime} (c : Nat)
    {p : CallState} (hp : (∃ rt, p = .returned rt) ∨ ∃ message, p = .failed message) :
    Quiet { globalRt := g, registered := g, calls := Function.update s.calls c p } where
  cells := rfl
  calls j := by
    by_cases hjc : j = c
    · rw [hjc]
      simp only [Function.update_self]
      exact .inr hp
    · simp only [Function.update_of_ne hjc]
      exact h.calls j

theorem quiet_wholeCall {cpus : Nat} {caller : Nat → Caller} {s : RuntimeState} (h : Quiet s)
    (c : Nat × Option String) :
    Quiet (EventRun.run (RuntimeState.step cpus caller) s (wholeCall c)) := by
  have hcells := h.cells
  rcases h.calls c.1 with hstart | ⟨rt, hret⟩ | ⟨message, hfail⟩
  · cases hglobal : s.globalRt with
    | some rt =>
      have hq := quiet_setCall h (g := some rt) c.1 (.inl ⟨rt, rfl⟩)
      simpa [wholeCall, RuntimeState.step, RuntimeState.setCall, hstart, hglobal, hcells] using hq
    | none =>
      cases herror : c.2 with
      | some e =>
        have hq := quiet_setCall h (g := none) c.1
          (.inr ⟨"failed to build tokio runtime: " ++ e, rfl⟩)
        simpa [wholeCall, RuntimeState.step, RuntimeState.setCall, hstart, hglobal, hcells,
          herror] using hq
      | none =>
        have hq := fun rt : Runtime => quiet_setCall h (g := some rt) c.1 (.inl ⟨rt, rfl⟩)
        simpa [wholeCall, RuntimeState.step, RuntimeState.setCall, hstart, hglobal, hcells,
          herror, initWithRuntime] using hq _
  · simpa [wholeCall, RuntimeState.step, hret] using h
  · simpa [wholeCall, RuntimeState.step, hfail] using h

theorem quiet_serial {cpus : Nat} {caller : Nat → Caller} {s : RuntimeState} (h : Quiet s)
    (cs : List (Nat × Option String)) :
    Quiet (EventRun.run (RuntimeState.step cpus caller) s (cs.flatMap wholeCall)) := by
  induction cs generalizing s with
  | nil => exact h
  | cons c cs ih =>
    rw [List.flatMap_cons, EventRun.run_append]
    exact ih (quiet_wholeCall h c)

/-- Calls that run one after the other, as they do under the GIL or a lock around the
    whole body, keep one runtime for everybody. -/
theorem shared_of_serial (cpus : Nat) (caller : Nat → Caller) (cs : List (Nat × Option String)) :
    EventRun.Throughout (RuntimeState.step cpus caller) Shared .init (cs.flatMap wholeCall) := by
  have hinv : OrderInv cpus caller _ := orderInv_run orderInv_init (cs.flatMap wholeCall)
  have hquiet : Quiet (EventRun.run (RuntimeState.step cpus caller) .init
      (cs.flatMap wholeCall)) := quiet_serial ⟨rfl, fun _ => .inl rfl⟩ cs
  rw [← show OrderState.init.toRuntimeState = .init from rfl, ← orderStep_state] at hquiet
  refine (throughout_shared orderInv_init _).mpr fun c hstorer => ?_
  have hcells := hquiet.cells
  rw [hinv.registered, hinv.globalRt] at hcells
  exact (Option.map_injective (built_injective cpus caller) hcells).trans hstorer

/-- Two calls that overlap: 0 registers its runtime, but 1 fills `GLOBAL_RT`. -/
theorem registered_differs :
    ¬ Shared (EventRun.run (RuntimeState.step 4 fun _ => .asyncSleep) .init
      [.read 0, .read 1, .build 0 none, .build 1 none, .initWithRuntime 0, .initWithRuntime 1,
        .getOrInit 1, .getOrInit 0]) := by
  intro h
  have hreg := (h 1 ⟨1, 4⟩ rfl).2
  exact absurd hreg (by decide)

end FerroIo
