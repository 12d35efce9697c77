import FerroIo.RuntimeSingleton

/- The runtimes that racing calls of `get_or_init_global` build. Each is leaked with its
   worker threads: a call that loses the race to fill `GLOBAL_RT` has built one that nobody
   will use.

   `LeakState` is the machine of the calls with the list of the runtimes built so far
   (`leakStep_state`).

   Main results:
     1. `runtimes_leaked`: in every run a call builds at most one runtime, with its own worker
        count; whatever the cells or the calls hold was built so; and once `GLOBAL_RT` is
        filled, no runtime is built but by calls that had read it empty before;
     2. `serial_leaks_one`: calls that do not overlap build one runtime at most, and every
        handle then has that one, whatever worker count it asked for and reports. -/
namespace FerroIo

/-- The calls, with the runtimes that `Box::leak` has leaked. -/
structure LeakState extends RuntimeState where
  leaked : List Runtime

def LeakState.init : LeakState := { RuntimeState.init with leaked := [] }

/-- What the step leaks: a call that is building succeeds. -/
def LeakState.leaks (cpus : Nat) (caller : Nat → Caller) (s : LeakState) :
    RuntimeEvent → List Runtime
  | .build c none =>
    if s.calls c = .building then
      [{ builder := c, workerThreads := (caller c).workers cpus }]
    else []
  | _ => []

def LeakState.step (cpus : Nat) (caller : Nat → Caller) (s : LeakState) (e : RuntimeEvent) :
    LeakState :=
  { s.toRuntimeState.step cpus caller e with leaked := s.leaked ++ s.leaks cpus caller e }

section
variable {cpus : Nat} {caller : Nat → Caller}

/-- The list is kept beside the machine, which does not look at it. -/
theorem leakStep_state (s : LeakState) (es : List RuntimeEvent) :
    (EventRun.run (LeakState.step cpus caller) s es).toRuntimeState =
      EventRun.run (RuntimeState.step cpus caller) s.toRuntimeState es := by
  induction es generalizing s with
  | nil => rfl
  | cons e es ih => exact ih (s.step cpus caller e)

/-! ## The invariant -/

/-- A runtime of the right size. -/
def BuiltBy (cpus : Nat) (caller : Nat → Caller) (rt : Runtime) : Prop :=
  rt.workerThreads = (caller rt.builder).workers cpus

/-- What a call holds was leaked by it, and a call that may still build has not built yet. -/
def LeakState.CallHolds (s : LeakState) (c : Nat) : CallState → Prop
  | .start | .building | .failed _ => ∀ rt ∈ s.leaked, rt.builder ≠ c
  | .leaked rt | .initialised rt => rt ∈ s.leaked
  | .returned rt => s.globalRt = some rt

structure LeakInv (cpus : Nat) (caller : Nat → Caller) (s : LeakState) : Prop where
  built : ∀ rt ∈ s.leaked, BuiltBy cpus caller rt
  once : (s.leaked.map Runtime.builder).Nodup
  global : ∀ rt, s.globalRt = some rt → rt ∈ s.leaked
  registered : ∀ rt, s.registered = some rt → rt ∈ s.leaked
  calls : ∀ c, s.CallHolds c (s.calls c)

/-- Step lemma, for the steps that leak nothing: call `c` moves to `p`, and the cells keep what
    they hold. -/
theorem LeakInv.move {s s' : LeakState} (h : LeakInv cpus caller s) {c : Nat} {p : CallState}
    (hcalls : s'.calls = Function.update s.calls c p) (hleaked : s'.leaked = s.leaked)
    (hkeeps : ∀ rt, s.globalRt = some rt → s'.globalRt = some rt)
    (hglobal : ∀ rt, s'.globalRt = some rt → rt ∈ s.leaked)
    (hregistered : ∀ rt, s'.registered = some rt → rt ∈ s.leaked)
    (hp : s'.CallHolds c p) : LeakInv cpus caller s' where
  built := by
    rw [hleaked]
    exact h.built
  once := by
    rw [hleaked]
    exact h.once
  global := by
    rw [hleaked]
    exact hglobal
  registered := by
    rw [hleaked]
    exact hregistered
  calls j := by
    rw [hcalls]
    by_cases hj : j = c
    · rw [hj, Function.update_self]
      exact hp
    · rw [Function.update_of_ne hj]
      have hold := h.calls j
      cases hcall : s.calls j with
      | start | building | failed _ | leaked _ | initialised _ =>
        rw [hcall] at hold
        simp only [LeakState.CallHolds, hleaked] at hold ⊢
        exact hold
      | returned rt =>
        rw [hcall] at hold
        exact hkeeps rt hold

/-- Step lemma, for the step that leaks. -/
theorem LeakInv.leak {s : LeakState} (h : LeakInv cpus caller s) {c : Nat}
    (hcall : s.calls c = .building) :
    LeakInv cpus caller { s.toRuntimeState.setCall c
        (.leaked { builder := c, workerThreads := (caller c).workers cpus }) with
      leaked := s.leaked ++ [{ builder := c, workerThreads := (caller c).workers cpus }] } := by
  have hnew : ∀ rt ∈ s.leaked, rt.builder ≠ c := by
    have hbuilding := h.calls c
    rw [hcall] at hbuilding
    exact hbuilding
  refine ⟨fun rt hrt => ?_, ?_, fun rt hrt => List.mem_append_left _ (h.global rt hrt),
    fun rt hrt => List.mem_append_left _ (h.registered rt hrt), fun j => ?_⟩
  · rcases List.mem_append.mp hrt with hold | hlast
    · exact h.built rt hold
    · obtain rfl := List.mem_singleton.mp hlast
      rfl
  · rw [List.map_append, List.nodup_append]
    refine ⟨h.once, by simp, fun a ha b hb => ?_⟩
    obtain ⟨rt, hrt, rfl⟩ := List.mem_map.mp ha
    obtain rfl := List.mem_singleton.mp hb
    exact hnew rt hrt
  · by_cases hj : j = c
    · rw [hj]
      simp [RuntimeState.setCall, LeakState.CallHolds]
    · have hold := h.calls j
      have hsame : (s.toRuntimeState.setCall c (.leaked
          { builder := c, workerThreads := (caller c).workers cpus })).calls j = s.calls j :=
        Function.update_of_ne hj _ _
      simp only [hsame]
      -- the new runtime is not that of another call
      cases hcallj : s.calls j with
      | start | building | failed _ =>
        rw [hcallj] at hold
        intro rt hrt
        rcases List.mem_append.mp hrt with hmem | hlast
        · exact hold rt hmem
        · obtain rfl := List.mem_singleton.mp hlast
          exact Ne.symm hj
      | leaked rt | initialised rt =>
        rw [hcallj] at hold
        exact List.mem_append_left _ hold
      | returned rt =>
        rw [hcallj] at hold
        exact hold

theorem leaks_eq_nil {s : LeakState} {e : RuntimeEvent} (h : ¬ s.InTurn e) :
    s.leaks cpus caller e = [] := by
  cases e with
  | build c error =>
    cases error with
    | none =>
      have hcall : s.calls c ≠ .building := h
      simp only [LeakState.leaks, if_neg hcall]
    | some error => rfl
  | read c | initWithRuntime c | getOrInit c => rfl

theorem leakInv_step {s : LeakState} (h : LeakInv cpus caller s) (e : RuntimeEvent) :
    LeakInv cpus caller (s.step cpus caller e) := by
  simp only [LeakState.step]
  rcases runtime_move cpus caller s.toRuntimeState e with ⟨hturn, hsame⟩ | hmove
  · rw [hsame, leaks_eq_nil hturn, List.append_nil]
    exact h
  · generalize s.toRuntimeState.step cpus caller e = after at hmove
    have hheld : ∀ {c p}, s.calls c = p → s.CallHolds c p := by
      intro c p hcall
      rw [← hcall]
      exact h.calls c
    cases hmove with
    | readFilled c rt hcall hglobal =>
      simp only [LeakState.leaks, List.append_nil]
      exact h.move rfl rfl (fun _ hrt => hrt) h.global h.registered hglobal
    | readEmpty c hcall hglobal =>
      simp only [LeakState.leaks, List.append_nil]
      exact h.move rfl rfl (fun _ hrt => hrt) h.global h.registered (hheld hcall)
    | buildFails c error hcall =>
      simp only [LeakState.leaks, List.append_nil]
      exact h.move rfl rfl (fun _ hrt => hrt) h.global h.registered (hheld hcall)
    | builds c hcall =>
      simp only [LeakState.leaks, if_pos hcall]
      exact h.leak hcall
    | initialises c rt hcall =>
      have hmem : rt ∈ s.leaked := hheld hcall
      simp only [LeakState.leaks, List.append_nil]
      refine h.move rfl rfl (fun _ hrt => hrt) h.global (fun rt' hrt' => ?_) hmem
      cases hregistered : s.registered with
      | none =>
        simp only [RuntimeState.setCall, hregistered, initWithRuntime] at hrt'
        exact Option.some.inj hrt' ▸ hmem
      | some other =>
        simp only [RuntimeState.setCall, hregistered, initWithRuntime] at hrt'
        exact Option.some.inj hrt' ▸ h.registered other hregistered
    | stores c rt hcall =>
      have hmem : rt ∈ s.leaked := hheld hcall
      simp only [LeakState.leaks, List.append_nil]
      refine h.move rfl rfl (fun rt' hrt' => ?_) (fun rt' hrt' => ?_) h.registered rfl
      · simp [RuntimeState.setCall, hrt']
      · have hstored : s.globalRt.getD rt = rt' := Option.some.inj hrt'
        rw [← hstored]
        cases hglobal : s.globalRt with
        | none => exact hmem
        | some stored => exact h.global stored hglobal

theorem leakInv_run (es : List RuntimeEvent) :
    LeakInv cpus caller (EventRun.run (LeakState.step cpus caller) .init es) := by
  refine EventRun.run_inv (I := LeakInv cpus caller) (fun _ e h => leakInv_step h e) ?_ es
  refine ⟨fun _ h => ?_, List.nodup_nil, fun _ h => ?_, fun _ h => ?_, fun c _ h => ?_⟩
  all_goals cases h

/-! ## After `GLOBAL_RT` is filled -/

theorem building_of_update {calls : Nat → CallState} {c j : Nat} {p : CallState}
    (hp : p ≠ .building) (h : Function.update calls c p j = .building) :
    calls j = .building := by
  by_cases hj : j = c
  · rw [hj, Function.update_self] at h
    exact absurd h hp
  · rwa [Function.update_of_ne hj] at h

/-- A call that reads a filled cell does not build. -/
theorem step_filled (cpus : Nat) (caller : Nat → Caller) {s : RuntimeState} {stored : Runtime}
    (h : s.globalRt = some stored) (e : RuntimeEvent) :
    (s.step cpus caller e).globalRt = some stored ∧
      ∀ c, (s.step cpus caller e).calls c = .building → s.calls c = .building := by
  rcases runtime_move cpus caller s e with ⟨_, hsame⟩ | hmove
  · rw [hsame]
    exact ⟨h, fun _ hj => hj⟩
  · generalize s.step cpus caller e = after at hmove
    cases hmove with
    | readEmpty c hcall hglobal =>
      rw [h] at hglobal
      cases hglobal
    | stores c rt hcall =>
      exact ⟨by simp [RuntimeState.setCall, h], fun j => building_of_update (by simp)⟩
    | readFilled | buildFails | builds | initialises =>
      exact ⟨h, fun j => building_of_update (by simp)⟩

/-- What a state after `s`, where `GLOBAL_RT` was filled, owes to the calls that were building
    in `s`. -/
structure Settled (stored : Runtime) (s s' : LeakState) : Prop where
  filled : s'.globalRt = some stored
  building : ∀ c, s'.calls c = .building → s.calls c = .building
  leaked : ∃ late, s'.leaked = s.leaked ++ late ∧ ∀ rt ∈ late, s.calls rt.builder = .building

theorem settled_step {stored : Runtime} {s s' : LeakState} (h : Settled stored s s')
    (e : RuntimeEvent) : Settled stored s (s'.step cpus caller e) := by
  obtain ⟨hfilled, hbuilding⟩ := step_filled cpus caller h.filled e
  obtain ⟨late, hlate, hown⟩ := h.leaked
  refine ⟨hfilled, fun c hc => h.building c (hbuilding c hc),
    late ++ s'.leaks cpus caller e, ?_, fun rt hrt => ?_⟩
  · rw [LeakState.step, hlate, List.append_assoc]
  · rcases List.mem_append.mp hrt with hold | hnew
    · exact hown rt hold
    · cases e with
      | build c error =>
        cases error with
        | some message => cases hnew
        | none =>
          simp only [LeakState.leaks] at hnew
          split at hnew
          · next hc =>
            obtain rfl := List.mem_singleton.mp hnew
            exact h.building c hc
          · cases hnew
      | read c | initWithRuntime c | getOrInit c => cases hnew

theorem settled_run (cpus : Nat) (caller : Nat → Caller) {stored : Runtime} {s : LeakState}
    (h : s.globalRt = some stored)
    (es : List RuntimeEvent) :
    Settled stored s (EventRun.run (LeakState.step cpus caller) s es) :=
  EventRun.run_inv (I := Settled stored s) (fun _ e h => settled_step h e)
    ⟨h, fun _ hc => hc, [], (List.append_nil _).symm, fun _ hrt => by cases hrt⟩ es

end

/-- The runtimes that any number of racing calls build. -/
theorem runtimes_leaked (cpus : Nat) (caller : Nat → Caller) (es : List RuntimeEvent) :
    let s := EventRun.run (LeakState.step cpus caller) .init es
    (s.leaked.map Runtime.builder).Nodup ∧
    (∀ rt ∈ s.leaked, rt.workerThreads = (caller rt.builder).workers cpus) ∧
    (∀ c rt, s.Returned c rt → s.globalRt = some rt) ∧
    (∀ rt, s.globalRt = some rt ∨ s.registered = some rt → rt ∈ s.leaked) ∧
    (s.globalRt.isSome → ∀ later, ∃ late,
      (EventRun.run (LeakState.step cpus caller) s later).leaked = s.leaked ++ late ∧
      (EventRun.run (LeakState.step cpus caller) s later).globalRt = s.globalRt ∧
      ∀ rt ∈ late, s.calls rt.builder = .building) := by
  intro s
  have h : LeakInv cpus caller s := leakInv_run es
  refine ⟨h.once, h.built, fun c rt hret => ?_, ?_, fun hfilled later => ?_⟩
  · have hcall := h.calls c
    rw [show s.calls c = .returned rt from hret] at hcall
    exact hcall
  · rintro rt (hglobal | hregistered)
    · exact h.global rt hglobal
    · exact h.registered rt hregistered
  · obtain ⟨stored, hstored⟩ := Option.isSome_iff_exists.mp hfilled
    have hsettled := settled_run cpus caller hstored later
    obtain ⟨late, hlate, hown⟩ := hsettled.leaked
    exact ⟨late, hlate, hsettled.filled.trans hstored.symm, hown⟩

/-! ## Calls that do not overlap -/

section
variable {cpus : Nat} {caller : Nat → Caller}

/-- With no call under way and the cell filled, nothing is ever leaked again. -/
theorem leaked_of_quiet {s : LeakState} (hquiet : Quiet s.toRuntimeState) {stored : Runtime}
    (hfilled : s.globalRt = some stored) (es : List RuntimeEvent) :
    (EventRun.run (LeakState.step cpus caller) s es).leaked = s.leaked := by
  obtain ⟨late, hlate, hown⟩ := (settled_run cpus caller hfilled es).leaked
  cases late with
  | nil => rw [hlate, List.append_nil]
  | cons rt late =>
    have hbuilding := hown rt List.mem_cons_self
    rcases hquiet.calls rt.builder with h | ⟨_, h⟩ | ⟨_, h⟩ <;> rw [h] at hbuilding <;>
      cases hbuilding

/-- Run lemma: the first call that succeeds leaks the one runtime. -/
theorem serial_run {s : LeakState} (hquiet : Quiet s.toRuntimeState) (hempty : s.globalRt = none)
    (hleaked : s.leaked = []) {cs : List (Nat × Option String)}
    (hdistinct : (cs.map Prod.fst).Nodup) (hstart : ∀ c ∈ cs, s.calls c.1 = .start) :
    (EventRun.run (LeakState.step cpus caller) s (cs.flatMap wholeCall)).leaked =
      ((cs.find? fun c => c.2.isNone).map fun c =>
        { builder := c.1, workerThreads := (caller c.1).workers cpus : Runtime }).toList := by
  induction cs generalizing s with
  | nil => exact hleaked
  | cons c cs ih =>
    obtain ⟨hstartc, hrest⟩ := List.forall_mem_cons.mp hstart
    rw [List.map_cons, List.nodup_cons] at hdistinct
    have hregistered : s.registered = none := hquiet.cells.trans hempty
    have hquiet' :
        Quiet (EventRun.run (LeakState.step cpus caller) s (wholeCall c)).toRuntimeState := by
      rw [leakStep_state]
      exact quiet_wholeCall hquiet c
    rw [List.flatMap_cons, EventRun.run_append]
    obtain ⟨id, error⟩ := c
    cases error with
    | none =>
      have hfilled : (EventRun.run (LeakState.step cpus caller) s
          (wholeCall (id, none))).globalRt = some ⟨id, (caller id).workers cpus⟩ := by
        simp [wholeCall, LeakState.step, RuntimeState.step, RuntimeState.setCall, hstartc, hempty]
      have hone : (EventRun.run (LeakState.step cpus caller) s (wholeCall (id, none))).leaked =
          [⟨id, (caller id).workers cpus⟩] := by
        simp [wholeCall, LeakState.step, LeakState.leaks, RuntimeState.step,
          RuntimeState.setCall, hstartc, hempty, hleaked]
      rw [leaked_of_quiet hquiet' hfilled, hone]
      rfl
    | some message =>
      refine ih hquiet' ?_ ?_ hdistinct.2 fun d hd => ?_
      · simp [wholeCall, LeakState.step, RuntimeState.step, RuntimeState.setCall, hstartc, hempty]
      · simp [wholeCall, LeakState.step, LeakState.leaks, RuntimeState.step,
          RuntimeState.setCall, hstartc, hempty, hleaked]
      · have hne : d.1 ≠ id := by
          rintro rfl
          exact hdistinct.1 (List.mem_map.mpr ⟨d, hd, rfl⟩)
        simp [wholeCall, LeakState.step, RuntimeState.step, RuntimeState.setCall, hstartc, hempty,
          hne, hrest d hd]

end

/-- Different calls, one after the other: the first that succeeds leaks the one runtime, and
    every call that returns has it. -/
theorem serial_leaks_one (cpus : Nat) (caller : Nat → Caller) (cs : List (Nat × Option String))
    (hdistinct : (cs.map Prod.fst).Nodup) :
    let s := EventRun.run (LeakState.step cpus caller) .init (cs.flatMap wholeCall)
    s.leaked = ((cs.find? fun c => c.2.isNone).map fun c =>
      { builder := c.1, workerThreads := (caller c.1).workers cpus : Runtime }).toList ∧
    ∀ c rt, s.Returned c rt → s.leaked = [rt] := by
  intro s
  have hleaked : s.leaked = _ :=
    serial_run ⟨rfl, fun _ => .inl rfl⟩ rfl rfl hdistinct fun _ _ => rfl
  refine ⟨hleaked, fun c rt hret => ?_⟩
  have h : LeakInv cpus caller s := leakInv_run _
  have hcall := h.calls c
  rw [show s.calls c = .returned rt from hret] at hcall
  have hmem := h.global rt hcall
  rw [hleaked] at hmem ⊢
  cases hfirst : cs.find? fun c => c.2.isNone with
  | none => simp [hfirst] at hmem
  | some first =>
    rw [hfirst] at hmem
    rw [List.mem_singleton.mp hmem]
    rfl

/-- The first call fails, and the third asks for a size of its own. -/
theorem serial_leaks_one_third :
    let caller := fun c => if c = 2 then Caller.asyncRuntimeNew (some 8) else .asyncSleep
    let s := EventRun.run (LeakState.step 4 caller) .init
      ([(0, some "no threads"), (1, none), (2, none)].flatMap wholeCall)
    s.leaked = [⟨1, 4⟩] ∧ s.Returned 2 ⟨1, 4⟩ := by
  intro caller s
  have h := serial_leaks_one 4 caller [(0, some "no threads"), (1, none), (2, none)] (by decide)
  exact ⟨h.1, rfl⟩

end FerroIo
