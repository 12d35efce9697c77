import FerroIo.RunCoroutine
import FerroIo.SymbolCoverage

/- What a program that calls asyncio can see of `install` and `uninstall`.

   A program imports asyncio into variables, reads it from the modules that have imported
   it, calls functions by name and loads modules. A name passes through `ferro_io` if it is
   not bound there (`__getattr__`), bound to stdlib asyncio's own function (`gather`, ..), or
   bound to a function that calls stdlib asyncio's (`new_event_loop`): these are all names
   but those that the body of `ferro_io/__init__.py` defines, those that the module has
   without it, and `_install` and `asyncio` (`Transparent`).

   Correspondence (Python and Rust ↔ Lean):
     calling `m.name(*args)`                         ↔ `callMethod`
     `def new_event_loop(): return _asyncio. ..`     ↔ `Code.passOn`
     `import asyncio` in a function                  ↔ `Client.importAsyncio`
     `mod.asyncio`                                   ↔ `Client.readAsyncio`
     `py.import("asyncio")`, `asyncio.call_method`   ↔ `importedApi`

   Main results:
     1. `drop_in`: a program that calls only such names does the same with its `install`
        and `uninstall` calls as without them, wherever they stand;
     2. `run_coroutine_installed`: `run_coroutine` on what `import asyncio` gives, in every
        state that `install` and `uninstall` lead to, is `run_coroutine` on stdlib asyncio.
   Were `_asyncio` bound to `ferro_io`, a function that passes a call on would call itself
   until Python's recursion limit (`callMethod_cycle`). -/
namespace FerroIo

open ModuleBody (Names ownNames)

variable {Obj : Type*} {A R S E : Type}

/-- What calling an object does. `passOn name` is the body `return _asyncio.name()`. -/
inductive Code (A R S E : Type) where
  | body (f : List A → S → Except E R × S)
  | passOn (name : String)

inductive CallError (Obj : Type*) (E : Type) where
  | raised (e : E)
  | attributeError (asked : Obj) (name : String)
  | typeError
  | nameError
  | recursionError
  deriving DecidableEq, Repr

section
variable [DecidableEq Obj]

/-- `m.name(*args)`, by calls that nest at most `fuel` deep. `code` is what the objects do
    that can be called. -/
def callMethod (ferroIo : Obj) (code : Obj → Option (Code A R S E)) (w : World Obj) :
    Nat → Obj → String → List A → S → Except (CallError Obj E) R × S
  | 0, _, _, _, s => (.error .recursionError, s)
  | fuel + 1, m, name, args, s =>
    match lookup ferroIo w (fuel + 1) m name with
    | none => (.error .recursionError, s)
    | some (.error asked) => (.error (.attributeError asked name), s)
    | some (.ok v) =>
      match v.bind code with
      | none => (.error .typeError, s)
      | some (.body f) => ((f args s).1.mapError .raised, (f args s).2)
      | some (.passOn name') =>
        if args.isEmpty then
          match (w.attr ferroIo "_asyncio").join with
          | none => (.error .nameError, s)
          | some m' => callMethod ferroIo code w fuel m' name' [] s
        else (.error .typeError, s)

/-! ## Programs -/

/-- A program, by its steps: each goes on with what its call gave. Whatever `install` and
    `uninstall` raise is caught. -/
inductive Script (Obj : Type*) (A R E : Type) where
  | done (result : Except (CallError Obj E) R)
  | importAsyncio (k : Script Obj A R E)
  | readAsyncio (mod : Obj) (k : Script Obj A R E)
  | call (var : Nat) (name : String) (args : List A)
      (k : Except (CallError Obj E) R → Script Obj A R E)
  | event (e : InstallEvent Obj) (k : Script Obj A R E)

/-- The modules, the variables of the program, and what the functions work on. -/
structure Client (Obj : Type*) (S : Type) where
  world : World Obj
  vars : List (Value Obj)
  state : S

def Client.importAsyncio (c : Client Obj S) : Client Obj S :=
  { c with vars := c.vars ++ [c.world.module "asyncio"] }

/-- None if reading the attribute raises. -/
def Client.readAsyncio (env : Env Obj) (c : Client Obj S) (mod : Obj) : Client Obj S :=
  { c with vars := c.vars ++
      [if env.readFault mod = none then c.world.getattr mod "asyncio" else none] }

def Client.event (env : Env Obj) (c : Client Obj S) (e : InstallEvent Obj) : Client Obj S :=
  { c with world := c.world.step env e }

def Client.call (env : Env Obj) (code : Obj → Option (Code A R S E)) (fuel : Nat)
    (c : Client Obj S) (var : Nat) (name : String) (args : List A) :
    Except (CallError Obj E) R × Client Obj S :=
  match c.vars[var]?.join with
  | none => (.error .nameError, c)
  | some m =>
    match callMethod env.ferroIo code c.world fuel m name args c.state with
    | (result, s) => (result, { c with state := s })

def Script.exec (env : Env Obj) (code : Obj → Option (Code A R S E)) (fuel : Nat) :
    Script Obj A R E → Client Obj S → Except (CallError Obj E) R × Client Obj S
  | .done result, c => (result, c)
  | .importAsyncio k, c => k.exec env code fuel c.importAsyncio
  | .readAsyncio mod k, c => k.exec env code fuel (c.readAsyncio env mod)
  | .call var name args k, c =>
    match c.call env code fuel var name args with
    | (result, c) => (k result).exec env code fuel c
  | .event e k, c => k.exec env code fuel (c.event env e)

omit [DecidableEq Obj] in
/-- The program without its calls of `install` and `uninstall`. -/
def Script.erase : Script Obj A R E → Script Obj A R E
  | .done result => .done result
  | .importAsyncio k => .importAsyncio k.erase
  | .readAsyncio mod k => .readAsyncio mod k.erase
  | .call var name args k => .call var name args fun result => (k result).erase
  | .event (.install _) k => k.erase
  | .event .uninstall k => k.erase
  | .event (.load name mod) k => .event (.load name mod) k.erase
  | .event (.unload name) k => .event (.unload name) k.erase

/-- Names of `ferro_io` whose calls reach stdlib asyncio's own function, which does not
    call `ferro_io` in turn. -/
structure PassesThrough (env : Env Obj) (std : Obj) (code : Obj → Option (Code A R S E))
    (w : World Obj) (name : String) (args : List A) : Prop where
  name_ne : name ≠ "asyncio"
  own : ∀ f name', w.attr std name = some (some f) → code f ≠ some (.passOn name')
  ferroIo : w.attr env.ferroIo name = none ∨ w.attr env.ferroIo name = w.attr std name ∨
    args = [] ∧ ∃ f, w.attr env.ferroIo name = some (some f) ∧ code f = some (.passOn name)

/-- The names that are not `ferro_io`'s, and `new_event_loop`, which passes calls on. -/
def Transparent (given : Names String (Value Obj)) (name : String) (args : List A) : Prop :=
  name ∉ boundByCalls ∧ given name = none ∧
    (name ∉ ownNames moduleBody ∨ name = "new_event_loop" ∧ args = [])

/-- On the steps that the program gets to: what it calls is asyncio, by a name that is
    transparent, and its imports are those of `Imports`. -/
def Script.Conforms (env : Env Obj) (std : Obj) (given : Names String (Value Obj))
    (code : Obj → Option (Code A R S E)) (fuel : Nat) : Script Obj A R E → Client Obj S → Prop
  | .done _, _ => True
  | .importAsyncio k, c => k.Conforms env std given code fuel c.importAsyncio
  | .readAsyncio mod k, c => k.Conforms env std given code fuel (c.readAsyncio env mod)
  | .call var name args k, c =>
    (∀ m, c.vars[var]?.join = some m → OneOfTwo env std (some m) ∧ Transparent given name args) ∧
    match c.call env code fuel var name args with
    | (result, c) => (k result).Conforms env std given code fuel c
  | .event e k, c => Imports env c.world e ∧ k.Conforms env std given code fuel (c.event env e)

/-- `ferro_io.new_event_loop` calls stdlib asyncio's, whose functions call none of
    `ferro_io`. -/
structure CodeOf (own : String → Value Obj) (std : Obj) (start : World Obj)
    (code : Obj → Option (Code A R S E)) : Prop where
  newEventLoop : ∃ f, own "new_event_loop" = some f ∧ code f = some (.passOn "new_event_loop")
  std : ∀ name f name', start.attr std name = some (some f) → code f ≠ some (.passOn name')

omit [DecidableEq Obj] in
theorem Imported.passesThrough {env : Env Obj} {std : Obj} {own : String → Value Obj}
    {given : Names String (Value Obj)} {start w : World Obj}
    {code : Obj → Option (Code A R S E)} {name : String} {args : List A}
    (h : Imported env std own given start) (hcode : CodeOf own std start code)
    (hw : NamesKept env std start w) (hname : Transparent given name args) :
    PassesThrough env std code w name args := by
  obtain ⟨hcalls, hgiven, hkind⟩ := hname
  have hne : name ≠ "asyncio" := ne_asyncio hcalls
  refine ⟨hne, ?_, ?_⟩
  · intro f name' hf
    exact hcode.std name f name' ((hw.names _ _ hne).symm.trans hf)
  · rw [hw.names _ _ hne, hw.names _ _ hne]
    rcases hkind with hforeign | ⟨rfl, rfl⟩
    · rcases ModuleBody.exec_foreign h.body hforeign with hkept | hsame
      · exact .inl (hkept.trans hgiven)
      · exact .inr (.inl hsame)
    · obtain ⟨f, hown, hf⟩ := hcode.newEventLoop
      refine .inr (.inr ⟨rfl, f, ?_, hf⟩)
      rw [imported_newEventLoop h.body, hown]

/-! ## Calling by name -/

section
variable {env : Env Obj} {std : Obj} {code : Obj → Option (Code A R S E)} {w w' : World Obj}
  {name : String} {args : List A}

/-- A function of stdlib asyncio is called directly, so that the depth does not matter. -/
theorem callMethod_std (hne : std ≠ env.ferroIo) (hname : w.attr std name = w'.attr std name)
    (hown : ∀ f name', w.attr std name = some (some f) → code f ≠ some (.passOn name'))
    (fuel fuel' : Nat) (args : List A) (s : S) :
    callMethod env.ferroIo code w (fuel + 1) std name args s =
      callMethod env.ferroIo code w' (fuel' + 1) std name args s := by
  simp only [callMethod, lookup_std hne, ← hname]
  cases hb : w.attr std name with
  | none => rfl
  | some v =>
    cases v with
    | none => rfl
    | some f =>
      simp only [answer, Option.bind_some]
      cases hf : code f with
      | none => rfl
      | some c =>
        cases c with
        | body g => rfl
        | passOn name' => exact absurd hf (hown f name' hb)

/-- Called on `ferro_io`, a name that passes through does what it does on stdlib asyncio. -/
theorem callMethod_ferroIo (hne : std ≠ env.ferroIo)
    (hint : w.attr env.ferroIo "_asyncio" = some (some std))
    (h : PassesThrough env std code w name args) (fuel : Nat) (s : S) :
    callMethod env.ferroIo code w (fuel + 2) env.ferroIo name args s =
      callMethod env.ferroIo code w (fuel + 2) std name args s := by
  rcases h.ferroIo with hnone | hsame | ⟨rfl, f, hf, hcode⟩
  · -- `__getattr__`
    have hlookup : lookup env.ferroIo w (fuel + 2) env.ferroIo name =
        lookup env.ferroIo w (fuel + 2) std name := by
      rw [lookup_ferroIo hne hint, lookup_std hne name (fuel + 1), hnone]
      rfl
    simp only [callMethod, hlookup]
  · -- the same object in both modules
    have hlookup : lookup env.ferroIo w (fuel + 2) env.ferroIo name =
        lookup env.ferroIo w (fuel + 2) std name := by
      rw [lookup_ferroIo hne hint, lookup_std hne name (fuel + 1), hsame, Option.or_self]
    simp only [callMethod, hlookup]
  · have hlookup : lookup env.ferroIo w (fuel + 2) env.ferroIo name = some (.ok (some f)) := by
      rw [lookup_ferroIo hne hint, hf]
      rfl
    calc callMethod env.ferroIo code w (fuel + 2) env.ferroIo name [] s
        = callMethod env.ferroIo code w (fuel + 1) std name [] s := by
          simp [callMethod, hlookup, hcode, hint]
      _ = callMethod env.ferroIo code w (fuel + 2) std name [] s :=
          callMethod_std hne rfl h.own fuel (fuel + 1) [] s

/-- In worlds that differ at most in `asyncio` attributes, a name that passes through does
    the same on either module. -/
theorem callMethod_agrees (hne : std ≠ env.ferroIo)
    (hint : w.attr env.ferroIo "_asyncio" = some (some std))
    (hattr : ∀ m n, n ≠ "asyncio" → w.attr m n = w'.attr m n)
    (h : PassesThrough env std code w name args) {m m' : Obj} (hm : OneOfTwo env std (some m))
    (hm' : OneOfTwo env std (some m')) (fuel : Nat) (s : S) :
    callMethod env.ferroIo code w (fuel + 2) m name args s =
      callMethod env.ferroIo code w' (fuel + 2) m' name args s := by
  have hint' : w'.attr env.ferroIo "_asyncio" = some (some std) := by
    rw [← hattr _ _ (by decide), hint]
  have h' : PassesThrough env std code w' name args := by
    refine ⟨h.name_ne, ?_, ?_⟩
    · rw [← hattr std name h.name_ne]
      exact h.own
    · rw [← hattr std name h.name_ne, ← hattr env.ferroIo name h.name_ne]
      exact h.ferroIo
  have hleft : callMethod env.ferroIo code w (fuel + 2) m name args s =
      callMethod env.ferroIo code w (fuel + 2) std name args s := by
    rcases hm with hm | hm
    · rw [Option.some.inj hm]
    · rw [Option.some.inj hm]
      exact callMethod_ferroIo hne hint h fuel s
  have hright : callMethod env.ferroIo code w' (fuel + 2) m' name args s =
      callMethod env.ferroIo code w' (fuel + 2) std name args s := by
    rcases hm' with hm' | hm'
    · rw [Option.some.inj hm']
    · rw [Option.some.inj hm']
      exact callMethod_ferroIo hne hint' h' fuel s
  rw [hleft, hright]
  exact callMethod_std hne (hattr std name h.name_ne) h.own (fuel + 1) (fuel + 1) args s

/-- What a rebinding of `_asyncio` would do: the function finds itself. -/
theorem callMethod_cycle (hint : w.attr env.ferroIo "_asyncio" = some (some env.ferroIo))
    {f : Obj} (hf : w.attr env.ferroIo name = some (some f)) (hcode : code f = some (.passOn name))
    (fuel : Nat) (s : S) :
    callMethod env.ferroIo code w fuel env.ferroIo name [] s = (.error .recursionError, s) := by
  induction fuel with
  | zero => rfl
  | succ fuel ih =>
    have hlookup : lookup env.ferroIo w (fuel + 1) env.ferroIo name = some (.ok (some f)) :=
      Delegation.resolve_own hf fuel
    simp only [callMethod, hlookup, Option.bind_some, hcode, List.isEmpty_nil, if_true, hint,
      Option.join_some]
    exact ih

end

/-! ## What `install` and `uninstall` leave alike -/

/-- The value, or stdlib asyncio for `ferro_io`. -/
def seen (env : Env Obj) (std : Obj) (v : Value Obj) : Value Obj :=
  if v = some env.ferroIo then some std else v

theorem seen_eq_std (env : Env Obj) (std : Obj) (v : Value Obj) :
    seen env std v = some std ↔ OneOfTwo env std v := by
  unfold seen OneOfTwo
  split
  · next h => exact ⟨fun _ => .inr h, fun _ => rfl⟩
  · next h => exact ⟨.inl, fun hv => hv.resolve_right h⟩

theorem seen_eq_none (env : Env Obj) (std : Obj) (v : Value Obj) :
    seen env std v = none ↔ v = none := by
  unfold seen
  split
  · next h => simp [h]
  · exact Iff.rfl

/-- Worlds that differ at most in which of the two modules an `asyncio` attribute is. -/
structure Alike (env : Env Obj) (std : Obj) (w w' : World Obj) : Prop where
  asyncio : ∀ m, (w.attr m "asyncio").map (seen env std) = (w'.attr m "asyncio").map (seen env std)
  other : ∀ m n, n ≠ "asyncio" → w.attr m n = w'.attr m n

section
variable {env : Env Obj} {std : Obj} {w w' : World Obj}

theorem Alike.refl (w : World Obj) : Alike env std w w := ⟨fun _ => rfl, fun _ _ _ => rfl⟩

theorem Alike.trans {w'' : World Obj} (h : Alike env std w w') (h' : Alike env std w' w'') :
    Alike env std w w'' where
  asyncio m := (h.asyncio m).trans (h'.asyncio m)
  other m n hn := (h.other m n hn).trans (h'.other m n hn)

theorem rebindModule_alike {other target : Obj} (hother : OneOfTwo env std (some other))
    (htarget : OneOfTwo env std (some target)) (mod : Obj) (w : World Obj) :
    Alike env std (rebindModule env other target mod w).2 w := by
  rcases rebindModule_cases env other target mod w with ⟨-, heq⟩ | ⟨-, heq⟩ | ⟨hready, heq⟩
  · rw [heq]
    exact Alike.refl w
  · rw [heq]
    exact Alike.refl w
  · have hattr : w.attr mod "asyncio" = some (some other) := by
      have hget := hready.2.2
      unfold World.getattr at hget
      cases hb : w.attr mod "asyncio" with
      | none => simp [hb] at hget
      | some v => simpa [hb] using hget
    rw [heq]
    refine ⟨?_, ?_⟩
    · intro m
      by_cases hm : m = mod
      · simp [World.setattr, hm, hattr, (seen_eq_std env std _).mpr hother,
          (seen_eq_std env std _).mpr htarget]
      · simp [World.setattr, hm]
    · intro m n hn
      simp [World.setattr, hn]

theorem rebindTo_alike {target : Value Obj} (htarget : OneOfTwo env std target)
    (horig : OneOfTwo env std w.original) : Alike env std (rebindTo env target w).2 w := by
  cases target with
  | none => exact Alike.refl w
  | some target =>
    simp only [rebindTo]
    split
    · exact Alike.refl w
    · next other hother =>
      have hother' : OneOfTwo env std (some other) := by
        by_cases ht : target = env.ferroIo
        · rw [if_pos ht] at hother
          exact hother ▸ horig
        · rw [if_neg ht] at hother
          exact .inr hother.symm
      refine rebindLoop_preserves (P := fun w' => Alike env std w' w) ?_ _ (Alike.refl w)
      intro mod w' _ h
      exact (rebindModule_alike hother' htarget mod w').trans h

/-- The attributes are all that `Alike` looks at. -/
theorem alike_of_attr (h : w.attr = w'.attr) : Alike env std w w' := by
  refine ⟨?_, ?_⟩
  · intro m
    rw [h]
  · intro m n _
    rw [h]

theorem install_alike {start : World Obj} (h : Linked env std start w) (rebindExisting : Bool) :
    Alike env std (install env rebindExisting w).2 w := by
  cases hinst : w.installed with
  | true =>
    rw [install_of_installed env rebindExisting hinst]
    exact Alike.refl w
  | false =>
    obtain ⟨v, hv, htwo⟩ := h.entry
    obtain ⟨flag, heq⟩ := install_leaves env rebindExisting hinst
    have hentered : Alike env std (w.entered env) w := alike_of_attr rfl
    have horig : OneOfTwo env std (w.entered env).original := by
      simpa [World.entered, World.module, hv] using htwo
    have hrebound : Alike env std (rebindEntered env rebindExisting w).2 (w.entered env) := by
      cases rebindExisting with
      | false => exact Alike.refl _
      | true => exact rebindTo_alike (.inr rfl) horig
    have hflag : Alike env std (install env rebindExisting w).2
        (rebindEntered env rebindExisting w).2 := alike_of_attr (by rw [heq])
    exact hflag.trans (hrebound.trans hentered)

theorem uninstall_alike {start : World Obj} (h : Linked env std start w) :
    Alike env std (uninstall env w).2 w := by
  cases hinst : w.installed with
  | false =>
    rw [uninstall_of_not_installed env hinst]
    exact Alike.refl w
  | true =>
    have horig := h.original hinst
    obtain ⟨flag, heq⟩ := uninstall_leaves env hinst
    have hrestored : Alike env std w.restored w := alike_of_attr rfl
    have hrebound : Alike env std (rebindTo env w.original w.restored).2 w.restored :=
      rebindTo_alike horig horig
    have hflag : Alike env std (uninstall env w).2 (rebindTo env w.original w.restored).2 :=
      alike_of_attr (by rw [heq])
    exact hflag.trans (hrebound.trans hrestored)

/-- A module that is loaded into both worlds is bound to one of the two modules in each. -/
theorem load_alike {start start' : World Obj} (hlinked : Linked env std start w)
    (hlinked' : Linked env std start' w') (h : Alike env std w w') {name : String}
    (hname : name ≠ "asyncio") (mod : Obj) :
    Alike env std (load name mod w) (load name mod w') := by
  have hentry : ∀ w₁ : World Obj, ({ w₁ with modules := w₁.modules.set name (some mod) } :
      World Obj).module "asyncio" = w₁.module "asyncio" := by
    intro w₁
    simp [World.module, OrderedDict.get_set, hname]
  obtain ⟨held, hheld, htwo⟩ := hlinked.module
  obtain ⟨held', hheld', htwo'⟩ := hlinked'.module
  simp only [load, hentry, hheld, hheld']
  refine ⟨?_, ?_⟩
  · intro m
    by_cases hm : m = mod
    · simp [World.setattr, hm, (seen_eq_std env std _).mpr htwo, (seen_eq_std env std _).mpr htwo']
    · simpa [World.setattr, hm] using h.asyncio m
  · intro m n hn
    simpa [World.setattr, hn] using h.other m n hn

end

/-! ## Programs with and without their calls -/

/-- The two runs: the same variables but for which of the two modules they hold. -/
structure Client.Alike (env : Env Obj) (std : Obj) (start : World Obj) (c c' : Client Obj S) :
    Prop where
  kept : NamesKept env std start c.world
  kept' : NamesKept env std start c'.world
  world : FerroIo.Alike env std c.world c'.world
  vars : c.vars.map (seen env std) = c'.vars.map (seen env std)
  state : c.state = c'.state

section
variable {env : Env Obj} {std : Obj} {own : String → Value Obj}
  {given : Names String (Value Obj)} {start : World Obj} {c c' : Client Obj S}
  {code : Obj → Option (Code A R S E)}

theorem seen_join (v : Option (Value Obj)) :
    seen env std v.join = (v.map (seen env std)).join := by
  cases v with
  | none => simp [seen]
  | some v => rfl

theorem Client.Alike.var (h : c.Alike env std start c') (var : Nat) :
    seen env std c.vars[var]?.join = seen env std c'.vars[var]?.join := by
  rw [seen_join, seen_join, ← List.getElem?_map, ← List.getElem?_map, h.vars]

theorem Client.Alike.importAsyncio (h : c.Alike env std start c') :
    c.importAsyncio.Alike env std start c'.importAsyncio := by
  obtain ⟨held, hheld, htwo⟩ := h.kept.linked.module
  obtain ⟨held', hheld', htwo'⟩ := h.kept'.linked.module
  refine { h with vars := ?_ }
  simp [Client.importAsyncio, h.vars, hheld, hheld', (seen_eq_std env std _).mpr htwo,
    (seen_eq_std env std _).mpr htwo']

theorem Client.Alike.readAsyncio (h : c.Alike env std start c') (mod : Obj) :
    (c.readAsyncio env mod).Alike env std start (c'.readAsyncio env mod) := by
  refine { h with vars := ?_ }
  simp only [Client.readAsyncio, List.map_append, h.vars, List.map_cons, List.map_nil]
  split
  · have hattr := h.world.asyncio mod
    unfold World.getattr
    cases hw : c.world.attr mod "asyncio" with
    | none =>
      cases hw' : c'.world.attr mod "asyncio" with
      | none => rfl
      | some v => simp [hw, hw'] at hattr
    | some v =>
      cases hw' : c'.world.attr mod "asyncio" with
      | none => simp [hw, hw'] at hattr
      | some v' => simpa [hw, hw'] using hattr
  · rfl

/-- A call of the program gives the same in both runs. -/
theorem Client.Alike.call (himported : Imported env std own given start)
    (hcode : CodeOf own std start code) (h : c.Alike env std start c')
    {var : Nat} {name : String} {args : List A}
    (hcall : ∀ m, c.vars[var]?.join = some m →
      OneOfTwo env std (some m) ∧ Transparent given name args) (fuel : Nat) :
    (c.call env code (fuel + 2) var name args).1 = (c'.call env code (fuel + 2) var name args).1 ∧
      (c.call env code (fuel + 2) var name args).2.Alike env std start
        (c'.call env code (fuel + 2) var name args).2 := by
  have hvar := h.var var
  unfold Client.call
  cases hm : c.vars[var]?.join with
  | none =>
    have hm' : c'.vars[var]?.join = none := by
      rw [← seen_eq_none env std, ← hvar, hm]
      exact (seen_eq_none env std none).mpr rfl
    rw [hm']
    exact ⟨rfl, h⟩
  | some m =>
    obtain ⟨htwo, hname⟩ := hcall m hm
    have hpass := himported.passesThrough hcode h.kept hname
    have hstd : seen env std c'.vars[var]?.join = some std := by
      rw [← hvar, hm]
      exact (seen_eq_std env std _).mpr htwo
    have htwo' := (seen_eq_std env std _).mp hstd
    cases hm' : c'.vars[var]?.join with
    | none => exact absurd (hm' ▸ htwo') (by simp [OneOfTwo])
    | some m' =>
      have hagree : callMethod env.ferroIo code c.world (fuel + 2) m name args c.state =
          callMethod env.ferroIo code c'.world (fuel + 2) m' name args c'.state := by
        rw [← h.state]
        exact callMethod_agrees himported.ne (himported.intact h.kept) h.world.other hpass htwo
          (hm' ▸ htwo') fuel c.state
      have hresult := congrArg Prod.fst hagree
      have hstate := congrArg Prod.snd hagree
      exact ⟨hresult, { h with state := hstate }⟩

/-- A call of `install` or `uninstall` in one of the runs. -/
theorem Client.Alike.install (h : c.Alike env std start c') (rebindExisting : Bool) :
    (c.event env (.install rebindExisting)).Alike env std start c' :=
  { h with
    kept := namesKept_step h.kept (.install rebindExisting) trivial
    world := (install_alike h.kept.linked rebindExisting).trans h.world }

theorem Client.Alike.uninstall (h : c.Alike env std start c') :
    (c.event env .uninstall).Alike env std start c' :=
  { h with
    kept := namesKept_step h.kept .uninstall trivial
    world := (uninstall_alike h.kept.linked).trans h.world }

theorem Client.Alike.load (h : c.Alike env std start c') {name : String} {mod : Obj}
    (himport : Imports env c.world (.load name mod)) :
    (c.event env (.load name mod)).Alike env std start (c'.event env (.load name mod)) :=
  { h with
    kept := namesKept_step h.kept (.load name mod) himport
    kept' := namesKept_step h.kept' (.load name mod) himport
    world := load_alike h.kept.linked h.kept'.linked h.world himport.1 mod }

theorem Client.Alike.unload (h : c.Alike env std start c') {name : String}
    (himport : Imports env c.world (.unload name)) :
    (c.event env (.unload name)).Alike env std start (c'.event env (.unload name)) :=
  { h with
    kept := namesKept_step h.kept (.unload name) himport
    kept' := namesKept_step h.kept' (.unload name) himport
    world := ⟨h.world.asyncio, h.world.other⟩ }

/-- By induction on the program: the two runs stay alike, step by step. -/
theorem exec_alike (himported : Imported env std own given start)
    (hcode : CodeOf own std start code) (fuel : Nat) (p : Script Obj A R E)
    {c c' : Client Obj S} (h : c.Alike env std start c')
    (hp : p.Conforms env std given code (fuel + 2) c) :
    (p.exec env code (fuel + 2) c).1 = (p.erase.exec env code (fuel + 2) c').1 ∧
      (p.exec env code (fuel + 2) c).2.Alike env std start
        (p.erase.exec env code (fuel + 2) c').2 := by
  induction p generalizing c c' with
  | done result => exact ⟨rfl, h⟩
  | importAsyncio k ih => exact ih h.importAsyncio hp
  | readAsyncio mod k ih => exact ih (h.readAsyncio mod) hp
  | call var name args k ih =>
    obtain ⟨hcall, hrest⟩ := hp
    obtain ⟨hresult, halike⟩ := h.call himported hcode hcall fuel
    have hk := ih (c.call env code (fuel + 2) var name args).1 halike hrest
    simp only [Script.erase, Script.exec]
    rw [← hresult]
    exact hk
  | event e k ih =>
    obtain ⟨himport, hrest⟩ := hp
    cases e with
    | install rebindExisting => exact ih (h.install rebindExisting) hrest
    | uninstall => exact ih h.uninstall hrest
    | load name mod => exact ih (h.load himport) hrest
    | unload name => exact ih (h.unload himport) hrest

/-- Taking the `install` and `uninstall` calls out of a program changes neither its
    result nor what its calls do, and at most which of the two modules its variables and
    the modules' `asyncio` attributes are. -/
theorem drop_in (env : Env Obj) (std : Obj) (own : String → Value Obj)
    (given : Names String (Value Obj)) (code : Obj → Option (Code A R S E)) (start : World Obj)
    (h : Imported env std own given start) (hcode : CodeOf own std start code)
    (p : Script Obj A R E) (s : S) (fuel : Nat)
    (hp : p.Conforms env std given code (fuel + 2) ⟨start, [], s⟩) :
    let installing := p.exec env code (fuel + 2) ⟨start, [], s⟩
    let plain := p.erase.exec env code (fuel + 2) ⟨start, [], s⟩
    installing.1 = plain.1 ∧ installing.2.state = plain.2.state ∧
      installing.2.vars.map (seen env std) = plain.2.vars.map (seen env std) ∧
      Alike env std installing.2.world plain.2.world := by
  intro installing plain
  have hstart : Client.Alike env std start ⟨start, [], s⟩ ⟨start, [], s⟩ :=
    ⟨h.namesKept, h.namesKept, Alike.refl start, rfl, rfl⟩
  obtain ⟨hresult, halike⟩ := exec_alike h hcode fuel p hstart hp
  exact ⟨hresult, halike.state, halike.vars, halike.world⟩

end

/-- The state is the number of loops made and the current one. -/
def thingCode : Thing → Option (Code (Option Nat) Nat (Nat × Option Nat) Unit)
  | .ofStd name =>
    if name = "new_event_loop" then some (.body fun _ t => (.ok t.1, t.1 + 1, t.2))
    else if name = "set_event_loop" then
      some (.body fun args t => (.ok 0, t.1, args.head?.join))
    else none
  | .ofFerroIo name => if name = "new_event_loop" then some (.passOn name) else none
  | _ => none

theorem thingCode_codeOf : CodeOf ownThings .std (importedThings []) thingCode where
  newEventLoop := ⟨.ofFerroIo "new_event_loop", rfl, rfl⟩
  std name f name' hf := by
    obtain rfl : Thing.ofStd name = f := Option.some.inj (Option.some.inj hf)
    simp only [thingCode]
    split
    · simp
    · split <;> simp

/-- One loop through `import asyncio`, one through a module loaded while installed, asked
    for after `uninstall`. -/
def loopScript : Script Thing (Option Nat) Nat Unit :=
  .event (.install true) <|
    .importAsyncio <|
    .event (.load "late" .late) <|
    .readAsyncio .late <|
    .call 0 "new_event_loop" [] fun _ =>
    .event .uninstall <|
    .call 1 "new_event_loop" [] .done

theorem drop_in_loops :
    let start : Client Thing (Nat × Option Nat) := ⟨importedThings [], [], (5, none)⟩
    (loopScript.exec thingEnv thingCode 2 start).1 = .ok 6 ∧
      (loopScript.erase.exec thingEnv thingCode 2 start).1 = .ok 6 := by
  intro start
  have hname : Transparent (A := Option Nat) (fun _ => (none : Option (Value Thing)))
      "new_event_loop" [] := ⟨by decide, rfl, .inr ⟨rfl, rfl⟩⟩
  have h := drop_in thingEnv .std ownThings (fun _ => none) thingCode (importedThings [])
    (importedThings_imported (by decide)) thingCode_codeOf loopScript (5, none) 0
    ⟨trivial, ⟨by decide, by decide⟩, ⟨fun m hm => ⟨.inr hm.symm, hname⟩, trivial,
      ⟨fun m hm => ⟨.inr hm.symm, hname⟩, trivial⟩⟩⟩
  have hplain : (loopScript.erase.exec thingEnv thingCode 2 start).1 = .ok 6 := rfl
  exact ⟨h.1.trans hplain, hplain⟩

end

/-! ## `run_coroutine` on what `import asyncio` gives -/

section
variable {Obj : Type} [DecidableEq Obj] {T C F V W : Type}

/-- The steps of `run_coroutine` that are calls on the module it has imported. Loops are
    objects `R` that asyncio returns, and an argument is a loop or None. -/
def importedApi (env : Env Obj) (code : Obj → Option (Code (Option R) R S E)) (fuel : Nat)
    (asyncio : Obj) (rest : LoopApi (StateM (World Obj × S)) R T C F (CallError Obj E) V) :
    LoopApi (StateM (World Obj × S)) R T C F (CallError Obj E) V :=
  let call (name : String) (args : List (Option R)) :
      ExceptT (CallError Obj E) (StateM (World Obj × S)) R := fun p =>
    match callMethod env.ferroIo code p.1 fuel asyncio name args p.2 with
    | (result, s) => (result, p.1, s)
  { rest with
    importAsyncio := pure ()
    newEventLoop := call "new_event_loop" []
    setEventLoop := fun eventLoop => do
      let _ ← call "set_event_loop" [eventLoop] }

/-- `run_coroutine` on the module that `import asyncio` gives when it starts. Without an
    entry Python would load asyncio anew: that is left out. -/
def runImported (env : Env Obj) (code : Obj → Option (Code (Option R) R S E)) (fuel : Nat)
    (rest : LoopApi (StateM (World Obj × S)) R T C F (CallError Obj E) V) (coro : C) :
    ExceptT (CallError Obj E) (StateM (World Obj × S)) V := fun p =>
  match p.1.module "asyncio" with
  | some asyncio => runCoroutine (importedApi env code fuel asyncio rest) coro p
  | none => (.error .nameError, p)

omit [DecidableEq Obj] in
/-- Two computations that do the same where `I` holds, and keep it. -/
def AgreeOn (I : W → Prop) {B : Type} (x y : ExceptT E (StateM W) B) : Prop :=
  ∀ w, I w → x w = y w ∧ I (x w).2

section
variable {I : W → Prop} {B B' : Type} {x y : ExceptT E (StateM W) B}

theorem AgreeOn.bind (h : AgreeOn I x y) {f g : B → ExceptT E (StateM W) B'}
    (hf : ∀ b, AgreeOn I (f b) (g b)) : AgreeOn I (x >>= f) (y >>= g) := by
  intro w hw
  obtain ⟨heq, hkeeps⟩ := h w hw
  rw [bind_run, bind_run, ← heq]
  cases hx : x w with
  | mk result w' =>
    rw [hx] at hkeeps
    cases result with
    | ok b => exact hf b w' hkeeps
    | error e => exact ⟨rfl, hkeeps⟩

theorem AgreeOn.lift (h : AgreeOn I x y) :
    AgreeOn I (ExceptT.lift x.run : ExceptT E (StateM W) (Except E B)) (ExceptT.lift y.run) := by
  intro w hw
  obtain ⟨heq, hkeeps⟩ := h w hw
  have hrun : x.run w = y.run w := heq
  rw [lift_run, lift_run, hrun]
  exact ⟨rfl, hrun ▸ hkeeps⟩

theorem AgreeOn.refl_of (h : ∀ w, I w → I (x w).2) : AgreeOn I x x :=
  fun w hw => ⟨rfl, h w hw⟩

theorem runCoroutine_agrees {L : Type} {api api' : LoopApi (StateM W) L T C F E V}
    (himport : AgreeOn I api.importAsyncio api'.importAsyncio)
    (hnew : AgreeOn I api.newEventLoop api'.newEventLoop)
    (hset : ∀ l, AgreeOn I (api.setEventLoop l) (api'.setEventLoop l))
    (hcopy : ∀ l, AgreeOn I (api.copyContext l) (api'.copyContext l))
    (hinto : ∀ t c, AgreeOn I (api.intoFuture t c) (api'.intoFuture t c))
    (hdrive : ∀ l f, AgreeOn I (api.runUntilComplete l f) (api'.runUntilComplete l f))
    (hclose : ∀ l, AgreeOn I (api.close l) (api'.close l)) (coro : C) :
    AgreeOn I (runCoroutine api coro) (runCoroutine api' coro) := by
  refine himport.bind fun _ => hnew.bind fun l => (hset (some l)).bind fun _ =>
    (hcopy l).bind fun t => (hinto t coro).bind fun f => (hdrive l f).lift.bind fun result =>
    (hclose l).lift.bind fun _ => (hset none).lift.bind fun _ => ?_
  exact AgreeOn.refl_of fun w hw => hw

end

/-- The modules are changed as some steps of a program change them, its own calls of
    `install` and `uninstall` included. -/
def ByEvents (env : Env Obj) {B : Type}
    (x : ExceptT (CallError Obj E) (StateM (World Obj × S)) B) : Prop :=
  ∀ p, ∃ es, EventRun.Meets (World.step env) (Imports env) p.1 es ∧
    (x p).2.1 = EventRun.run (World.step env) p.1 es

/-- The coroutine, and the steps around it, load modules and install as programs do. -/
structure RestByEvents (env : Env Obj)
    (rest : LoopApi (StateM (World Obj × S)) R T C F (CallError Obj E) V) : Prop where
  copyContext : ∀ l, ByEvents env (rest.copyContext l)
  intoFuture : ∀ t c, ByEvents env (rest.intoFuture t c)
  runUntilComplete : ∀ l f, ByEvents env (rest.runUntilComplete l f)
  close : ∀ l, ByEvents env (rest.close l)

section
variable {env : Env Obj} {std : Obj} {start : World Obj}

theorem AgreeOn.of_events {B : Type} {x : ExceptT (CallError Obj E) (StateM (World Obj × S)) B}
    (hx : ByEvents env x) : AgreeOn (fun p => NamesKept env std start p.1) x x := by
  apply AgreeOn.refl_of
  intro p hp
  obtain ⟨es, hes, heq⟩ := hx p
  rw [heq]
  exact namesKept_run hp hes

end

/-- `run_coroutine` drives its coroutine as on stdlib asyncio, whatever has been installed
    before, and whatever the coroutine installs and uninstalls. -/
theorem run_coroutine_installed (env : Env Obj) (std : Obj) (own : String → Value Obj)
    (given : Names String (Value Obj)) (code : Obj → Option (Code (Option R) R S E))
    (start : World Obj) (h : Imported env std own given start)
    (hcode : CodeOf own std start code)
    (hgiven : given "new_event_loop" = none ∧ given "set_event_loop" = none)
    (rest : LoopApi (StateM (World Obj × S)) R T C F (CallError Obj E) V)
    (hrest : RestByEvents env rest) (es : List (InstallEvent Obj))
    (hes : EventRun.Meets (World.step env) (Imports env) start es) (coro : C) (s : S)
    (fuel : Nat) :
    let w := EventRun.run (World.step env) start es
    runImported env code (fuel + 2) rest coro (w, s) =
      runCoroutine (importedApi env code (fuel + 2) std rest) coro (w, s) := by
  intro w
  have hw : NamesKept env std start w := namesKept_run h.namesKept hes
  obtain ⟨held, hheld, htwo⟩ := hw.linked.module
  have hcall : ∀ {name : String} {args : List (Option R)} {p : World Obj × S},
      Transparent given name args → NamesKept env std start p.1 →
      callMethod env.ferroIo code p.1 (fuel + 2) held name args p.2 =
        callMethod env.ferroIo code p.1 (fuel + 2) std name args p.2 := by
    intro name args p hname hp
    exact callMethod_agrees h.ne (h.intact hp) (fun _ _ _ => rfl)
      (h.passesThrough hcode hp hname) htwo (.inl rfl) fuel p.2
  have hnew : Transparent (A := Option R) given "new_event_loop" [] :=
    ⟨by decide, hgiven.1, .inr ⟨rfl, rfl⟩⟩
  have hset : ∀ l : Option R, Transparent given "set_event_loop" [l] := fun _ =>
    ⟨by decide, hgiven.2, .inl (by decide)⟩
  have hagree : AgreeOn (fun p => NamesKept env std start p.1)
      (runCoroutine (importedApi env code (fuel + 2) held rest) coro)
      (runCoroutine (importedApi env code (fuel + 2) std rest) coro) := by
    apply runCoroutine_agrees
    · exact AgreeOn.refl_of fun _ hp => hp
    · intro p hp
      refine ⟨?_, hp⟩
      simp only [importedApi, hcall hnew hp]
    · intro l
      refine AgreeOn.bind ?_ fun _ => AgreeOn.refl_of fun _ hp => hp
      intro p hp
      refine ⟨?_, hp⟩
      simp only [hcall (hset l) hp]
    · exact fun l => AgreeOn.of_events (hrest.copyContext l)
    · exact fun t c => AgreeOn.of_events (hrest.intoFuture t c)
    · exact fun l f => AgreeOn.of_events (hrest.runUntilComplete l f)
    · exact fun l => AgreeOn.of_events (hrest.close l)
  have hmod : (w, s).1.module "asyncio" = some held := hheld
  simp only [runImported, hmod]
  exact (hagree (w, s) hw).1

end

/-- A coroutine that calls `uninstall` and returns the current loop. -/
def uninstallingRest : LoopApi (StateM (World Thing × (Nat × Option Nat))) Nat Unit Unit Unit
    (CallError Thing Unit) (Option Nat) where
  importAsyncio := pure ()
  newEventLoop := pure 0
  setEventLoop _ := pure ()
  copyContext _ := pure ()
  intoFuture _ _ := pure ()
  runUntilComplete _ _ := fun p => (.ok p.2.2, (uninstall thingEnv p.1).2, p.2)
  close _ := pure ()

/-- Driven while installed, it finds the new loop set, and the last step clears it. -/
theorem run_coroutine_installed_uninstalling :
    let w := EventRun.run (World.step thingEnv) (importedThings []) [.install true]
    let after := runImported thingEnv thingCode 2 uninstallingRest () (w, 5, none)
    after.1 = .ok (some 5) ∧ after.2.2 = (6, none) := by
  intro w after
  have hrest : RestByEvents thingEnv uninstallingRest :=
    ⟨fun _ _ => ⟨[], trivial, rfl⟩, fun _ _ _ => ⟨[], trivial, rfl⟩,
      fun _ _ _ => ⟨[.uninstall], ⟨trivial, trivial⟩, rfl⟩, fun _ _ => ⟨[], trivial, rfl⟩⟩
  have h := run_coroutine_installed thingEnv .std ownThings (fun _ => none) thingCode
    (importedThings []) (importedThings_imported (by decide)) thingCode_codeOf ⟨rfl, rfl⟩
    uninstallingRest hrest [.install true] ⟨trivial, trivial⟩ () (5, none) 0
  have hafter : after = _ := h
  rw [hafter]
  exact ⟨rfl, rfl⟩

end FerroIo
