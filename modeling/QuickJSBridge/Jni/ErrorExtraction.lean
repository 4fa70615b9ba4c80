import QuickJSBridge.Engine.Strings

/-!
# Extraction of an Error

`_getException` collects the texts of `exc.stack`, `exc.stack.stack` and so on, until a value is undefined.
It frees each value before it reads the next one from it. What the values are is up to the script: a `stack`
may be a property with any value, an accessor or a trap of a Proxy, on the value or on a prototype.

* `Heap`, `Script` — the objects as far as `stack` is looked up in them, and the script's code;
* `getPropertyInternal` — `JS_GetPropertyInternal` for `stack`;
* `stackLoop`, `getException` — the loop and its function;
* `Settles` — the chain comes to undefined, by kinds of value: there is no rule for null and for the
  exception marker;
* `extracts_iff_settles` — the function returns, and has read live values only, iff the chain settles.
-/

namespace QuickJSBridge.ErrorExtraction

/-! ## Values and objects -/

abbrev Addr := Nat

/-- A function of the script: a getter or a trap. -/
abbrev Code := Nat

/-- The primitive values whose prototype `JS_GetPrototypePrimitive` knows. -/
inductive Primitive where
  | number
  | boolean
  | string
  | symbol
  | bigInt
  | bigFloat
  | bigDecimal
  deriving DecidableEq

/-- The value has a reference count. -/
def Primitive.counted : Primitive → Bool
  | .number | .boolean => false
  | _ => true

inductive Value where
  | undefined
  | null
  -- `JS_EXCEPTION`
  | exception
  -- with what `JS_ToCString` makes of it, where `none` is NULL, and whether the script still refers to it
  | primitive (kind : Primitive) (text : Option Text) (held : Bool)
  | object (p : Addr)
  deriving DecidableEq

/-- A property named `stack`. -/
inductive Property where
  | data (v : Value)
  | getset (getter : Option Code)
  -- a variable; `none` while it is not initialized
  | varRef (v : Option Value)
  -- a property that is made when it is read; `none` if that fails
  | autoInit (v : Option Value)
  deriving DecidableEq

/-- An object as a step of the lookup sees it. -/
structure Object where
  own : Option Property
  -- `get_property` of an exotic class
  exotic : Option Code
  deriving DecidableEq

structure Heap where
  -- an object and its prototypes, from the object on
  chain : Addr → List Object
  -- the prototypes of a primitive value
  primitiveChain : Primitive → List Object
  -- the references to an object, those of the native function not counted
  refs : Addr → Nat

/-- The code of the script, and what it does to the heap. -/
structure Script where
  -- a getter or a trap on a receiver; `none` if it throws
  call : Code → Heap → Value → Option Value × Heap
  -- whether the getter or the trap looks at the receiver
  usesReceiver : Code → Heap → Value → Bool
  -- `JS_ToCString` of an object, which calls its `toString`; `none` is NULL
  objectText : Heap → Addr → Option Text × Heap
  -- the reads of `toString` and `name` of the Error object, and the call of `toString`
  readToString : Heap → Addr → Heap
  readName : Heap → Addr → Option Text × Heap
  callToString : Heap → Addr → Option Text × Heap

variable (S : Script)

/-! ## The lookup -/

/-- The loop of `JS_GetPropertyInternal`: the object and its prototypes, one after the other. -/
def lookup (h : Heap) (this_obj : Value) : List Object → Value × Heap
  | [] => (.undefined, h)
  | p :: rest =>
    match p.own with
    | some (.data v) => (v, h)
    | some (.getset none) => (.undefined, h)
    | some (.getset (some getter)) =>
      ((S.call getter h this_obj).1.getD .exception, (S.call getter h this_obj).2)
    | some (.varRef v) | some (.autoInit v) => (v.getD .exception, h)
    | none =>
      match p.exotic with
      | some trap => ((S.call trap h this_obj).1.getD .exception, (S.call trap h this_obj).2)
      | none => lookup h this_obj rest

/-- The getter or trap that `lookup` calls. -/
def called? : List Object → Option Code
  | [] => none
  | p :: rest =>
    match p.own with
    | some (.getset getter) => getter
    | some (.data _) | some (.varRef _) | some (.autoInit _) => none
    | none => if p.exotic.isSome then p.exotic else called? rest

/-- `JS_GetPropertyInternal(ctx, obj, stack, obj)` -/
def getPropertyInternal (h : Heap) : Value → Value × Heap
  -- `JS_ThrowTypeErrorAtom`
  | .undefined | .null => (.exception, h)
  | .exception => (.exception, h)
  | .primitive kind text held => lookup S h (.primitive kind text held) (h.primitiveChain kind)
  | .object p => lookup S h (.object p) (h.chain p)

/-! ## The loop -/

/-- `"null"` -/
def nullText : Text := [0x6e, 0x75, 0x6c, 0x6c]

/-- `"undefined"` -/
def undefinedText : Text := [0x75, 0x6e, 0x64, 0x65, 0x66, 0x69, 0x6e, 0x65, 0x64]

/-- `JS_ToCString`; only an object runs code. -/
def toCString (h : Heap) : Value → Option Text × Heap
  | .object p => S.objectText h p
  | .primitive _ text _ => (text, h)
  | .exception => (none, h)
  | .null => (some nullText, h)
  | .undefined => (some undefinedText, h)

/-- `JS_FreeValue` dropped the last reference to the value, and the read of its `stack` looks at it: in an object
to find the property, in another value if a getter or a trap on its prototypes does. -/
def Freed (h : Heap) : Value → Prop
  | .object p => h.refs p = 0
  | .primitive kind text held => kind.counted = true ∧ held = false ∧
      (called? (h.primitiveChain kind)).any (S.usesReceiver · h (.primitive kind text held)) = true
  | _ => False

instance (h : Heap) : (v : Value) → Decidable (Freed S h v)
  | .object p => inferInstanceAs (Decidable (h.refs p = 0))
  | .primitive _ _ _ => inferInstanceAs (Decidable (_ = _ ∧ _ = _ ∧ _ = _))
  | .undefined | .null | .exception => inferInstanceAs (Decidable False)

inductive Outcome where
  | messages (l : List (Option Text))
  -- a freed value was looked at
  | useAfterFree
  deriving DecidableEq

def Outcome.push (text : Option Text) : Outcome → Outcome
  | .messages l => .messages (text :: l)
  | .useAfterFree => .useAfterFree

/-- `while (!JS_IsUndefined(stackValue))`; `none` if `fuel` turns do not end it. -/
def stackLoop : Nat → Heap → Value → Option Outcome
  | 0, _, _ => none
  | fuel + 1, h, stackValue =>
    if stackValue = .undefined then some (.messages [])
    else if Freed S (toCString S h stackValue).2 stackValue then some .useAfterFree
    else
      (stackLoop fuel (getPropertyInternal S (toCString S h stackValue).2 stackValue).2
        (getPropertyInternal S (toCString S h stackValue).2 stackValue).1).map
          (Outcome.push (toCString S h stackValue).1)

/-- The value of `stackValue` before the loop. -/
def firstStack (h : Heap) (exc : Addr) : Value × Heap :=
  getPropertyInternal S (S.readName (S.readToString h exc) exc).2 (.object exc)

/-- The heap before the loop. -/
def loopHeap (h : Heap) (exc : Addr) : Heap := (S.callToString (firstStack S h exc).2 exc).2

/-- `_getException` on an Error object. -/
def getException (fuel : Nat) (h : Heap) (exc : Addr) : Option Outcome :=
  (stackLoop S fuel (loopHeap S h exc) (firstStack S h exc).1).map fun outcome =>
    (outcome.push (S.callToString (firstStack S h exc).2 exc).1).push
      (S.readName (S.readToString h exc) exc).1

/-! ## Settling -/

/-- The chain of `stack` values comes to undefined, and what is looked at on it outlives the reference that the
loop drops. A chain that comes to null or to the exception marker does not settle. -/
inductive Settles : Heap → Value → Prop where
  | undefined (h : Heap) : Settles h .undefined
  | primitive {h : Heap} {kind : Primitive} {text : Option Text} {held : Bool}
      (halive : ¬ Freed S h (.primitive kind text held))
      (rest : Settles (lookup S h (.primitive kind text held) (h.primitiveChain kind)).2
        (lookup S h (.primitive kind text held) (h.primitiveChain kind)).1) :
      Settles h (.primitive kind text held)
  | object {h : Heap} {p : Addr}
      (halive : (S.objectText h p).2.refs p ≠ 0)
      (rest : Settles (lookup S (S.objectText h p).2 (.object p) ((S.objectText h p).2.chain p)).2
        (lookup S (S.objectText h p).2 (.object p) ((S.objectText h p).2.chain p)).1) :
      Settles h (.object p)

/-- The loop ends and has read live values only. -/
def LoopEnds (h : Heap) (v : Value) : Prop := ∃ fuel messages, stackLoop S fuel h v = some (.messages messages)

variable {S}

theorem stackLoop_exception (fuel : Nat) (h : Heap) : stackLoop S fuel h .exception = none := by
  induction fuel generalizing h with
  | zero => rfl
  | succ fuel ih =>
    have halive : ¬ Freed S (toCString S h .exception).2 .exception := id
    rw [stackLoop, if_neg Value.noConfusion, if_neg halive]
    show (stackLoop S fuel h .exception).map _ = none
    rw [ih]
    rfl

theorem stackLoop_null (fuel : Nat) (h : Heap) : stackLoop S fuel h .null = none := by
  cases fuel with
  | zero => rfl
  | succ fuel =>
    have halive : ¬ Freed S (toCString S h .null).2 .null := id
    rw [stackLoop, if_neg Value.noConfusion, if_neg halive]
    show (stackLoop S fuel h .exception).map _ = none
    rw [stackLoop_exception]
    rfl

/-- One turn, for a value that is still alive. -/
theorem stackLoop_turn {fuel : Nat} {h : Heap} {v : Value} {messages : List (Option Text)}
    (hv : v ≠ .undefined) (hend : stackLoop S (fuel + 1) h v = some (.messages messages)) :
    ¬ Freed S (toCString S h v).2 v ∧
      ∃ rest, stackLoop S fuel (getPropertyInternal S (toCString S h v).2 v).2
        (getPropertyInternal S (toCString S h v).2 v).1 = some (.messages rest) := by
  rw [stackLoop, if_neg hv] at hend
  split at hend
  · cases Option.some.inj hend
  · rename_i halive
    obtain ⟨outcome, hrest, hpush⟩ := Option.map_eq_some_iff.mp hend
    cases outcome with
    | messages rest => exact ⟨halive, rest, hrest⟩
    | useAfterFree => cases hpush

theorem loopEnds_of_turn {h : Heap} {v : Value} (hv : v ≠ .undefined)
    (halive : ¬ Freed S (toCString S h v).2 v)
    (hrest : LoopEnds S (getPropertyInternal S (toCString S h v).2 v).2
      (getPropertyInternal S (toCString S h v).2 v).1) : LoopEnds S h v := by
  obtain ⟨fuel, rest, hend⟩ := hrest
  refine ⟨fuel + 1, (toCString S h v).1 :: rest, ?_⟩
  rw [stackLoop, if_neg hv, if_neg halive, hend]
  rfl

theorem settles_of_stackLoop {fuel : Nat} {h : Heap} {v : Value} {messages : List (Option Text)}
    (hend : stackLoop S fuel h v = some (.messages messages)) : Settles S h v := by
  induction fuel generalizing h v messages with
  | zero => cases hend
  | succ fuel ih =>
    cases v with
    | undefined => exact .undefined h
    | null =>
      rw [stackLoop_null] at hend
      cases hend
    | exception =>
      rw [stackLoop_exception] at hend
      cases hend
    | primitive kind text held =>
      obtain ⟨halive, rest, hrest⟩ := stackLoop_turn Value.noConfusion hend
      exact .primitive halive (ih hrest)
    | object p =>
      obtain ⟨halive, rest, hrest⟩ := stackLoop_turn Value.noConfusion hend
      exact .object halive (ih hrest)

theorem loopEnds_of_settles {h : Heap} {v : Value} (hs : Settles S h v) : LoopEnds S h v := by
  induction hs with
  | undefined h => exact ⟨1, [], rfl⟩
  | primitive halive _ ih => exact loopEnds_of_turn Value.noConfusion halive ih
  | object halive _ ih => exact loopEnds_of_turn Value.noConfusion halive ih

/-! ## The extraction -/

/-- `_getException` returns, and every text it collected is of a value that was alive. -/
def Extracts (S : Script) (h : Heap) (exc : Addr) : Prop :=
  ∃ fuel messages, getException S fuel h exc = some (.messages messages)

/-- **Extraction.** `_getException` returns with the texts of live values iff the chain of `stack` values
settles. -/
theorem extracts_iff_settles (S : Script) (h : Heap) (exc : Addr) :
    Extracts S h exc ↔ Settles S (loopHeap S h exc) (firstStack S h exc).1 := by
  constructor
  · rintro ⟨fuel, messages, hend⟩
    obtain ⟨outcome, hloop, hpush⟩ := Option.map_eq_some_iff.mp hend
    cases outcome with
    | messages rest => exact settles_of_stackLoop hloop
    | useAfterFree => cases hpush
  · intro hs
    obtain ⟨fuel, rest, hloop⟩ := loopEnds_of_settles hs
    refine ⟨fuel, (S.readName (S.readToString h exc) exc).1 ::
      (S.callToString (firstStack S h exc).2 exc).1 :: rest, ?_⟩
    unfold getException
    rw [hloop]
    rfl

/-- A script without code of its own. -/
def plainScript : Script where
  call := fun _ h _ => (none, h)
  usesReceiver := fun _ _ _ => false
  objectText := fun h _ => (some [], h)
  readToString := fun h _ => h
  readName := fun h _ => (some [], h)
  callToString := fun h _ => (some [], h)

/-- An Error object whose own `stack` is `v`, and prototypes without one. -/
def errorHeap (v : Value) : Heap where
  chain := fun _ => [⟨some (.data v), none⟩]
  primitiveChain := fun _ => [⟨none, none⟩]
  refs := fun _ => 1

example : getException plainScript 2 (errorHeap (.primitive .string (some [0x78]) true)) 0 =
    some (.messages [some [], some [], some [0x78]]) := by decide

/-- `e.stack = null; throw e`: reading `stack` of null is an exception, and so on for ever. -/
theorem not_extracts_null : ¬ ∀ (S : Script) (h : Heap) (exc : Addr), Extracts S h exc := by
  intro hall
  obtain ⟨fuel, messages, hend⟩ := hall plainScript (errorHeap .null) 0
  obtain ⟨outcome, hloop, _⟩ := Option.map_eq_some_iff.mp hend
  have hnone := stackLoop_null (S := plainScript) fuel (loopHeap plainScript (errorHeap .null) 0)
  rw [show (firstStack plainScript (errorHeap .null) 0).1 = .null from rfl, hnone] at hloop
  cases hloop

/-! ## Chains that do not settle -/

/-- A turn of the loop without the check of the value. -/
def turn (S : Script) (h : Heap) (v : Value) : Value × Heap :=
  getPropertyInternal S (toCString S h v).2 v

/-- A chain that stays among values other than undefined does not settle; a cycle is such a chain. -/
theorem not_settles_of_closed {C : Heap → Value → Prop} (hdefined : ∀ h v, C h v → v ≠ .undefined)
    (hclosed : ∀ h v, C h v → C (turn S h v).2 (turn S h v).1) {h : Heap} {v : Value} (hC : C h v) :
    ¬ Settles S h v := by
  intro hs
  induction hs with
  | undefined h => exact hdefined h _ hC rfl
  | @primitive h kind text held _ _ ih => exact ih (hclosed h (.primitive kind text held) hC)
  | @object h p _ _ ih => exact ih (hclosed h (.object p) hC)

/-- `e.stack = e` -/
example : ¬ Settles plainScript (errorHeap (.object 0)) (.object 0) :=
  not_settles_of_closed (C := fun h v => h = errorHeap (.object 0) ∧ v = .object 0)
    (fun _ _ hC hv => by rw [hC.2] at hv; cases hv) (fun _ _ hC => by rw [hC.1, hC.2]; exact ⟨rfl, rfl⟩)
    ⟨rfl, rfl⟩

end QuickJSBridge.ErrorExtraction
