import Mathlib.Data.List.Infix
import Mathlib.Tactic.Common

/-!
# The pending exception and its Java image

A runtime has one pending-exception slot, `rt->current_exception` in `quickjs.c`. `JS_Throw`
overwrites it, `JS_GetException` takes its content and leaves `JS_NULL`. The bridge carries an
exception to Java in two halves: `_getException` (`quickjs-jni.cpp`) takes the slot and turns an
Error object into a `String[]`, `QuickJS.checkException` turns the array into a thrown
`QuickJSException`.

* `ErrorObj` — what `_getException` reads off an Error object;
* `getException`, `checkException` — the two halves;
* `checkException_getException` — together they throw exactly when the slot holds an Error object,
  and then the exception is `QuickJSException.ofError` of that Error;
* `ofError_carries` — that exception carries the Error's name and its text.
-/

namespace QuickJSBridge

/-! ## Thrown values -/

/-- An Error object as `_getException` reads it. A component is `none` where `JS_ToCString`
returns NULL, which `NewStringUTF` turns into a Java `null`. -/
structure ErrorObj where
  /-- The heap identity of the object. -/
  id : Nat
  /-- `exc.name` -/
  name : Option String
  /-- `exc.toString()` -/
  title : Option String
  /-- `exc.stack`, `exc.stack.stack`, … up to the first `undefined`. -/
  stack : List (Option String)
  deriving DecidableEq

/-- A thrown JS value. -/
inductive Thrown where
  /-- An object of class `JS_CLASS_ERROR`, for which `JS_IsError` holds. -/
  | error (e : ErrorObj)
  /-- Any other value. -/
  | other (id : Nat)
  deriving DecidableEq

/-- `JS_IsError` -/
def Thrown.isError : Thrown → Bool
  | .error _ => true
  | .other _ => false

/-- `Error.prototype.toString` (`js_error_toString`) on string-valued `name` and `message`. -/
def errorToString (name message : String) : String :=
  if name ≠ "" ∧ message ≠ "" then name ++ ": " ++ message else name ++ message

/-! ## The slot -/

/-- `rt->current_exception`; `none` is `JS_NULL`. -/
abbrev Slot := Option Thrown

/-- `JS_Throw`: the value that was pending is freed. -/
def jsThrow (_slot : Slot) (v : Thrown) : Slot := some v

/-- `JS_GetException`: the value, and the slot after it was taken. -/
def jsGetException (slot : Slot) : Slot × Slot := (slot, none)

/-! ## The two halves of the transfer -/

/-- `_getException`. Reading an Error object runs JS code (`name`, `stack` and `toString` may be user
code); `residue` is what that code leaves pending. The other paths run none. -/
def getException (slot : Slot) (residue : Slot) : Option (List (Option String)) × Slot :=
  match jsGetException slot with
  | (some (.error e), _) => (some (e.name :: e.title :: e.stack), residue)
  | (_, slot') => (none, slot')

/-- A Java string reference in a string concatenation. -/
def javaText : Option String → String
  | none => "null"
  | some s => s

/-- `QuickJSException`: `getName` and `getMessage`. -/
structure QuickJSException where
  name : Option String
  message : String
  deriving DecidableEq

/-- The constructor `QuickJSException(String name, String message)`. -/
def QuickJSException.new (name : Option String) (message : String) : QuickJSException where
  name := name
  message := javaText name ++ "," ++ message

/-- The message `checkException` builds: `result[1]`, a newline, and the rest. -/
def exceptionMessage (result : List (Option String)) : String :=
  javaText (result.getD 1 none) ++ "\n" ++ String.join ((result.drop 2).map javaText)

/-- `QuickJS.checkException` on the array that `_getException` returned. -/
def checkException (result : Option (List (Option String))) : Option QuickJSException :=
  match result with
  | none => none
  | some result => some (QuickJSException.new (result.getD 0 none) (exceptionMessage result))

/-! ## What the transfer delivers -/

/-- The exception that stands for Error object `e`. -/
def QuickJSException.ofError (e : ErrorObj) : QuickJSException :=
  QuickJSException.new e.name (exceptionMessage (e.name :: e.title :: e.stack))

/-- The exception carries the Error's name, and its message contains the Error's text. -/
structure QuickJSException.Carries (q : QuickJSException) (e : ErrorObj) : Prop where
  name_eq : q.name = e.name
  title_mem : (javaText e.title).toList <:+: q.message.toList

theorem ofError_carries (e : ErrorObj) : (QuickJSException.ofError e).Carries e where
  name_eq := rfl
  title_mem := by
    refine ⟨(javaText e.name ++ ",").toList,
      ("\n" ++ String.join (e.stack.map javaText)).toList, ?_⟩
    simp [QuickJSException.ofError, QuickJSException.new, exceptionMessage, List.getD]

/-- With the inherited `toString` the text of an Error contains its message. -/
theorem message_infix_errorToString (name message : String) :
    message.toList <:+: (errorToString name message).toList := by
  unfold errorToString
  split
  · exact ⟨(name ++ ": ").toList, [], by simp⟩
  · exact ⟨name.toList, [], by simp⟩

@[simp] theorem getException_error (e : ErrorObj) (residue : Slot) :
    getException (some (.error e)) residue = (some (e.name :: e.title :: e.stack), residue) := rfl

@[simp] theorem getException_other (id : Nat) (residue : Slot) :
    getException (some (.other id)) residue = (none, none) := rfl

@[simp] theorem getException_none (residue : Slot) : getException none residue = (none, none) := rfl

/-- The Error object a slot holds. -/
def Slot.error? : Slot → Option ErrorObj
  | some (.error e) => some e
  | _ => none

/-- **The transfer.** An exception reaches Java exactly when the slot holds an Error object, and it
is the exception of that object. -/
theorem checkException_getException (slot residue : Slot) :
    checkException (getException slot residue).1 = (Slot.error? slot).map QuickJSException.ofError := by
  match slot with
  | none => rfl
  | some (.other _) => rfl
  | some (.error _) => rfl

/-- The slot after the transfer: empty, but for what reading an Error object left. -/
theorem getException_slot (slot residue : Slot) :
    (getException slot residue).2 = if (Slot.error? slot).isSome then residue else none := by
  match slot with
  | none => rfl
  | some (.other _) => rfl
  | some (.error _) => rfl

end QuickJSBridge
