import QuickJSBridge.Jni.Marshal
import QuickJSBridge.Lib.Ownership.Code

/-!
# What the native functions do with references

Every function of `quickjs-jni.cpp` that touches JS values, as the code over references that it runs once
the engine's answers are given: the values that `JS_GetProperty*`, `JS_Call`, `JS_Eval` and the
constructors return are owned, `JS_SetProperty*` takes a reference over, `this` and the arguments of a
callback are lent, and a value that comes out of a Java handle is reached through its pointer only.

* `toJavaObject`, `Conversion.toJObject`, `jobjectToJSValue` — the conversions;
* `Call.executeFunction`, `Trampoline.run`, `ErrorRead.getException` — the longer functions;
* `Entry`, `Entry.code`, `Entry.borrowed` — all of them;
* `Entry.Proper`, `solvent_code` — the entries that spend only what they own;
* `Entry.LeakFree`, `net_code_le_zero_iff` — exactly the entries that leave nothing over.
-/

namespace QuickJSBridge.Native

open Ownership

variable {L : Layout}

/-! ## Conversions -/

/-- `JS_Equals`. In the struct layout the union is also compared as a double. -/
def jsEquals (r₁ r₂ : Raw L) : Bool :=
  match L, r₁, r₂ with
  | .struct64, r₁, r₂ => r₁.1 = r₂.1 ∧ r₁.2 = r₂.2 ∧ isNaNBits r₁.2 = false
  | .nanBox, (r₁ : BitVec 64), (r₂ : BitVec 64) => r₁ = r₂

/-- `JS_GetPropertyStr` and `JS_GetPropertyUint32`, where `obj` is reached by `use`. -/
def getProperty (use : Addr L → Instr (Addr L)) (obj result : JSVal L) : Code (Addr L) :=
  each use obj.ref? ++ each .acquire result.ref?

/-- `JS_ToCString`: the C string lies in a JS string. -/
def toCStringCode (v : JSVal L) (text : Option (Addr L)) : Code (Addr L) :=
  each .read v.ref? ++ each .acquire text

/-- `TO_JAVA_OBJECT` -/
def toJavaObject (v : JSVal L) : Code (Addr L) := each .read v.ref? ++ each .wrap v.ref?

/-- What a call of `To_JObject` depends on besides its value. -/
structure Conversion (L : Layout) where
  engine : Engine L
  slot : Slot
  expected : TypeCode
  -- what `JS_ToCString` returns; `none` is NULL
  text : Option (Addr L)

/-- The type code that `To_JObject` switches on. -/
def Conversion.type (k : Conversion L) (v : JSVal L) : TypeCode :=
  match v with
  | .undefined => typeUndefined
  | .null => typeNull
  | _ => if k.expected = typeUnknown then (k.engine.getObjectType k.slot v).1 else k.expected

/-- The codes for which a handle is made. -/
def handleTypes : List TypeCode := [typeJSArray, typeJSObject, typeJSFunction, typeUndefined]

/-- `GetObjectType`, which is called if no type is expected. -/
def Conversion.getObjectType (k : Conversion L) (v : JSVal L) : Code (Addr L) :=
  if k.expected = typeUnknown then each .read v.ref? else []

/-- `To_JObject` -/
def Conversion.toJObject (k : Conversion L) (v : JSVal L) : Code (Addr L) :=
  k.getObjectType v ++
    if k.type v = typeDouble then each .read v.ref?
    else if k.type v = typeString then toCStringCode v k.text
    else if k.type v ∈ handleTypes then toJavaObject v
    else []

/-- The reference that `JobjectToJSValue` returns; `newString` is what `JS_NewString` returns. -/
def jobjectRef (L : Layout) (value : JavaValue) (newString : Option (Addr L)) : Option (Addr L) :=
  match value with
  | .string _ => newString
  | .handle h => (h.fields.toJSValue L).decode.bind JSVal.ref?
  | _ => none

/-- `JobjectToJSValue` -/
def jobjectToJSValueCode (L : Layout) (value : JavaValue) (newString : Option (Addr L)) :
    Code (Addr L) :=
  match value with
  | .handle _ => each .derefDup (jobjectRef L value newString)
  | _ => each .acquire (jobjectRef L value newString)

/-! ## Function calls -/

structure Parameters (L : Layout) where
  array : JSVal L
  -- `array.length`
  length : JSVal L
  item : Nat → JSVal L

def Parameters.argv (p : Parameters L) : List (JSVal L) :=
  (List.range p.length.raw.getInt.toInt.toNat).map p.item

structure Call (L : Layout) where
  this_obj : JSVal L
  -- `none` is a null `parameters_handle`
  parameters : Option (Parameters L)
  global : Addr L
  result : JSVal L

namespace Call

def argv (c : Call L) : List (Option (Addr L)) := (c.parameters.elim [] Parameters.argv).map JSVal.ref?

/-- `length` of the parameters, which `GetArrayLength` reads. -/
def length (c : Call L) : Option (Addr L) := c.parameters.bind fun p => p.length.ref?

/-- The parameters are read from their array. -/
def loadArgv (c : Call L) : Code (Addr L) :=
  match c.parameters with
  | none => []
  | some p => getProperty .deref p.array p.length ++ p.argv.flatMap (getProperty .deref p.array)

/-- `this` as it is passed to `JS_Call`: the global object is replaced by undefined. -/
def passThis (c : Call L) : Code (Addr L) :=
  if jsEquals c.this_obj.raw (JSVal.object c.global).raw then [] else each .deref c.this_obj.ref?

/-- `executeFunction`, which takes `func` over. -/
def executeFunction (c : Call L) (func : JSVal L) : Code (Addr L) :=
  c.loadArgv ++ each .acquire (some c.global) ++
  -- `JS_Call`
  (each .read func.ref? ++ c.passThis ++ c.argv.flatMap (each .read) ++ each .acquire c.result.ref?) ++
  each .drop func.ref? ++ each .drop (some c.global) ++ c.argv.flatMap (each .drop)

end Call

/-! ## Callbacks -/

/-- A call of a Java function from JS: `this_val` and `argv` are lent by the engine. -/
structure Trampoline (L : Layout) where
  this_val : JSVal L
  argv : List (JSVal L)
  -- `JS_NewArray`
  args : JSVal L
  global : Addr L
  -- what the Java method returns
  result : JavaValue
  newString : Option (Addr L)

namespace Trampoline

def borrowed (t : Trampoline L) : List (Addr L) :=
  t.this_val.ref?.toList ++ t.argv.flatMap fun it => it.ref?.toList

def thisIsGlobal (t : Trampoline L) : Bool := jsEquals (JSVal.object t.global).raw t.this_val.raw

/-- The array that the Java method gets as its arguments. -/
def fillArgs (t : Trampoline L) : Code (Addr L) :=
  t.argv.flatMap fun it => each .dup it.ref? ++ each .read t.args.ref? ++ each .give it.ref?

/-- From the handles for `this` and the arguments to the value returned. The source makes the handle of
`this` first and takes its reference two statements later; nothing that drops one runs in between. -/
def invoke (t : Trampoline L) : Code (Addr L) :=
  (if t.thisIsGlobal then [] else each .dup t.this_val.ref?) ++ toJavaObject t.this_val ++
  toJavaObject t.args ++
  each .acquire (some t.global) ++ each .drop (some t.global) ++
  -- `CallStaticObjectMethod` runs the Java method here
  jobjectToJSValueCode L t.result t.newString ++ each .give (jobjectRef L t.result t.newString)

/-- `callJavaCallback` -/
def callJavaCallback (t : Trampoline L) : Code (Addr L) :=
  each .acquire t.args.ref? ++ t.fillArgs ++ t.invoke

/-- `js_worker_constructor` -/
def js_worker_constructor (t : Trampoline L) (java_caller_id : JSVal L) : Code (Addr L) :=
  each .acquire t.args.ref? ++ getProperty .read t.this_val java_caller_id ++ t.fillArgs ++ t.invoke

end Trampoline

/-! ## Exceptions -/

structure ErrorRead (L : Layout) where
  exc : JSVal L
  -- the class of an object is `JS_CLASS_ERROR`
  errorClass : Bool
  func : JSVal L
  nameValue : JSVal L
  titleValue : JSVal L
  nameText : Option (Addr L)
  titleText : Option (Addr L)
  -- the values of `stackValue` one after the other, with their C strings
  stack : List (JSVal L × Option (Addr L))

namespace ErrorRead

/-- `JS_IsError` -/
def isError (x : ErrorRead L) : Bool :=
  match x.exc with
  | .object _ => x.errorClass
  | _ => false

/-- The first value of `stackValue`. -/
def stackValue : List (JSVal L × Option (Addr L)) → JSVal L
  | [] => .undefined
  | (v, _) :: _ => v

/-- `while (!JS_IsUndefined(stackValue))`: each value is read once more after it has been freed. -/
def stackLoop : List (JSVal L × Option (Addr L)) → Code (Addr L)
  | [] => []
  | (v, text) :: rest =>
    if v = .undefined then []
    else
      toCStringCode v text ++ each .drop v.ref? ++ getProperty .deref v (stackValue rest) ++
        stackLoop rest

/-- The C strings of the loop. -/
def stackTexts (stack : List (JSVal L × Option (Addr L))) : List (Option (Addr L)) :=
  (stack.takeWhile fun x => x.1 ≠ .undefined).map (·.2)

/-- `_getException` -/
def getException (x : ErrorRead L) : Code (Addr L) :=
  each .acquire x.exc.ref? ++
    if x.isError then
      getProperty .read x.exc x.func ++ getProperty .read x.exc x.nameValue ++
      getProperty .read x.exc (stackValue x.stack) ++
      -- `JS_Call(ctx, func, exc, 0, nullptr)`
      (each .read x.func.ref? ++ each .read x.exc.ref? ++ each .acquire x.titleValue.ref?) ++
      each .drop x.func.ref? ++
      toCStringCode x.nameValue x.nameText ++ toCStringCode x.titleValue x.titleText ++
      stackLoop x.stack ++ each .drop x.exc.ref?
    else []

end ErrorRead

/-! ## All entries -/

inductive Entry (L : Layout) where
  -- without a source it returns at once
  | executeScript (val : Option (JSVal L)) (k : Conversion L)
  | getGlobalObject (global_obj : JSVal L)
  | initNewJSObject (jsValue : JSVal L)
  | initNewJSArray (jsValue : JSVal L)
  | initNewJSFunction (func : JSVal L)
  | get (this_obj result : JSVal L) (k : Conversion L)
  | getValue (this_obj result : JSVal L)
  | arrayGet (this_obj result : JSVal L) (k : Conversion L)
  | arrayGetValue (this_obj result : JSVal L)
  | contains (this_obj : JSVal L) (atom : Option (Addr L))
  -- the atom of each key and its C string
  | getKeys (this_obj : JSVal L) (keys : List (Option (Addr L) × Option (Addr L)))
  | executeFunction2 (func_obj : JSVal L) (c : Call L) (k : Conversion L)
  | executeFunction (func_obj : JSVal L) (c : Call L) (k : Conversion L)
  | callJavaCallback (t : Trampoline L)
  | registerJavaMethod (this_obj func : JSVal L)
  | getObjectType (value : JSVal L)
  | set (this_obj : JSVal L) (value : JavaValue) (newString : Option (Addr L))
  | arrayAdd (this_obj len : JSVal L) (value : JavaValue) (newString : Option (Addr L))
  | isUndefined (value : JSVal L)
  | undefined
  | getException (x : ErrorRead L)
  -- `_JSModuleLoaderFunc`, with what `JS_Eval` returns if there is a script
  | moduleLoader (func_val : Option (Addr L))
  | workerConstructor (t : Trampoline L) (java_caller_id : JSVal L)
  | newClass (func : JSVal L)

namespace Entry

def code : Entry L → Code (Addr L)
  | executeScript none _ => []
  | executeScript (some val) k => each .acquire val.ref? ++ k.toJObject val
  | getGlobalObject v | initNewJSObject v | initNewJSArray v | initNewJSFunction v =>
    each .acquire v.ref? ++ toJavaObject v
  | get this_obj result k | arrayGet this_obj result k =>
    getProperty .deref this_obj result ++ k.toJObject result
  | getValue this_obj result | arrayGetValue this_obj result =>
    getProperty .deref this_obj result ++ toJavaObject result
  | contains this_obj atom => each .acquire atom ++ each .deref this_obj.ref? ++ each .drop atom
  -- neither the atoms of `tab` nor the C strings are freed
  | getKeys this_obj keys =>
    each .deref this_obj.ref? ++ keys.flatMap (fun key => each .acquire key.1) ++
      keys.flatMap fun key => each .acquire key.2
  | executeFunction2 func_obj c k =>
    each .derefDup func_obj.ref? ++ c.executeFunction func_obj ++ k.toJObject c.result
  | executeFunction func_obj c k =>
    getProperty .deref c.this_obj func_obj ++ c.executeFunction func_obj ++ k.toJObject c.result
  | callJavaCallback t => t.callJavaCallback
  | registerJavaMethod this_obj func =>
    each .acquire func.ref? ++ each .dup func.ref? ++ each .deref this_obj.ref? ++
      each .give func.ref? ++ toJavaObject func
  | getObjectType (.object p) => [.deref p]
  | getObjectType _ => []
  | set this_obj value newString =>
    jobjectToJSValueCode L value newString ++ each .deref this_obj.ref? ++
      each .give (jobjectRef L value newString)
  | arrayAdd this_obj len value newString =>
    getProperty .deref this_obj len ++ jobjectToJSValueCode L value newString ++
      each .deref this_obj.ref? ++ each .give (jobjectRef L value newString)
  | isUndefined _ => []
  | undefined => toJavaObject .undefined
  | getException x => x.getException
  | moduleLoader func_val => each .acquire func_val ++ each .drop func_val
  | workerConstructor t java_caller_id => t.js_worker_constructor java_caller_id
  -- the property `java_caller_id` is an integer
  | newClass func => each .acquire func.ref? ++ each .read func.ref? ++ toJavaObject func

def borrowed : Entry L → List (Addr L)
  | callJavaCallback t | workerConstructor t _ => t.borrowed
  | _ => []

/-- A callback's `this` is not the global object. -/
def Proper : Entry L → Prop
  | callJavaCallback t | workerConstructor t _ => t.thisIsGlobal = false
  | _ => True

def program (e : Entry L) : Program (Addr L) := ⟨e.borrowed, e.code⟩

end Entry

/-! ## What an entry must not meet -/

/-- The value is left to a handle, or it is a scalar for which no C string is made. -/
def Conversion.Kept (k : Conversion L) (v : JSVal L) : Prop :=
  match v.ref? with
  | some _ => k.expected ∈ handleTypes ∨ (k.expected = typeUnknown ∧ v.tag = -1)
  | none => k.expected = typeString → v = .undefined ∨ v = .null ∨ k.text = none

/-- Nothing that `_getException` reads for good is in the heap. -/
def ErrorRead.LeakFree (x : ErrorRead L) : Prop :=
  if x.isError then
    x.nameValue.ref? = none ∧ x.titleValue.ref? = none ∧ x.nameText = none ∧ x.titleText = none ∧
      ∀ text ∈ stackTexts x.stack, text = none
  else x.exc.ref? = none

/-- Nothing is left over: converted values go to handles or are scalars, and what the bridge reads on the
side (lengths, keys, the parts of an exception) is not in the heap. -/
def Entry.LeakFree : Entry L → Prop
  | .executeScript (some val) k => k.Kept val
  | .get _ result k | .arrayGet _ result k => k.Kept result
  | .executeFunction2 _ c k | .executeFunction _ c k => c.length = none ∧ k.Kept c.result
  | .getKeys _ keys => ∀ key ∈ keys, key.1 = none ∧ key.2 = none
  | .arrayAdd _ len _ _ => len.ref? = none
  | .getException x => x.LeakFree
  | .workerConstructor t java_caller_id =>
    java_caller_id.ref? = none ∨ (t.thisIsGlobal = true ∧ java_caller_id.ref? = t.this_val.ref?)
  | _ => True

/-! Both conditions can be evaluated. -/

instance : DecidablePred (Entry.Proper (L := L)) := fun e =>
  match e with
  | .callJavaCallback t | .workerConstructor t _ => inferInstanceAs (Decidable (t.thisIsGlobal = false))
  | .executeScript .. | .getGlobalObject _ | .initNewJSObject _ | .initNewJSArray _
  | .initNewJSFunction _ | .get .. | .getValue .. | .arrayGet .. | .arrayGetValue .. | .contains ..
  | .getKeys .. | .executeFunction2 .. | .executeFunction .. | .registerJavaMethod .. | .getObjectType _
  | .set .. | .arrayAdd .. | .isUndefined _ | .undefined | .getException _ | .moduleLoader _
  | .newClass _ => isTrue trivial

instance (k : Conversion L) (v : JSVal L) : Decidable (k.Kept v) :=
  decidable_of_iff
    (if v.ref?.isSome then k.expected ∈ handleTypes ∨ (k.expected = typeUnknown ∧ v.tag = -1)
      else k.expected = typeString → v = .undefined ∨ v = .null ∨ k.text = none)
    (by
      unfold Conversion.Kept
      cases v.ref? <;> simp)

instance (x : ErrorRead L) : Decidable x.LeakFree :=
  inferInstanceAs (Decidable (if x.isError then
    x.nameValue.ref? = none ∧ x.titleValue.ref? = none ∧ x.nameText = none ∧ x.titleText = none ∧
      ∀ text ∈ ErrorRead.stackTexts x.stack, text = none
    else x.exc.ref? = none))

instance : DecidablePred (Entry.LeakFree (L := L)) := fun e =>
  match e with
  | .executeScript (some val) k => inferInstanceAs (Decidable (k.Kept val))
  | .get _ result k | .arrayGet _ result k => inferInstanceAs (Decidable (k.Kept result))
  | .executeFunction2 _ c k | .executeFunction _ c k =>
    inferInstanceAs (Decidable (c.length = none ∧ k.Kept c.result))
  | .getKeys _ keys => inferInstanceAs (Decidable (∀ key ∈ keys, key.1 = none ∧ key.2 = none))
  | .arrayAdd _ len _ _ => inferInstanceAs (Decidable (len.ref? = none))
  | .getException x => inferInstanceAs (Decidable x.LeakFree)
  | .workerConstructor t java_caller_id =>
    inferInstanceAs (Decidable (java_caller_id.ref? = none ∨
      (t.thisIsGlobal = true ∧ java_caller_id.ref? = t.this_val.ref?)))
  | .executeScript none _ | .getGlobalObject _ | .initNewJSObject _ | .initNewJSArray _
  | .initNewJSFunction _ | .getValue .. | .arrayGetValue .. | .contains .. | .callJavaCallback _
  | .registerJavaMethod .. | .getObjectType _ | .set .. | .isUndefined _ | .undefined
  | .moduleLoader _ | .newClass _ => isTrue trivial

end QuickJSBridge.Native
