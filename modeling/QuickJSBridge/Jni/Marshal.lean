import QuickJSBridge.Engine.Value

/-!
# Marshalling between JS and Java

`To_JObject` turns a JS value into a Java object, guided by the type code that the Java caller expects;
`JobjectToJSValue` goes the other way. An object, an array, a function or undefined becomes a handle, a
`com.quickjs.JSValue` that carries the bits of the JS value in four fields.

* `Fields.toJSValue`, `javaFields` — `TO_JS_VALUE` and the fields that `TO_JAVA_OBJECT` fills;
* `getObjectType`, `toJObject`, `jobjectToJSValue` — the functions of `quickjs-jni.cpp`;
* `toJSValue_javaFields` — a handle carries exactly the bits of its value;
* `roundTrip_iff` — reading a value without an expected type and handing the result back gives the
  same value, except for BigInts, BigFloats and BigDecimals.
-/

namespace QuickJSBridge

variable {L : Layout}

/-! ## Java values -/

/-- The fields `tag`, `u_int32`, `u_float64` and `u_ptr` of `com.quickjs.JSValue`. -/
structure Fields where
  tag : BitVec 64
  u_int32 : BitVec 32
  u_float64 : BitVec 64
  u_ptr : BitVec 64
  deriving DecidableEq

/-- The classes that `createJSValue` makes. -/
inductive HandleClass where
  | jsFunction
  | jsArray
  | jsObject
  -- `JSObject.Undefined`
  | undefined
  -- `JSValue` itself
  | jsValue
  deriving DecidableEq

/-- `instanceof JSObject` -/
def HandleClass.isJSObject : HandleClass → Bool
  | .jsValue => false
  | _ => true

structure JavaHandle where
  cls : HandleClass
  fields : Fields
  deriving DecidableEq

inductive JavaValue where
  | null
  | integer (i : BitVec 32)
  | long (i : BitVec 64)
  | double (bits : BitVec 64)
  | boolean (b : Bool)
  | string (s : Text)
  | handle (h : JavaHandle)
  -- an object of any other class
  | other
  deriving DecidableEq

/-! ## Type codes -/

/-- The type codes of `JSValue.java`. `TYPE_NULL` and `TYPE_UNKNOWN` are both 0. -/
abbrev TypeCode := Nat

def typeNull : TypeCode := 0
def typeUnknown : TypeCode := 0
def typeInteger : TypeCode := 1
def typeDouble : TypeCode := 2
def typeBoolean : TypeCode := 3
def typeString : TypeCode := 4
def typeJSArray : TypeCode := 5
def typeJSObject : TypeCode := 6
def typeJSFunction : TypeCode := 7
def typeUndefined : TypeCode := 99

/-! ## Handles -/

/-- The fields that `TO_JAVA_OBJECT` passes to `createJSValue`. -/
def javaFields (r : Raw L) : Fields :=
  match L, r with
  | .struct64, r => ⟨r.1, r.2.setWidth 32, r.2, r.2⟩
  | .nanBox, r => ⟨r, 0, 0, 0⟩

/-- `TO_JS_VALUE`. In the struct layout the three members of the union are stored one after the other;
the last store, `u.ptr`, overwrites all of it. -/
def Fields.toJSValue (L : Layout) (f : Fields) : Raw L :=
  match L with
  | .struct64 => (f.tag, f.u_ptr)
  | .nanBox => f.tag

/-- `QuickJS.createJSValue`: the class that a type code gives. -/
def createJSValue (type : TypeCode) (fields : Fields) : JavaHandle where
  cls :=
    if type = typeJSFunction then .jsFunction
    else if type = typeJSArray then .jsArray
    else if type = typeJSObject then .jsObject
    else if type = typeUndefined then .undefined
    else .jsValue
  fields := fields

namespace Engine

variable (E : Engine L)

/-- `TO_JAVA_OBJECT` -/
def toJavaObject (slot : Slot) (v : JSVal L) : JavaHandle × Slot :=
  if v.tag = 3 then (createJSValue typeUndefined (javaFields v.raw), slot)
  else
    let (isArray, slot) := E.isArray slot v
    let type :=
      if isArray then typeJSArray
      else if E.isFunction v then typeJSFunction
      else if v.tag = -1 then typeJSObject
      else typeUnknown
    (createJSValue type (javaFields v.raw), slot)

/-- `GetObjectType` -/
def getObjectType (slot : Slot) (v : JSVal L) : TypeCode × Slot :=
  let (isArray, slot) := E.isArray slot v
  if isArray then (typeJSArray, slot)
  else if E.isFunction v then (typeJSFunction, slot)
  else
    match v with
    | .object _ => (typeJSObject, slot)
    | .string _ => (typeString, slot)
    | .bigFloat _ => (typeDouble, slot)
    | .bool _ => (typeBoolean, slot)
    | .bigInt _ => (typeInteger, slot)
    | .null => (typeNull, slot)
    | .undefined => (typeUndefined, slot)
    | .int _ => (typeInteger, slot)
    | .float64 _ => (typeDouble, slot)
    | .symbol _ | .bigDecimal _ | .exception => (typeUnknown, slot)

/-- An `int` passed where JNI expects a `jboolean`, which has 8 bits. -/
def jboolean (i : BitVec 32) : Bool := i.setWidth 8 ≠ (0 : BitVec 8)

/-- `NewStringUTF(JS_ToCString(..))`. NULL gives null; what is not Modified UTF-8 is undefined behaviour,
`none`. -/
def javaString : Option Text → Option JavaValue
  | none => some .null
  | some s => (newStringUTF (toCString s)).map .string

/-- `To_JObject`. The result is `none` where the behaviour of JNI is undefined. -/
def toJObject (expected : TypeCode) (slot : Slot) (v : JSVal L) : Option JavaValue × Slot :=
  let (type, slot) := if expected = typeUnknown then E.getObjectType slot v else (expected, slot)
  let type :=
    match v with
    | .undefined => typeUndefined
    | .null => typeNull
    | _ => type
  if type = typeNull then (some .null, slot)
  else if type = typeInteger then (some (.integer v.raw.getInt), slot)
  else if type = typeDouble then
    let (bits, slot) := E.toFloat64 slot v
    (some (.double bits), slot)
  else if type = typeBoolean then (some (.boolean (jboolean v.raw.getInt)), slot)
  else if type = typeString then
    let (text, slot) := E.toText slot v
    (javaString text, slot)
  else if type = typeJSArray ∨ type = typeJSObject ∨ type = typeJSFunction ∨ type = typeUndefined then
    let (h, slot) := E.toJavaObject slot v
    (some (.handle h), slot)
  else (some .null, slot)

end Engine

/-! ## The way back -/

/-- What a conversion to JS yields: a value, or a string that is new in the heap. -/
inductive Handed (L : Layout) where
  | value (v : JSVal L)
  | newString (s : Text)

/-- `JS_NewInt64` -/
def newInt64 (E : Engine L) (i : BitVec 64) : JSVal L :=
  if (i.setWidth 32).signExtend 64 = i then .int (i.setWidth 32)
  else (JSVal.float64 (E.float64OfInt64 i)).normalize

/-- `JobjectToJSValue`; `none` if the fields of a handle are the bits of no value. -/
def jobjectToJSValue (E : Engine L) : JavaValue → Option (Handed L)
  | .null => some (.value .null)
  | .integer i => some (.value (.int i))
  | .long i => some (.value (newInt64 E i))
  | .double bits => some (.value (newFloat64 bits))
  | .boolean b => some (.value (.bool b))
  | .string s => some (.newString (newString (getStringUTFChars s)))
  | .handle h => ((h.fields.toJSValue L).decode).map .value
  | .other => some (.value .undefined)

def Engine.denoteHanded (E : Engine L) : Handed L → Denotation L
  | .value v => E.denote v
  | .newString s => .text s

/-! ## Handles carry their value -/

theorem toJSValue_javaFields (r : Raw L) : (javaFields r).toJSValue L = r := by
  cases L <;> rfl

theorem jobjectToJSValue_handle (E : Engine L) (h : JavaHandle) {v : JSVal L}
    (hf : h.fields = javaFields v.raw) :
    jobjectToJSValue E (.handle h) = some (.value v.normalize) := by
  show ((h.fields.toJSValue L).decode).map Handed.value = _
  rw [hf, toJSValue_javaFields, decode_raw]
  rfl

/-- Every value but undefined and null is converted to the text that was asked for. -/
theorem toJObject_string (E : Engine L) (slot : Slot) {v : JSVal L} (hu : v ≠ .undefined) (hn : v ≠ .null) :
    E.toJObject typeString slot v = (Engine.javaString (E.toText slot v).1, (E.toText slot v).2) := by
  cases v with
  | undefined => exact absurd rfl hu
  | null => exact absurd rfl hn
  | _ => rfl

/-- A text arrives cut at its first U+0000, and a surrogate pair before that is no Modified UTF-8. -/
theorem javaString_some (s : Text) :
    Engine.javaString (some s) =
      (if CodeUnits.hasPair (CodeUnits.beforeNul s) then none else some (CodeUnits.beforeNul s)).map .string := by
  show (newStringUTF (toCString s)).map JavaValue.string = _
  rw [newStringUTF_toCString]

theorem toJavaObject_fields (E : Engine L) (slot : Slot) (v : JSVal L) :
    (E.toJavaObject slot v).1.fields = javaFields v.raw := by
  unfold Engine.toJavaObject
  split <;> rfl

theorem getInt_int (i : BitVec 32) : (JSVal.int (L := L) i).raw.getInt = i := by
  cases L with
  | struct64 =>
    show (i.setWidth 64).setWidth 32 = i
    rw [BitVec.setWidth_setWidth_of_le i (by decide), BitVec.setWidth_eq]
  | nanBox =>
    show ((0 : BitVec 32) ++ (i.setWidth 64).setWidth 32).setWidth 32 = i
    rw [payload_append, BitVec.setWidth_setWidth_of_le i (by decide), BitVec.setWidth_eq]

theorem getInt_bool (b : Bool) : (JSVal.bool (L := L) b).raw.getInt = if b then 1 else 0 := by
  cases L <;> cases b <;> rfl

theorem jboolean_getInt_bool (b : Bool) :
    Engine.jboolean (JSVal.bool (L := L) b).raw.getInt = b := by
  rw [getInt_bool]
  cases b <;> rfl

/-! ## The untyped read -/

/-- `To_JObject` without an expected type, on an object: the handle that `TO_JAVA_OBJECT` makes. -/
theorem toJObject_unknown_handle (E : Engine L) (slot : Slot) (p : Addr L) :
    ∃ slot', (E.toJObject typeUnknown slot (.object p)).1 = some (.handle (E.toJavaObject slot' (.object p)).1) := by
  have htype : ∃ type slot', E.getObjectType slot (.object p) = (type, slot') ∧
      (type = typeJSArray ∨ type = typeJSFunction ∨ type = typeJSObject) := by
    unfold Engine.getObjectType
    split
    exact (by
      split
      · exact ⟨_, _, rfl, Or.inl rfl⟩
      · split
        · exact ⟨_, _, rfl, Or.inr (Or.inl rfl)⟩
        · exact ⟨_, _, rfl, Or.inr (Or.inr rfl)⟩)
  obtain ⟨type, slot', heq, htype⟩ := htype
  refine ⟨slot', ?_⟩
  unfold Engine.toJObject
  rw [if_pos rfl, heq]
  rcases htype with rfl | rfl | rfl <;> rfl

theorem toJObject_unknown_object (E : Engine L) (slot : Slot) (p : Addr L) :
    ∃ h, (E.toJObject typeUnknown slot (.object p)).1 = some (.handle h) ∧
      h.fields = javaFields (JSVal.object p).raw := by
  obtain ⟨slot', hread⟩ := toJObject_unknown_handle E slot p
  exact ⟨_, hread, toJavaObject_fields E slot' _⟩

/-- Reading `v` without an expected type (`To_JObject`), and handing the result back. -/
def roundTrip (E : Engine L) (slot : Slot) (v : JSVal L) : Option (Handed L) :=
  (E.toJObject typeUnknown slot v).1.bind (jobjectToJSValue E)

/-- A value that is neither a BigInt nor one of the other bignum types. -/
def JSVal.notBig : JSVal L → Prop
  | .bigInt _ | .bigFloat _ | .bigDecimal _ => False
  | _ => True

theorem roundTrip_string (E : Engine L) (slot : Slot) (p : Addr L)
    (hpair : CodeUnits.hasPair (E.string p) = false) (hnul : ∀ c ∈ E.string p, c.toNat ≠ 0) :
    roundTrip E slot (.string p) = some (.newString (E.string p)) := by
  show ((newStringUTF (toCString (E.string p))).map JavaValue.string).bind (jobjectToJSValue E) = _
  rw [newStringUTF_toCString_eq_self hpair hnul]
  show some (Handed.newString (newString (getStringUTFChars (E.string p)))) = _
  rw [newString_getStringUTFChars hnul]

/-- **Marshalling round trip.** For a JS value that is no symbol, and no string with U+0000 or a surrogate
pair: the untyped read handed back is the same value iff it is no bignum. -/
theorem roundTrip_iff (E : Engine L) (slot : Slot) {v : JSVal L} (hvalue : v ≠ .exception)
    (hsymbol : ∀ p, v ≠ .symbol p)
    (htext : ∀ p, v = .string p →
      CodeUnits.hasPair (E.string p) = false ∧ ∀ c ∈ E.string p, c.toNat ≠ 0) :
    (roundTrip E slot v).map E.denoteHanded = some (E.denote v) ↔ v.notBig := by
  cases v with
  | undefined =>
    have hback := jobjectToJSValue_handle E (E.toJavaObject slot .undefined).1
      (toJavaObject_fields E slot .undefined)
    have htrip : roundTrip E slot .undefined = some (.value (JSVal.undefined (L := L)).normalize) :=
      hback
    rw [htrip]
    exact ⟨fun _ => trivial, fun _ => congrArg some (denote_normalize E .undefined)⟩
  | object p =>
    obtain ⟨h, hread, hfields⟩ := toJObject_unknown_object E slot p
    have htrip : roundTrip E slot (.object p) = some (.value (JSVal.object p).normalize) := by
      unfold roundTrip
      rw [hread]
      exact jobjectToJSValue_handle E h hfields
    rw [htrip]
    exact ⟨fun _ => trivial, fun _ => congrArg some (denote_normalize E (.object p))⟩
  | null => exact ⟨fun _ => trivial, fun _ => rfl⟩
  | bool b =>
    have htrip : roundTrip E slot (.bool b) =
        some (.value (.bool (Engine.jboolean (JSVal.bool (L := L) b).raw.getInt))) := rfl
    rw [htrip, jboolean_getInt_bool]
    exact ⟨fun _ => trivial, fun _ => rfl⟩
  | int i =>
    have htrip : roundTrip E slot (.int i) =
        some (.value (.int (JSVal.int (L := L) i).raw.getInt)) := rfl
    rw [htrip, getInt_int]
    exact ⟨fun _ => trivial, fun _ => rfl⟩
  | float64 bits =>
    have htrip : roundTrip E slot (.float64 bits) = some (.value (newFloat64 bits)) := rfl
    rw [htrip]
    exact ⟨fun _ => trivial, fun _ => congrArg some (denote_newFloat64 E bits)⟩
  | string p =>
    obtain ⟨hpair, hnul⟩ := htext p rfl
    rw [roundTrip_string E slot p hpair hnul]
    exact ⟨fun _ => trivial, fun _ => rfl⟩
  | bigInt p =>
    -- the low half of the pointer comes back, as a number
    have htrip : roundTrip E slot (.bigInt p) =
        some (.value (.int (JSVal.bigInt p).raw.getInt)) := rfl
    rw [htrip]
    refine ⟨fun h => ?_, fun h => h.elim⟩
    cases Option.some.inj h
  | bigFloat p =>
    have htrip : roundTrip E slot (.bigFloat p) = some (.value (newFloat64 canonicalNaN)) := rfl
    rw [htrip]
    refine ⟨fun h => ?_, fun h => h.elim⟩
    have hnum : numberOf canonicalNaN = E.denote (.bigFloat p) :=
      (denote_newFloat64 E canonicalNaN).symm.trans (Option.some.inj h)
    cases hnum
  | bigDecimal p =>
    have htrip : roundTrip E slot (.bigDecimal p) = some (.value .null) := rfl
    rw [htrip]
    refine ⟨fun h => ?_, fun h => h.elim⟩
    cases Option.some.inj h
  | symbol p => exact absurd rfl (hsymbol p)
  | exception => exact absurd rfl hvalue

/-- An engine with one string, `"a"`, and one kind of object. -/
def sampleEngine (L : Layout) : Engine L where
  object := fun _ => ⟨.notArray, false, .ok canonicalNaN, .ok []⟩
  string := fun _ => [0x61]
  bigInt := fun _ => 1
  primitiveText := fun _ => []
  parseNumber := fun _ => canonicalNaN
  float64OfInt64 := fun _ => 0
  typeError := ⟨0, some "TypeError", none, []⟩

theorem roundTrip_iff_string :
    (roundTrip (sampleEngine .struct64) none (.string 0x10)).map (sampleEngine .struct64).denoteHanded =
      some (.text [0x61]) := by
  have hnul : ∀ c ∈ ([0x61] : Text), c.toNat ≠ 0 := by
    intro c hc
    rw [List.mem_singleton.mp hc]
    decide
  exact (roundTrip_iff (sampleEngine .struct64) none (v := .string 0x10) (fun h => by cases h)
    (fun _ h => by cases h) (fun _ _ => ⟨rfl, hnul⟩)).mpr trivial

/-- The BigInt `1n` at address `0x10` comes back as the number 16. -/
theorem not_roundTrip_bigInt :
    ¬ ∀ (L : Layout) (E : Engine L) (slot : Slot) (v : JSVal L), v ≠ .exception →
      (∀ p, v ≠ .symbol p) →
      (∀ p, v = .string p →
        CodeUnits.hasPair (E.string p) = false ∧ ∀ c ∈ E.string p, c.toNat ≠ 0) →
      (roundTrip E slot v).map E.denoteHanded = some (E.denote v) := by
  intro hall
  have h := hall .struct64 (sampleEngine .struct64) none (.bigInt 0x10) (fun h => by cases h)
    (fun _ h => by cases h) (fun _ h => by cases h)
  cases Option.some.inj h

end QuickJSBridge
