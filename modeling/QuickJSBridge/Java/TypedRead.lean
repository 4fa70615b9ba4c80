import QuickJSBridge.Jni.Marshal

/-!
# Typed reads

Four paths read a JS value at a requested Java type: `JSObject.getT(key)`, `JSArray.getT(i)`,
`executeTFunction` and `executeTScript`. They share the native conversion `To_JObject`, and differ in
what comes after it: `checkType` replaces a result of another class by a default, `checkException`
throws a pending Error, a cast unboxes, and `JSArray` tests `instanceof` before it casts.

* `checkType`, `castTo`, `instanceofOr`, `read` — the steps and the four paths;
* `Agree` — the four paths return one and the same Java value, the payload of a value of the requested
  type, and the default for undefined and null;
* `Agrees` — the values and types for which they do;
* `agree_iff` — the two coincide.
-/

namespace QuickJSBridge

variable {L : Layout}

/-! ## The paths -/

inductive ReadType where
  | integer
  | boolean
  | double
  | string
  | jsArray
  | jsObject
  deriving DecidableEq

/-- `TYPE.value` -/
def ReadType.code : ReadType → TypeCode
  | .integer => typeInteger
  | .boolean => typeBoolean
  | .double => typeDouble
  | .string => typeString
  | .jsArray => typeJSArray
  | .jsObject => typeJSObject

/-- `JSValue.checkType` -/
def checkType (result : JavaValue) (type : TypeCode) : JavaValue :=
  if type = typeUnknown then result
  else if type = typeInteger then
    match result with
    | .integer _ => result
    | _ => .integer 0
  else if type = typeDouble then
    match result with
    | .double _ => result
    -- the source returns the `int` literal 0 here
    | _ => .integer 0
  else if type = typeBoolean then
    match result with
    | .boolean _ => result
    | _ => .boolean false
  else if type = typeString then
    match result with
    | .string _ => result
    | _ => .null
  else
    match result with
    | .handle h =>
      if type = typeJSArray ∧ h.cls = .jsArray ∨ type = typeJSFunction ∧ h.cls = .jsFunction ∨
          type = typeJSObject ∧ h.cls.isJSObject then result
      else .null
    | _ => .null

inductive JavaResult where
  | returned (x : JavaValue)
  | classCast
  | nullPointer
  -- `checkException` threw
  | threw (q : QuickJSException)
  -- JNI was given what is not Modified UTF-8
  | undefinedBehaviour

/-- The cast to the result type of a typed read: unboxing throws on null, a reference cast does not. -/
def castTo : ReadType → JavaValue → JavaResult
  | .integer, .integer i => .returned (.integer i)
  | .boolean, .boolean b => .returned (.boolean b)
  | .double, .double bits => .returned (.double bits)
  | .integer, .null | .boolean, .null | .double, .null => .nullPointer
  | .string, .string s => .returned (.string s)
  | .string, .null | .jsArray, .null | .jsObject, .null => .returned .null
  | .jsArray, .handle h => if h.cls = .jsArray then .returned (.handle h) else .classCast
  | .jsObject, .handle h => if h.cls.isJSObject then .returned (.handle h) else .classCast
  | _, _ => .classCast

/-- The `instanceof` test of the typed reads of `JSArray`, with their defaults. -/
def instanceofOr : ReadType → JavaValue → JavaResult
  | .integer, .integer i => .returned (.integer i)
  | .integer, _ => .returned (.integer 0)
  | .boolean, .boolean b => .returned (.boolean b)
  | .boolean, _ => .returned (.boolean false)
  | .double, .double bits => .returned (.double bits)
  | .double, _ => .returned (.double 0)
  | .string, .string s => .returned (.string s)
  | .jsArray, .handle h => if h.cls = .jsArray then .returned (.handle h) else .returned .null
  | .jsObject, .handle h => if h.cls.isJSObject then .returned (.handle h) else .returned .null
  | _, _ => .returned .null

inductive ReadPath where
  -- `JSObject.getT(key)`
  | objectGet
  -- `JSArray.getT(index)`
  | arrayGet
  -- `executeTFunction`
  | function
  -- `executeTScript`
  | script
  deriving DecidableEq

/-- `QuickJS.checkException` before the rest of a path. -/
def afterCheckException (slot : Slot) (rest : JavaResult) : JavaResult :=
  match checkException (getException slot none).1 with
  | some q => .threw q
  | none => rest

/-- What follows the native call that returned `x` and left `slot` pending. -/
def ReadPath.finish (T : ReadType) (slot : Slot) (x : JavaValue) : ReadPath → JavaResult
  | .objectGet => castTo T (checkType x T.code)
  | .arrayGet => instanceofOr T (checkType x T.code)
  | .function => afterCheckException slot (castTo T (checkType x T.code))
  | .script => afterCheckException slot (castTo T x)

/-- The read of a value `v` at type `T`, with `slot` pending before. -/
def read (E : Engine L) (slot : Slot) (T : ReadType) (v : JSVal L) (path : ReadPath) : JavaResult :=
  match E.toJObject T.code slot v with
  | (none, _) => .undefinedBehaviour
  | (some x, slot') => path.finish T slot' x

/-! ## The property -/

/-- Where `v` has type `T`, `x` is its payload. A number is a `double` in both representations. -/
def IsPayload (E : Engine L) : ReadType → JSVal L → JavaValue → Prop
  | .integer, .int i, x => x = .integer i
  | .boolean, .bool b, x => x = .boolean b
  | .double, .int i, x => x = .double (float64OfInt32 i)
  | .double, .float64 bits, x => x = .double bits
  | .string, .string p, x => x = .string (E.string p)
  | .jsArray, .object p, x =>
    (E.object p).isArray = .array → ∃ cls, x = .handle ⟨cls, javaFields (JSVal.object p).raw⟩
  | .jsObject, .object p, x => ∃ cls, x = .handle ⟨cls, javaFields (JSVal.object p).raw⟩
  | _, _, _ => True

/-- The documented default; the `Undefined` handle is one for objects. -/
def IsDefault : ReadType → JavaValue → Prop
  | .integer, x => x = .integer 0
  | .boolean, x => x = .boolean false
  | .double, x => x = .double 0
  | .string, x | .jsArray, x => x = .null
  | .jsObject, x => x = .null ∨ ∃ fields, x = .handle ⟨.undefined, fields⟩

def Agree (E : Engine L) (slot : Slot) (T : ReadType) (v : JSVal L) : Prop :=
  ∃ x, (∀ path, read E slot T v path = .returned x) ∧ IsPayload E T v x ∧
    (v = .undefined ∨ v = .null → IsDefault T x)

/-- What the engine's conversion for type `T` leaves pending. -/
def pendingAfter (E : Engine L) (slot : Slot) : ReadType → JSVal L → Slot
  | .double, v => (E.toFloat64 slot v).2
  | .string, v => (E.toText slot v).2
  | _, _ => slot

/-- The text of `v` gets through to Java; that of a string in full. -/
def TextPasses (E : Engine L) (slot : Slot) (v : JSVal L) : Prop :=
  ∀ s, (E.toText slot v).1 = some s →
    CodeUnits.hasPair (CodeUnits.beforeNul s) = false ∧
      ((∃ p, v = .string p) → ∀ c ∈ s, c.toNat ≠ 0)

/-- No Error is pending after the conversion, and for each type the value is one that it can be read
from. -/
def Agrees (E : Engine L) (slot : Slot) (T : ReadType) (v : JSVal L) : Prop :=
  (pendingAfter E slot T v).error? = none ∧
    match T with
    | .integer | .boolean | .double => v ≠ .undefined ∧ v ≠ .null
    | .string => v ≠ .undefined ∧ (v ≠ .null → TextPasses E slot v)
    | .jsArray => v = .null ∨ ∃ p, v = .object p ∧ (E.object p).isArray = .array
    | .jsObject => v = .undefined ∨ v = .null ∨ ∃ p, v = .object p ∧ (E.object p).isArray ≠ .revoked

/-! ## From the native result to the four paths -/

theorem afterCheckException_of_none {slot : Slot} (h : slot.error? = none) (rest : JavaResult) :
    afterCheckException slot rest = rest := by
  unfold afterCheckException
  rw [checkException_getException, h]
  rfl

theorem afterCheckException_of_some {slot : Slot} {e : ErrorObj} (h : slot.error? = some e)
    (rest : JavaResult) : afterCheckException slot rest = .threw (.ofError e) := by
  unfold afterCheckException
  rw [checkException_getException, h]
  rfl

/-- The paths return `y` iff no Error is pending and the three ways to finish do. -/
theorem paths_iff {T : ReadType} {slot : Slot} {x y : JavaValue} :
    (∀ path, ReadPath.finish T slot x path = .returned y) ↔
      slot.error? = none ∧ castTo T (checkType x T.code) = .returned y ∧
        instanceofOr T (checkType x T.code) = .returned y ∧ castTo T x = .returned y := by
  constructor
  · intro hall
    cases herr : slot.error? with
    | some e =>
      have hscript := hall .script
      rw [ReadPath.finish, afterCheckException_of_some herr] at hscript
      cases hscript
    | none =>
      have hscript := hall .script
      rw [ReadPath.finish, afterCheckException_of_none herr] at hscript
      exact ⟨rfl, hall .objectGet, hall .arrayGet, hscript⟩
  · rintro ⟨herr, hcast, hinst, hscript⟩ path
    cases path with
    | objectGet => exact hcast
    | arrayGet => exact hinst
    | function => rw [ReadPath.finish, afterCheckException_of_none herr, hcast]
    | script => rw [ReadPath.finish, afterCheckException_of_none herr, hscript]

theorem agree_of_toJObject {E : Engine L} {slot slot' : Slot} {T : ReadType} {v : JSVal L}
    {x : JavaValue} (h : E.toJObject T.code slot v = (some x, slot')) :
    Agree E slot T v ↔ slot'.error? = none ∧ ∃ y, (castTo T (checkType x T.code) = .returned y ∧
      instanceofOr T (checkType x T.code) = .returned y ∧ castTo T x = .returned y) ∧
      IsPayload E T v y ∧ (v = .undefined ∨ v = .null → IsDefault T y) := by
  have hread : ∀ path, read E slot T v path = path.finish T slot' x := by
    intro path
    unfold read
    rw [h]
  constructor
  · rintro ⟨y, hall, hpayload, hdefault⟩
    obtain ⟨herr, hpaths⟩ := paths_iff.mp fun path => (hread path).symm.trans (hall path)
    exact ⟨herr, y, hpaths, hpayload, hdefault⟩
  · rintro ⟨herr, y, hpaths, hpayload, hdefault⟩
    exact ⟨y, fun path => (hread path).trans (paths_iff.mpr ⟨herr, hpaths⟩ path), hpayload, hdefault⟩

theorem not_agree_of_toJObject_none {E : Engine L} {slot slot' : Slot} {T : ReadType} {v : JSVal L}
    (h : E.toJObject T.code slot v = (none, slot')) : ¬ Agree E slot T v := by
  rintro ⟨y, hall, _⟩
  have hread := hall .objectGet
  unfold read at hread
  rw [h] at hread
  cases hread

/-! ## Undefined and null -/

theorem toJObject_null (E : Engine L) (slot : Slot) (T : ReadType) :
    E.toJObject T.code slot .null = (some .null, slot) := by
  cases T <;> rfl

theorem toJObject_undefined (E : Engine L) (slot : Slot) (T : ReadType) :
    E.toJObject T.code slot .undefined =
      (some (.handle ⟨.undefined, javaFields (JSVal.undefined (L := L)).raw⟩), slot) := by
  cases T <;> rfl

/-- On null the script path unboxes null, unless the type is a reference type. -/
theorem agree_null (E : Engine L) (slot : Slot) (T : ReadType) :
    Agree E slot T .null ↔ Agrees E slot T .null := by
  rw [agree_of_toJObject (toJObject_null E slot T)]
  cases T with
  | integer | boolean | double =>
    refine ⟨fun h => ?_, fun h => absurd rfl h.2.2⟩
    obtain ⟨_, _, ⟨_, _, hscript⟩, _⟩ := h
    cases hscript
  | string =>
    exact ⟨fun h => ⟨h.1, fun h => (by cases h), fun h => absurd rfl h⟩,
      fun h => ⟨h.1, .null, ⟨rfl, rfl, rfl⟩, trivial, fun _ => rfl⟩⟩
  | jsArray =>
    exact ⟨fun h => ⟨h.1, Or.inl rfl⟩,
      fun h => ⟨h.1, .null, ⟨rfl, rfl, rfl⟩, trivial, fun _ => rfl⟩⟩
  | jsObject =>
    exact ⟨fun h => ⟨h.1, Or.inr (Or.inl rfl)⟩,
      fun h => ⟨h.1, .null, ⟨rfl, rfl, rfl⟩, trivial, fun _ => Or.inl rfl⟩⟩

/-- On undefined the script path casts the `Undefined` handle, which is an object only. -/
theorem agree_undefined (E : Engine L) (slot : Slot) (T : ReadType) :
    Agree E slot T .undefined ↔ Agrees E slot T .undefined := by
  rw [agree_of_toJObject (toJObject_undefined E slot T)]
  cases T with
  | integer | boolean | double =>
    refine ⟨fun h => ?_, fun h => absurd rfl h.2.1⟩
    obtain ⟨_, _, ⟨_, _, hscript⟩, _⟩ := h
    cases hscript
  | string =>
    refine ⟨fun h => ?_, fun h => absurd rfl h.2.1⟩
    obtain ⟨_, _, ⟨_, _, hscript⟩, _⟩ := h
    cases hscript
  | jsArray =>
    refine ⟨fun h => ?_, fun h => ?_⟩
    · obtain ⟨_, _, ⟨_, _, hscript⟩, _⟩ := h
      cases hscript
    · rcases h.2 with h | ⟨p, h, _⟩ <;> cases h
  | jsObject =>
    exact ⟨fun h => ⟨h.1, Or.inl rfl⟩,
      fun h => ⟨h.1, _, ⟨rfl, rfl, rfl⟩, trivial, fun _ => Or.inr ⟨_, rfl⟩⟩⟩

/-! ## Scalars and texts -/

theorem agree_integer {E : Engine L} {slot : Slot} {v : JSVal L} (hu : v ≠ .undefined)
    (hn : v ≠ .null) : Agree E slot .integer v ↔ Agrees E slot .integer v := by
  have hread : E.toJObject typeInteger slot v = (some (.integer v.raw.getInt), slot) := by
    cases v with
    | undefined => exact absurd rfl hu
    | null => exact absurd rfl hn
    | _ => rfl
  rw [agree_of_toJObject (T := .integer) hread]
  refine ⟨fun h => ⟨h.1, hu, hn⟩, fun h => ⟨h.1, _, ⟨rfl, rfl, rfl⟩, ?_, ?_⟩⟩
  · cases v with
    | int i => exact congrArg JavaValue.integer (getInt_int i)
    | _ => trivial
  · rintro (h | h)
    · exact absurd h hu
    · exact absurd h hn

theorem agree_boolean {E : Engine L} {slot : Slot} {v : JSVal L} (hu : v ≠ .undefined)
    (hn : v ≠ .null) : Agree E slot .boolean v ↔ Agrees E slot .boolean v := by
  have hread : E.toJObject typeBoolean slot v =
      (some (.boolean (Engine.jboolean v.raw.getInt)), slot) := by
    cases v with
    | undefined => exact absurd rfl hu
    | null => exact absurd rfl hn
    | _ => rfl
  rw [agree_of_toJObject (T := .boolean) hread]
  refine ⟨fun h => ⟨h.1, hu, hn⟩, fun h => ⟨h.1, _, ⟨rfl, rfl, rfl⟩, ?_, ?_⟩⟩
  · cases v with
    | bool b => exact congrArg JavaValue.boolean (jboolean_getInt_bool b)
    | _ => trivial
  · rintro (h | h)
    · exact absurd h hu
    · exact absurd h hn

theorem agree_double {E : Engine L} {slot : Slot} {v : JSVal L} (hu : v ≠ .undefined)
    (hn : v ≠ .null) : Agree E slot .double v ↔ Agrees E slot .double v := by
  have hread : E.toJObject typeDouble slot v =
      (some (.double (E.toFloat64 slot v).1), (E.toFloat64 slot v).2) := by
    cases v with
    | undefined => exact absurd rfl hu
    | null => exact absurd rfl hn
    | _ => rfl
  rw [agree_of_toJObject (T := .double) hread]
  refine ⟨fun h => ⟨h.1, hu, hn⟩, fun h => ⟨h.1, _, ⟨rfl, rfl, rfl⟩, ?_, ?_⟩⟩
  · cases v <;> first | rfl | trivial
  · rintro (h | h)
    · exact absurd h hu
    · exact absurd h hn

/-- The conversion threw: `NewStringUTF(NULL)` is null on every path. -/
theorem agree_string_of_none {E : Engine L} {slot : Slot} {v : JSVal L} (hu : v ≠ .undefined) (hn : v ≠ .null)
    (htext : (E.toText slot v).1 = none) : Agree E slot .string v ↔ Agrees E slot .string v := by
  have hread := toJObject_string E slot hu hn
  rw [htext] at hread
  rw [agree_of_toJObject (T := .string) hread]
  refine ⟨fun h => ⟨h.1, hu, fun _ s hs => ?_⟩, fun h => ⟨h.1, .null, ⟨rfl, rfl, rfl⟩, ?_, ?_⟩⟩
  · rw [htext] at hs
    cases hs
  · cases v with
    | string p => cases htext
    | _ => trivial
  · exact fun hdefault => absurd hdefault (not_or.mpr ⟨hu, hn⟩)

/-- A text arrives on every path cut at its first U+0000, which is the payload only of a string without one. -/
theorem agree_string_of_some {E : Engine L} {slot : Slot} {v : JSVal L} {s : Text} (hu : v ≠ .undefined)
    (hn : v ≠ .null) (htext : (E.toText slot v).1 = some s) :
    Agree E slot .string v ↔ Agrees E slot .string v := by
  have hread := toJObject_string E slot hu hn
  rw [htext, javaString_some] at hread
  cases hpair : CodeUnits.hasPair (CodeUnits.beforeNul s) with
  | true =>
    -- a surrogate pair is written as four octets, which JNI does not accept
    rw [hpair] at hread
    refine ⟨fun h => absurd h (not_agree_of_toJObject_none (T := .string) hread), fun h => ?_⟩
    have hpass := (h.2.2 hn s htext).1
    rw [hpair] at hpass
    cases hpass
  | false =>
    rw [hpair] at hread
    rw [agree_of_toJObject (T := .string) hread]
    constructor
    · rintro ⟨herr, y, ⟨_, _, hscript⟩, hpayload, _⟩
      refine ⟨herr, hu, fun _ s' hs' => ?_⟩
      rw [htext] at hs'
      cases hs'
      refine ⟨hpair, ?_⟩
      rintro ⟨p, rfl⟩
      have hs : s = E.string p := (Option.some.inj htext).symm
      have hy : JavaValue.string (CodeUnits.beforeNul s) = y := JavaResult.returned.inj hscript
      have hfull : CodeUnits.beforeNul s = s := by
        have hp : y = .string (E.string p) := hpayload
        rw [← hy] at hp
        rw [JavaValue.string.inj hp, hs]
      exact CodeUnits.beforeNul_eq_self_iff.mp hfull
    · intro h
      refine ⟨h.1, _, ⟨rfl, rfl, rfl⟩, ?_, fun hdefault => absurd hdefault (not_or.mpr ⟨hu, hn⟩)⟩
      cases v with
      | string p =>
        have hs : s = E.string p := (Option.some.inj htext).symm
        have hnul := (h.2.2 hn s htext).2 ⟨p, rfl⟩
        show JavaValue.string (CodeUnits.beforeNul s) = .string (E.string p)
        rw [CodeUnits.beforeNul_eq_self_iff.mpr hnul, hs]
      | _ => trivial

theorem agree_string {E : Engine L} {slot : Slot} {v : JSVal L} (hu : v ≠ .undefined)
    (hn : v ≠ .null) : Agree E slot .string v ↔ Agrees E slot .string v := by
  cases htext : (E.toText slot v).1 with
  | none => exact agree_string_of_none hu hn htext
  | some s => exact agree_string_of_some hu hn htext

/-! ## Arrays and objects -/

theorem toJavaObject_object (E : Engine L) (slot : Slot) (p : Addr L) :
    ∃ cls, (E.toJavaObject slot (.object p)).1 = ⟨cls, javaFields (JSVal.object p).raw⟩ ∧
      cls.isJSObject = true ∧ (cls = .jsArray ↔ (E.object p).isArray ≠ .notArray) ∧
      (E.toJavaObject slot (.object p)).2 =
        if (E.object p).isArray = .revoked then jsThrow slot (.error E.typeError) else slot := by
  have htag : (JSVal.object p : JSVal L).tag ≠ 3 := by
    show (-1 : BitVec 32) ≠ 3
    decide
  unfold Engine.toJavaObject
  rw [if_neg htag]
  cases hkind : (E.object p).isArray with
  | array =>
    have harray : E.isArray slot (.object p) = (true, slot) := by
      simp only [Engine.isArray, hkind]
    rw [harray]
    exact ⟨.jsArray, rfl, rfl, ⟨fun _ => ArrayTest.noConfusion, fun _ => rfl⟩, rfl⟩
  | notArray =>
    have harray : E.isArray slot (.object p) = (false, slot) := by
      simp only [Engine.isArray, hkind]
    rw [harray]
    cases hfun : E.isFunction (.object p) with
    | true => exact ⟨.jsFunction, rfl, rfl, ⟨fun h => (by cases h), fun h => absurd rfl h⟩, rfl⟩
    | false => exact ⟨.jsObject, rfl, rfl, ⟨fun h => (by cases h), fun h => absurd rfl h⟩, rfl⟩
  | revoked =>
    have harray : E.isArray slot (.object p) = (true, jsThrow slot (.error E.typeError)) := by
      simp only [Engine.isArray, hkind]
    rw [harray]
    exact ⟨.jsArray, rfl, rfl, ⟨fun _ => ArrayTest.noConfusion, fun _ => rfl⟩, rfl⟩

/-- A scalar is given to Java as a plain `JSValue`, which the script path cannot cast. -/
theorem toJavaObject_scalar (E : Engine L) (slot : Slot) {v : JSVal L} (hu : v ≠ .undefined)
    (ho : ∀ p, v ≠ .object p) :
    E.toJavaObject slot v = (⟨.jsValue, javaFields v.raw⟩, slot) := by
  cases v with
  | undefined => exact absurd rfl hu
  | object p => exact absurd rfl (ho p)
  | _ => rfl

theorem toJObject_handle (E : Engine L) (slot : Slot) {T : ReadType} (hT : T = .jsArray ∨ T = .jsObject)
    {v : JSVal L} (hu : v ≠ .undefined) (hn : v ≠ .null) :
    E.toJObject T.code slot v =
      (some (.handle (E.toJavaObject slot v).1), (E.toJavaObject slot v).2) := by
  rcases hT with rfl | rfl <;> cases v <;> first | rfl | exact absurd rfl hu | exact absurd rfl hn

theorem agree_jsArray {E : Engine L} {slot : Slot} {v : JSVal L} (hu : v ≠ .undefined)
    (hn : v ≠ .null) : Agree E slot .jsArray v ↔ Agrees E slot .jsArray v := by
  have hread := toJObject_handle E slot (T := .jsArray) (Or.inl rfl) hu hn
  rw [agree_of_toJObject hread]
  by_cases ho : ∃ p, v = .object p
  · obtain ⟨p, rfl⟩ := ho
    obtain ⟨cls, hfst, _, hcls, hsnd⟩ := toJavaObject_object E slot p
    rw [hfst, hsnd]
    constructor
    · rintro ⟨herr, y, ⟨_, _, hscript⟩, _⟩
      have hrevoked : (E.object p).isArray ≠ .revoked := by
        intro h
        rw [if_pos h] at herr
        cases herr
      rw [if_neg hrevoked] at herr
      refine ⟨herr, Or.inr ⟨p, rfl, ?_⟩⟩
      have hjs : cls = .jsArray := by
        by_contra hne
        have hcast : castTo .jsArray (.handle ⟨cls, javaFields (JSVal.object p).raw⟩) = .classCast :=
          if_neg hne
        rw [hcast] at hscript
        cases hscript
      cases hkind : (E.object p).isArray with
      | array => rfl
      | notArray => exact absurd hkind (hcls.mp hjs)
      | revoked => exact absurd hkind hrevoked
    · rintro ⟨herr, h⟩
      rcases h with h | ⟨q, hq, hkind⟩
      · cases h
      · cases hq
        have hrevoked : (E.object p).isArray ≠ .revoked := by
          rw [hkind]
          exact ArrayTest.noConfusion
        have hjs : cls = .jsArray := hcls.mpr (by rw [hkind]; exact ArrayTest.noConfusion)
        rw [if_neg hrevoked, hjs]
        exact ⟨herr, _, ⟨rfl, rfl, rfl⟩, fun _ => ⟨.jsArray, rfl⟩, fun h => by rcases h with h | h <;> cases h⟩
  · have ho : ∀ p, v ≠ .object p := fun p hp => ho ⟨p, hp⟩
    rw [toJavaObject_scalar E slot hu ho]
    constructor
    · rintro ⟨_, y, ⟨_, _, hscript⟩, _⟩
      cases hscript
    · rintro ⟨_, h⟩
      rcases h with h | ⟨p, hp, _⟩
      · exact absurd h hn
      · exact absurd hp (ho p)

theorem agree_jsObject {E : Engine L} {slot : Slot} {v : JSVal L} (hu : v ≠ .undefined)
    (hn : v ≠ .null) : Agree E slot .jsObject v ↔ Agrees E slot .jsObject v := by
  have hread := toJObject_handle E slot (T := .jsObject) (Or.inr rfl) hu hn
  rw [agree_of_toJObject hread]
  by_cases ho : ∃ p, v = .object p
  · obtain ⟨p, rfl⟩ := ho
    obtain ⟨cls, hfst, hobj, _, hsnd⟩ := toJavaObject_object E slot p
    rw [hfst, hsnd]
    have hcast : castTo .jsObject (.handle ⟨cls, javaFields (JSVal.object p).raw⟩) =
        .returned (.handle ⟨cls, javaFields (JSVal.object p).raw⟩) := if_pos hobj
    have hcheck : checkType (.handle ⟨cls, javaFields (JSVal.object p).raw⟩) typeJSObject =
        .handle ⟨cls, javaFields (JSVal.object p).raw⟩ :=
      if_pos (Or.inr (Or.inr ⟨rfl, hobj⟩))
    have hinst : instanceofOr .jsObject (.handle ⟨cls, javaFields (JSVal.object p).raw⟩) =
        .returned (.handle ⟨cls, javaFields (JSVal.object p).raw⟩) := if_pos hobj
    constructor
    · rintro ⟨herr, _⟩
      have hrevoked : (E.object p).isArray ≠ .revoked := by
        intro h
        rw [if_pos h] at herr
        cases herr
      rw [if_neg hrevoked] at herr
      exact ⟨herr, Or.inr (Or.inr ⟨p, rfl, hrevoked⟩)⟩
    · rintro ⟨herr, h⟩
      rcases h with h | h | ⟨q, hq, hkind⟩
      · cases h
      · cases h
      · cases hq
        rw [if_neg hkind]
        refine ⟨herr, _, ⟨?_, ?_, hcast⟩, ⟨cls, rfl⟩, fun h => by rcases h with h | h <;> cases h⟩
        · rw [show ReadType.jsObject.code = typeJSObject from rfl, hcheck, hcast]
        · rw [show ReadType.jsObject.code = typeJSObject from rfl, hcheck, hinst]
  · have ho : ∀ p, v ≠ .object p := fun p hp => ho ⟨p, hp⟩
    rw [toJavaObject_scalar E slot hu ho]
    constructor
    · rintro ⟨_, y, ⟨_, _, hscript⟩, _⟩
      cases hscript
    · rintro ⟨_, h⟩
      rcases h with h | h | ⟨p, hp, _⟩
      · exact absurd h hu
      · exact absurd h hn
      · exact absurd hp (ho p)

/-! ## All types and values -/

/-- **Typed reads.** The four paths agree on `v` at type `T`, deliver its payload, and give the default for
undefined and null, exactly when `Agrees` says so. -/
theorem agree_iff (E : Engine L) (slot : Slot) (T : ReadType) (v : JSVal L) :
    Agree E slot T v ↔ Agrees E slot T v := by
  by_cases hu : v = .undefined
  · rw [hu]
    exact agree_undefined E slot T
  by_cases hn : v = .null
  · rw [hn]
    exact agree_null E slot T
  cases T with
  | integer => exact agree_integer hu hn
  | boolean => exact agree_boolean hu hn
  | double => exact agree_double hu hn
  | string => exact agree_string hu hn
  | jsArray => exact agree_jsArray hu hn
  | jsObject => exact agree_jsObject hu hn

/-- `getInteger` of an absent property gives 0, `executeIntegerScript` of undefined throws. -/
theorem not_agree_undefined_integer :
    ¬ ∀ (L : Layout) (E : Engine L) (slot : Slot) (T : ReadType) (v : JSVal L), Agree E slot T v := by
  intro hall
  have h := (agree_undefined (sampleEngine .struct64) none .integer).mp (hall _ _ _ _ _)
  exact h.2.1 rfl

end QuickJSBridge
