import Mathlib.Data.Finite.Prod
import QuickJSBridge.Jni.Arrays
import QuickJSBridge.Jni.StringTrips
import QuickJSBridge.Lib.Acyclic

/-!
# JSON out of JS objects

`toJSONObject` and `toJSONArray` read a JS object property by property and an array element by element, and
call each other for the objects they find. Nothing records where they have been.

* `Json` — the values of `org.json`; `put` — `JSONObject.put`;
* `Graph`, `Val` — objects whose properties are plain data, and the values in them; `toObj` — the object that
  `get` makes of a value, which `classify_toJObject` derives from `To_JObject`;
* `toJSON` — the two methods, with a bound on the depth of the recursion;
* `Edge` — the calls that one call makes;
* `ends_iff_noCycle` — a conversion ends iff no cycle of calls can be reached from it.
-/

namespace QuickJSBridge.JsonExport

open Arrays
open Acyclic (NoCycle)
open Relation (ReflTransGen)

/-! ## Values of `org.json` -/

inductive Json where
  -- `JSONObject.NULL`
  | null
  | string (s : Text)
  | boolean (b : Bool)
  | integer (i : BitVec 32)
  -- a `Number` of another class, by its `doubleValue()`
  | number (bits : BitVec 64)
  | array (items : List Json)
  -- the keys are distinct
  | object (members : List (Text × Json))

@[induction_eliminator]
theorem Json.ind {P : Json → Prop} (null : P .null) (string : ∀ s, P (.string s)) (boolean : ∀ b, P (.boolean b))
    (integer : ∀ i, P (.integer i)) (number : ∀ bits, P (.number bits))
    (array : ∀ items, (∀ x ∈ items, P x) → P (.array items))
    (object : ∀ members, (∀ m ∈ members, P m.2) → P (.object members)) (j : Json) : P j :=
  Json.rec (motive_1 := P) (motive_2 := fun items => ∀ x ∈ items, P x)
    (motive_3 := fun members => ∀ m ∈ members, P m.2) (motive_4 := fun m => P m.2)
    null string boolean integer number array object
    (fun _ h => absurd h List.not_mem_nil)
    (fun _ _ hx hitems _ hy => (List.mem_cons.mp hy).elim (fun h => h ▸ hx) (hitems _))
    (fun _ h => absurd h List.not_mem_nil)
    (fun _ _ hx hmembers _ hy => (List.mem_cons.mp hy).elim (fun h => h ▸ hx) (hmembers _))
    (fun _ _ h => h) j

def isFinite (bits : BitVec 64) : Bool := bits.toNat / 2 ^ 52 % 2048 != 2047

/-- `JSON.checkDouble` -/
def Json.checked : Json → Bool
  | .number bits => isFinite bits
  | _ => true

/-- The entry of `key` is replaced, or comes last. -/
def putMember : List (Text × Json) → Text → Json → List (Text × Json)
  | [], key, x => [(key, x)]
  | (k, y) :: members, key, x => if k = key then (key, x) :: members else (k, y) :: putMember members key x

/-- `JSONObject.put`; `none` is the `JSONException` of a number that is not finite. -/
def put (members : List (Text × Json)) (key : Text) (x : Json) : Option (List (Text × Json)) :=
  if x.checked then some (putMember members key x) else none

/-! ## JS values -/

/-- What `To_JObject` takes an object for. -/
inductive Kind where
  | function
  | array
  | object
  deriving DecidableEq

inductive Val (ν : Type) where
  | undefined
  | null
  | bool (b : Bool)
  | int (i : BitVec 32)
  | float64 (bits : BitVec 64)
  | string (t : Text)
  | symbol
  -- the low half of the pointer, which `JS_VALUE_GET_INT` takes
  | bigInt (low : BitVec 32)
  | bigFloat
  | bigDecimal
  | object (o : ν)

/-- Objects whose properties are plain data. -/
structure Graph (ν : Type) where
  kind : ν → Kind
  -- of an array, below `2 ^ 32`
  length : ν → Nat
  -- `JS_GetPropertyUint32`
  element : ν → Nat → Val ν
  -- `getKeys()`
  keys : ν → List Text
  -- `JS_GetPropertyStr`
  get : ν → Text → Val ν

/-- `NewStringUTF(JS_ToCString(..))`. Where the behaviour of JNI is undefined it is any string. -/
structure Jni where
  text : Text → Text
  text_eq : ∀ t r, StringTrips.report t = some r → text t = r

/-- The Java object that `get` returns, by the classes that the conversions tell apart. -/
inductive Obj (ν : Type) where
  | undefined
  | function (o : ν)
  | integer (i : BitVec 32)
  | double (bits : BitVec 64)
  | string (s : Text)
  | boolean (b : Bool)
  | array (a : ν)
  -- any other `JSObject`
  | object (o : ν)
  | null
  deriving DecidableEq

/-- The length as `length()` returns it. -/
def javaLength (n : Nat) : Int := (BitVec.ofNat 32 (lengthIndex n)).toInt

theorem javaLength_eq {L : Layout} {n : Nat} (hlt : n < 2 ^ 32) :
    (newUint32 n : JSVal L).raw.getInt.toInt = javaLength n := by
  unfold javaLength
  rw [← getInt_newUint32 (L := L) hlt, BitVec.ofNat_toNat, BitVec.setWidth_eq]

variable {ν : Type}

def Graph.toObj (g : Graph ν) (J : Jni) : Val ν → Obj ν
  | .undefined => .undefined
  | .null | .symbol | .bigDecimal => .null
  | .bool b => .boolean b
  | .int i => .integer i
  | .float64 bits => .double bits
  | .string t => .string (J.text t)
  | .bigInt low => .integer low
  | .bigFloat => .double canonicalNaN
  | .object o =>
    match g.kind o with
    | .function => .function o
    | .array => .array o
    | .object => .object o

/-! ## What the native read gives -/

section

variable {L : Layout} (E : Engine L)

def view : JSVal L → Val (Addr L)
  | .undefined => .undefined
  | .null | .exception => .null
  | .bool b => .bool b
  | .int i => .int i
  | .float64 bits => .float64 bits
  | .string p => .string (E.string p)
  | .symbol _ => .symbol
  | .bigInt p => .bigInt (JSVal.bigInt p).raw.getInt
  | .bigFloat _ => .bigFloat
  | .bigDecimal _ => .bigDecimal
  | .object p => .object p

def kindOf (p : Addr L) : Kind :=
  match (E.object p).isArray with
  | .array | .revoked => .array
  | .notArray => if (E.object p).isFunction then .function else .object

/-- The object that a handle stands for, and the class of any other object. -/
def classify : JavaValue → Obj (Addr L)
  | .integer i => .integer i
  | .double bits => .double bits
  | .boolean b => .boolean b
  | .string s => .string s
  | .handle h =>
    match h.cls, (h.fields.toJSValue L).decode with
    | .undefined, _ => .undefined
    | .jsFunction, some (.object p) => .function p
    | .jsArray, some (.object p) => .array p
    | .jsObject, some (.object p) => .object p
    | _, _ => .null
  | .null | .long _ | .other => .null

theorem classify_handle (cls : HandleClass) (p : Addr L) :
    classify (.handle ⟨cls, javaFields (JSVal.object p).raw⟩) =
      match cls with
      | .undefined => .undefined
      | .jsFunction => .function p
      | .jsArray => .array p
      | .jsObject => .object p
      | .jsValue => Obj.null := by
  have hdecode : ((javaFields (JSVal.object p).raw).toJSValue L).decode = some (.object p) := by
    rw [toJSValue_javaFields, decode_raw]
    cases L <;> rfl
  show (match cls, ((javaFields (JSVal.object p).raw).toJSValue L).decode with
    | .undefined, _ => Obj.undefined
    | .jsFunction, some (.object p) => .function p
    | .jsArray, some (.object p) => .array p
    | .jsObject, some (.object p) => .object p
    | _, _ => .null) = _
  rw [hdecode]
  cases cls <;> rfl

theorem toJavaObject_kindOf (slot : Slot) (p : Addr L) :
    (E.toJavaObject slot (.object p)).1 =
      ⟨match kindOf E p with
        | .function => .jsFunction
        | .array => .jsArray
        | .object => .jsObject, javaFields (JSVal.object p).raw⟩ := by
  have htag : (JSVal.object p : JSVal L).tag ≠ 3 := by
    show (-1 : BitVec 32) ≠ 3
    decide
  unfold Engine.toJavaObject kindOf
  rw [if_neg htag]
  cases harray : (E.object p).isArray with
  | array =>
    simp only [Engine.isArray, harray]
    rfl
  | revoked =>
    simp only [Engine.isArray, harray]
    rfl
  | notArray =>
    cases hfun : (E.object p).isFunction with
    | true =>
      simp only [Engine.isArray, Engine.isFunction, harray, hfun]
      rfl
    | false =>
      simp only [Engine.isArray, Engine.isFunction, harray, hfun]
      rfl

theorem classify_toJObject_object (g : Graph (Addr L)) (J : Jni) (slot : Slot) {p : Addr L}
    (hkind : g.kind p = kindOf E p) :
    ((E.toJObject typeUnknown slot (.object p)).1).map classify = some (g.toObj J (.object p)) := by
  obtain ⟨slot', hread⟩ := toJObject_unknown_handle E slot p
  rw [hread, Option.map_some, toJavaObject_kindOf, classify_handle]
  show _ = some (match g.kind p with
    | .function => Obj.function p
    | .array => .array p
    | .object => .object p)
  rw [hkind]
  cases kindOf E p <;> rfl

/-- **The untyped read** gives what `toObj` says, where the behaviour of JNI is defined. -/
theorem classify_toJObject (g : Graph (Addr L)) (J : Jni) (slot : Slot) {v : JSVal L} (hvalue : v ≠ .exception)
    (hkind : ∀ p, v = .object p → g.kind p = kindOf E p)
    (htext : ∀ p, v = .string p → (StringTrips.report (E.string p)).isSome) :
    ((E.toJObject typeUnknown slot v).1).map classify = some (g.toObj J (view E v)) := by
  cases v with
  | object p => exact classify_toJObject_object E g J slot (hkind p rfl)
  | string p =>
    obtain ⟨r, hr⟩ := Option.isSome_iff_exists.mp (htext p rfl)
    show ((StringTrips.report (E.string p)).map JavaValue.string).map classify = some (Obj.string (J.text (E.string p)))
    rw [hr, J.text_eq _ r hr]
    rfl
  | int i =>
    show some (Obj.integer (JSVal.int (L := L) i).raw.getInt) = some (Obj.integer i)
    rw [getInt_int]
  | bool b =>
    show some (Obj.boolean (Engine.jboolean (JSVal.bool (L := L) b).raw.getInt)) = some (Obj.boolean b)
    rw [jboolean_getInt_bool]
  | exception => exact absurd rfl hvalue
  | undefined => rfl
  | null => rfl
  | float64 bits => rfl
  | symbol p => rfl
  | bigInt p => rfl
  | bigFloat p => rfl
  | bigDecimal p => rfl

end

/-! ## The conversions -/

/-- A call of `toJSONArray` or of `toJSONObject`. -/
inductive Conversion (ν : Type) where
  | array (a : ν)
  | object (o : ν)
  deriving DecidableEq

def Conversion.node : Conversion ν → ν
  | .array a => a
  | .object o => o

/-- The branches of the two loops: what is put, if anything. -/
def convert (nested : Conversion ν → Option Json) : Obj ν → Option (Option Json)
  | .undefined | .function _ => some none
  | .integer i => some (some (.integer i))
  | .double bits => some (some (.number bits))
  | .string s => some (some (.string s))
  | .boolean b => some (some (.boolean b))
  | .array a => (nested (.array a)).map some
  | .object o => (nested (.object o)).map some
  -- no branch
  | .null => some none

/-- The loop of `toJSONArray`, up to index `n`. -/
def arrayLoop (item : Nat → Option (Option Json)) : Nat → Option (List Json)
  | 0 => some []
  | n + 1 => (arrayLoop item n).bind fun jsonArray => (item n).map fun x => jsonArray ++ x.toList

/-- A `JSONException` is caught and printed. -/
def putCaught (members : List (Text × Json)) (key : Text) : Option Json → List (Text × Json)
  | none => members
  | some x => (put members key x).getD members

/-- The loop of `toJSONObject`. -/
def objectLoop (member : Text → Option (Option Json)) : List Text → List (Text × Json) → Option (List (Text × Json))
  | [], members => some members
  | key :: keys, members => (member key).bind fun x => objectLoop member keys (putCaught members key x)

namespace Graph

variable (g : Graph ν) (J : Jni)

/-- `toJSONArray` and `toJSONObject`; `none` if the recursion goes deeper than `depth`. -/
def toJSON : Nat → Conversion ν → Option Json
  | 0, _ => none
  | depth + 1, .array a =>
    (arrayLoop (fun i => convert (toJSON depth) (g.toObj J (g.element a i))) (javaLength (g.length a)).toNat).map .array
  | depth + 1, .object o =>
    (objectLoop (fun key => convert (toJSON depth) (g.toObj J (g.get o key))) (g.keys o) []).map .object


/-- The conversion returns. -/
def Ends (c : Conversion ν) : Prop := ∃ depth json, g.toJSON J depth c = some json

end Graph

/-- What a client or a script calls on an object. -/
inductive Start (ν : Type) where
  | toJSONObject (o : ν)
  | toJSONArray (a : ν)
  -- `console.table`, which logs the text of the result
  | table (o : ν)

def Start.call (g : Graph ν) : Start ν → Conversion ν
  | .toJSONObject o => .object o
  | .toJSONArray a => .array a
  | .table o => if g.kind o = .array then .array o else .object o

/-! ## The calls of a call -/

def Obj.call? : Obj ν → Option (Conversion ν)
  | .array a => some (.array a)
  | .object o => some (.object o)
  | _ => none

/-- The calls that a call makes. -/
def Graph.calls (g : Graph ν) (J : Jni) : Conversion ν → List (Conversion ν)
  | .array a => (List.range (javaLength (g.length a)).toNat).filterMap fun i => (g.toObj J (g.element a i)).call?
  | .object o => (g.keys o).filterMap fun key => (g.toObj J (g.get o key)).call?

/-- The call `c` makes the call `d`. -/
def Edge (g : Graph ν) (J : Jni) (d c : Conversion ν) : Prop := d ∈ g.calls J c

theorem edge_array {g : Graph ν} {J : Jni} {d : Conversion ν} {a : ν} :
    Edge g J d (.array a) ↔
      ∃ i < (javaLength (g.length a)).toNat, (g.toObj J (g.element a i)).call? = some d := by
  simp [Edge, Graph.calls, List.mem_filterMap, List.mem_range]

theorem edge_object {g : Graph ν} {J : Jni} {d : Conversion ν} {o : ν} :
    Edge g J d (.object o) ↔ ∃ key ∈ g.keys o, (g.toObj J (g.get o key)).call? = some d := List.mem_filterMap

/-! ## The loops -/

/-- A branch needs the nested conversion at most for the object it is at. -/
theorem convert_eq_some_iff {nested : Conversion ν → Option Json} {x : Obj ν} :
    (∃ r, convert nested x = some r) ↔ ∀ d, x.call? = some d → ∃ json, nested d = some json := by
  cases x with
  | array a => simp [convert, Obj.call?]
  | object o => simp [convert, Obj.call?]
  | _ => simp [convert, Obj.call?]

theorem convert_congr {nested nested' : Conversion ν → Option Json} {x : Obj ν} {r : Option Json}
    (h : convert nested x = some r) (hle : ∀ d json, nested d = some json → nested' d = some json) :
    convert nested' x = some r := by
  cases x with
  | array a =>
    obtain ⟨json, hjson, rfl⟩ := Option.map_eq_some_iff.mp h
    exact Option.map_eq_some_iff.mpr ⟨json, hle _ _ hjson, rfl⟩
  | object o =>
    obtain ⟨json, hjson, rfl⟩ := Option.map_eq_some_iff.mp h
    exact Option.map_eq_some_iff.mpr ⟨json, hle _ _ hjson, rfl⟩
  | _ => exact h

theorem arrayLoop_succ {item : Nat → Option (Option Json)} {n : Nat} {items : List Json} :
    arrayLoop item (n + 1) = some items ↔
      ∃ before x, arrayLoop item n = some before ∧ item n = some x ∧ items = before ++ x.toList := by
  simp only [arrayLoop, Option.bind_eq_some_iff, Option.map_eq_some_iff]
  constructor
  · rintro ⟨before, hbefore, x, hx, rfl⟩
    exact ⟨before, x, hbefore, hx, rfl⟩
  · rintro ⟨before, x, hbefore, hx, rfl⟩
    exact ⟨before, hbefore, x, hx, rfl⟩

theorem arrayLoop_eq_some_iff {item : Nat → Option (Option Json)} {n : Nat} :
    (∃ items, arrayLoop item n = some items) ↔ ∀ i < n, ∃ x, item i = some x := by
  induction n with
  | zero => exact ⟨fun _ i hi => absurd hi (Nat.not_lt_zero i), fun _ => ⟨[], rfl⟩⟩
  | succ n ih =>
    constructor
    · rintro ⟨items, h⟩ i hi
      obtain ⟨before, x, hbefore, hx, _⟩ := arrayLoop_succ.mp h
      rcases Nat.lt_succ_iff_lt_or_eq.mp hi with hlt | rfl
      · exact ih.mp ⟨before, hbefore⟩ i hlt
      · exact ⟨x, hx⟩
    · intro h
      obtain ⟨before, hbefore⟩ := ih.mpr fun i hi => h i (by omega)
      obtain ⟨x, hx⟩ := h n (by omega)
      exact ⟨_, arrayLoop_succ.mpr ⟨before, x, hbefore, hx, rfl⟩⟩

theorem arrayLoop_congr {item item' : Nat → Option (Option Json)} {n : Nat} {items : List Json}
    (h : arrayLoop item n = some items) (hle : ∀ i x, item i = some x → item' i = some x) :
    arrayLoop item' n = some items := by
  induction n generalizing items with
  | zero => exact h
  | succ n ih =>
    obtain ⟨before, x, hbefore, hx, hitems⟩ := arrayLoop_succ.mp h
    exact arrayLoop_succ.mpr ⟨before, x, ih hbefore, hle n x hx, hitems⟩

theorem objectLoop_cons {member : Text → Option (Option Json)} {key : Text} {keys : List Text}
    {members result : List (Text × Json)} :
    objectLoop member (key :: keys) members = some result ↔
      ∃ x, member key = some x ∧ objectLoop member keys (putCaught members key x) = some result :=
  Option.bind_eq_some_iff

theorem objectLoop_eq_some_iff {member : Text → Option (Option Json)} {keys : List Text}
    {members : List (Text × Json)} :
    (∃ result, objectLoop member keys members = some result) ↔ ∀ key ∈ keys, ∃ x, member key = some x := by
  induction keys generalizing members with
  | nil => exact ⟨fun _ key hkey => absurd hkey List.not_mem_nil, fun _ => ⟨members, rfl⟩⟩
  | cons key keys ih =>
    constructor
    · rintro ⟨result, h⟩
      obtain ⟨x, hx, hrest⟩ := objectLoop_cons.mp h
      intro k hk
      rcases List.mem_cons.mp hk with rfl | hk
      · exact ⟨x, hx⟩
      · exact ih.mp ⟨result, hrest⟩ k hk
    · intro h
      obtain ⟨x, hx⟩ := h key List.mem_cons_self
      obtain ⟨result, hrest⟩ := (@ih (putCaught members key x)).mpr
        fun k hk => h k (List.mem_cons_of_mem key hk)
      exact ⟨result, objectLoop_cons.mpr ⟨x, hx, hrest⟩⟩

theorem objectLoop_congr {member member' : Text → Option (Option Json)} {keys : List Text}
    {members result : List (Text × Json)} (h : objectLoop member keys members = some result)
    (hle : ∀ key x, member key = some x → member' key = some x) :
    objectLoop member' keys members = some result := by
  induction keys generalizing members with
  | nil => exact h
  | cons key keys ih =>
    obtain ⟨x, hx, hrest⟩ := objectLoop_cons.mp h
    exact objectLoop_cons.mpr ⟨x, hle key x hx, ih hrest⟩

/-! ## Depth -/

variable {g : Graph ν} {J : Jni}

theorem toJSON_array {depth : Nat} {a : ν} {json : Json} :
    g.toJSON J (depth + 1) (.array a) = some json ↔
      ∃ items, arrayLoop (fun i => convert (g.toJSON J depth) (g.toObj J (g.element a i)))
        (javaLength (g.length a)).toNat = some items ∧ json = .array items := by
  simp only [Graph.toJSON, Option.map_eq_some_iff]
  exact ⟨fun ⟨items, h, heq⟩ => ⟨items, h, heq.symm⟩, fun ⟨items, h, heq⟩ => ⟨items, h, heq.symm⟩⟩

theorem toJSON_object {depth : Nat} {o : ν} {json : Json} :
    g.toJSON J (depth + 1) (.object o) = some json ↔
      ∃ members, objectLoop (fun key => convert (g.toJSON J depth) (g.toObj J (g.get o key))) (g.keys o) [] =
        some members ∧ json = .object members := by
  simp only [Graph.toJSON, Option.map_eq_some_iff]
  exact ⟨fun ⟨items, h, heq⟩ => ⟨items, h, heq.symm⟩, fun ⟨items, h, heq⟩ => ⟨items, h, heq.symm⟩⟩

/-- A conversion that returns is not changed by more depth. -/
theorem toJSON_succ {depth : Nat} {c : Conversion ν} {json : Json} (h : g.toJSON J depth c = some json) :
    g.toJSON J (depth + 1) c = some json := by
  induction depth generalizing c json with
  | zero => cases h
  | succ depth ih =>
    cases c with
    | array a =>
      obtain ⟨items, hloop, rfl⟩ := toJSON_array.mp h
      exact toJSON_array.mpr ⟨items, arrayLoop_congr hloop fun _ _ hx => convert_congr hx fun _ _ => ih, rfl⟩
    | object o =>
      obtain ⟨members, hloop, rfl⟩ := toJSON_object.mp h
      exact toJSON_object.mpr ⟨members, objectLoop_congr hloop fun _ _ hx => convert_congr hx fun _ _ => ih, rfl⟩

theorem toJSON_mono {depth depth' : Nat} {c : Conversion ν} {json : Json} (hle : depth ≤ depth')
    (h : g.toJSON J depth c = some json) : g.toJSON J depth' c = some json := by
  induction hle with
  | refl => exact h
  | step _ ih => exact toJSON_succ ih

/-- A call returns within some depth iff all the calls it makes return within one less. -/
theorem toJSON_isSome_iff {depth : Nat} {c : Conversion ν} :
    (∃ json, g.toJSON J (depth + 1) c = some json) ↔ ∀ d, Edge g J d c → ∃ json, g.toJSON J depth d = some json := by
  cases c with
  | array a =>
    have hloop := @arrayLoop_eq_some_iff (fun i => convert (g.toJSON J depth) (g.toObj J (g.element a i)))
      (javaLength (g.length a)).toNat
    simp only [convert_eq_some_iff] at hloop
    constructor
    · rintro ⟨json, h⟩ d hedge
      obtain ⟨i, hi, hd⟩ := edge_array.mp hedge
      obtain ⟨items, hitems, _⟩ := toJSON_array.mp h
      exact hloop.mp ⟨items, hitems⟩ i hi d hd
    · intro h
      obtain ⟨items, hitems⟩ := hloop.mpr fun i hi d hd => h d (edge_array.mpr ⟨i, hi, hd⟩)
      exact ⟨_, toJSON_array.mpr ⟨items, hitems, rfl⟩⟩
  | object o =>
    have hloop := @objectLoop_eq_some_iff (fun key => convert (g.toJSON J depth) (g.toObj J (g.get o key)))
      (g.keys o) []
    simp only [convert_eq_some_iff] at hloop
    constructor
    · rintro ⟨json, h⟩ d hedge
      obtain ⟨key, hkey, hd⟩ := edge_object.mp hedge
      obtain ⟨members, hmembers, _⟩ := toJSON_object.mp h
      exact hloop.mp ⟨members, hmembers⟩ key hkey d hd
    · intro h
      obtain ⟨members, hmembers⟩ := hloop.mpr fun key hkey d hd => h d (edge_object.mpr ⟨key, hkey, hd⟩)
      exact ⟨_, toJSON_object.mpr ⟨members, hmembers, rfl⟩⟩

/-! ## When a conversion ends -/

/-- Calls that return, finitely many, return within one depth. -/
theorem exists_depth {calls : List (Conversion ν)} (h : ∀ d ∈ calls, g.Ends J d) :
    ∃ depth, ∀ d ∈ calls, ∃ json, g.toJSON J depth d = some json := by
  induction calls with
  | nil => exact ⟨0, fun d hd => absurd hd List.not_mem_nil⟩
  | cons c calls ih =>
    obtain ⟨depth, json, hc⟩ := h c List.mem_cons_self
    obtain ⟨depth', hcalls⟩ := ih fun d hd => h d (List.mem_cons_of_mem c hd)
    refine ⟨max depth depth', fun d hd => ?_⟩
    rcases List.mem_cons.mp hd with rfl | hd
    · exact ⟨json, toJSON_mono (by omega) hc⟩
    · obtain ⟨json', hd'⟩ := hcalls d hd
      exact ⟨json', toJSON_mono (by omega) hd'⟩

theorem ends_of_calls {c : Conversion ν} (h : ∀ d, Edge g J d c → g.Ends J d) : g.Ends J c := by
  obtain ⟨depth, hdepth⟩ := exists_depth h
  exact ⟨depth + 1, toJSON_isSome_iff.mpr hdepth⟩

theorem ends_iff_acc {c : Conversion ν} : g.Ends J c ↔ Acc (Edge g J) c := by
  constructor
  · rintro ⟨depth, h⟩
    induction depth generalizing c with
    | zero =>
      obtain ⟨json, h⟩ := h
      cases h
    | succ depth ih => exact ⟨c, fun d hd => ih (toJSON_isSome_iff.mp h d hd)⟩
  · intro h
    induction h with
    | intro c _ ih => exact ends_of_calls ih

instance [Finite ν] : Finite (Conversion ν) :=
  Finite.of_surjective (fun c : Bool × ν => if c.1 then Conversion.array c.2 else .object c.2) fun c =>
    match c with
    | .array a => ⟨(true, a), rfl⟩
    | .object o => ⟨(false, o), rfl⟩

/-- **Termination.** A conversion of a finite graph ends iff no cycle of calls can be reached from it. -/
theorem ends_iff_noCycle (g : Graph ν) (J : Jni) (start : Start ν)
    (hfin : {c | ReflTransGen (Edge g J) c (start.call g)}.Finite) :
    g.Ends J (start.call g) ↔ NoCycle (Edge g J) (start.call g) :=
  ends_iff_acc.trans (Acyclic.acc_iff_noCycle hfin)

/-- An array of two elements that are one object. -/
def sharedGraph : Graph Bool where
  kind := fun o => if o then .array else .object
  length := fun o => if o then 2 else 0
  element := fun _ _ => .object false
  keys := fun _ => [[0x61]]
  get := fun _ _ => .int 5

/-- JNI that is right on every text that it is defined on. -/
def sampleJni : Jni where
  text t := (StringTrips.report t).getD []
  text_eq t r h := by rw [h]; rfl

theorem ends_iff_noCycle_shared :
    sharedGraph.Ends sampleJni (.array true) ∧ NoCycle (Edge sharedGraph sampleJni) (.array true) := by
  have hends : sharedGraph.Ends sampleJni (Start.call sharedGraph (.table true)) :=
    ⟨2, .array [.object [([0x61], .integer 5)], .object [([0x61], .integer 5)]], rfl⟩
  exact ⟨hends, (ends_iff_noCycle sharedGraph sampleJni (.table true) (Set.toFinite _)).mp hends⟩

/-- An object with a property that is the object itself. -/
def cyclicGraph : Graph Unit where
  kind := fun _ => .object
  length := fun _ => 0
  element := fun _ _ => .undefined
  keys := fun _ => [[0x61]]
  get := fun _ _ => .object ()

theorem not_ends_cycle :
    ¬ ∀ (ν : Type) (g : Graph ν) (J : Jni) (start : Start ν),
      {c | ReflTransGen (Edge g J) c (start.call g)}.Finite → g.Ends J (start.call g) := by
  intro hall
  have hends := hall Unit cyclicGraph sampleJni (.toJSONObject ()) (Set.toFinite _)
  have hedge : Edge cyclicGraph sampleJni (.object ()) (.object ()) :=
    edge_object.mpr ⟨[0x61], List.mem_cons_self, rfl⟩
  exact Acyclic.not_rel_self_of_acc (ends_iff_acc.mp hends) hedge

end QuickJSBridge.JsonExport
