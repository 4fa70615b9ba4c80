import QuickJSBridge.Java.TypedRead
import QuickJSBridge.Jni.ArgumentVectors
import QuickJSBridge.Jni.PayloadReads

/-!
# Parameters of annotated methods

A JS call of a method with `@JavascriptInterface` passes its arguments in a JS array. `getParameters` makes
one Java value of each element of that array, by the types of the method's parameters, and the method is
invoked by reflection.

* `getParameters`, `Method.invoke`, `call` — the steps;
* `Converted` — the value that the method should be given for a parameter: the payload of an argument of the
  parameter's kind, the default for one of another kind or for none;
* `Accepts` — the call is made, with one converted value for each parameter;
* `accepts_iff` — it is exactly when there is one argument for each parameter, and each is `Readable`.
-/

namespace QuickJSBridge.Parameters

open Arrays ArgumentVectors

variable {L : Layout}

/-! ## Methods and their parameters -/

/-- What `getGenericParameterTypes` gives for a parameter. -/
inductive ParamType where
  | int
  | integer
  | double
  | doubleBox
  | boolean
  | booleanBox
  | string
  | jsArray
  | jsObject
  | jsFunction
  -- a type that `getParameters` does not know
  | other
  deriving DecidableEq

/-- The typed getter of `JSArray` that `getParameters` calls for the type. -/
def ParamType.getter : ParamType → Option ReadType
  | .int | .integer => some .integer
  | .double | .doubleBox => some .double
  | .boolean | .booleanBox => some .boolean
  | .string => some .string
  | .jsArray => some .jsArray
  | .jsObject | .jsFunction => some .jsObject
  | .other => none

/-- Reflection can pass the value: a box is unboxed and widened, a reference is of the class or null. -/
def ParamType.takes : ParamType → JavaValue → Bool
  | .int, .integer _ => true
  | .integer, .integer _ | .integer, .null => true
  | .double, .double _ | .double, .integer _ | .double, .long _ => true
  | .doubleBox, .double _ | .doubleBox, .null => true
  | .boolean, .boolean _ => true
  | .booleanBox, .boolean _ | .booleanBox, .null => true
  | .string, .string _ | .string, .null => true
  | .jsArray, .handle h => h.cls = .jsArray
  | .jsObject, .handle h => h.cls.isJSObject
  | .jsFunction, .handle h => h.cls = .jsFunction
  | .jsArray, .null | .jsObject, .null | .jsFunction, .null => true
  | _, _ => false

inductive Failure where
  -- `new Object[args.length()]`
  | negativeArraySize
  -- `types[i]`
  | arrayIndexOutOfBounds
  -- `RuntimeException("Type error")`
  | typeError
  -- of `Method.invoke`
  | illegalArgument
  -- JNI was given what is not Modified UTF-8
  | undefinedBehaviour
  deriving DecidableEq

/-- One round of the loop of `getParameters`, and what it leaves pending. -/
def getParameter (E : Engine L) (slot : Slot) (type : ParamType) (v : JSVal L) : Except Failure JavaValue × Slot :=
  match type.getter with
  | none => (.error .typeError, slot)
  | some T =>
    (match read E slot T v .arrayGet with
      | .returned x => .ok x
      -- a typed getter of `JSArray` has no other outcome
      | _ => .error .undefinedBehaviour, (E.toJObject T.code slot v).2)

/-- The loop of `getParameters` from index `i` on, with `k` rounds to go. A conversion may run user code, so
the heap is given for each round. -/
def getParametersFrom (E : Nat → Engine L) (S : Setting L (JSVal L)) (types : List ParamType)
    (args : ArrayObj L (JSVal L)) : Nat → Nat → Slot → Except Failure (List JavaValue)
  | 0, _, _ => .ok []
  | k + 1, i, slot =>
    match types[i]? with
    | none => .error .arrayIndexOutOfBounds
    | some type =>
      match getParameter (E i) slot type (getPropertyUint32 S args i) with
      | (.error e, _) => .error e
      | (.ok x, slot) => (getParametersFrom E S types args k (i + 1) slot).map (x :: ·)

/-- `JSObject.getParameters` -/
def getParameters (E : Nat → Engine L) (S : Setting L (JSVal L)) (slot : Slot) (types : List ParamType)
    (args : ArrayObj L (JSVal L)) : Except Failure (List JavaValue) :=
  let length := (getArrayLength args).toInt
  if length < 0 then .error .negativeArraySize
  else getParametersFrom E S types args length.toNat 0 slot

/-- `Method.invoke`, up to the call of the method with the values. -/
def invoke (types : List ParamType) (objects : List JavaValue) : Except Failure (List JavaValue) :=
  if objects.length = types.length ∧ (types.zip objects).all fun p => p.1.takes p.2 then .ok objects
  else .error .illegalArgument

/-- The array that `callJavaCallback` makes of the arguments of a call. -/
def argsOf (S : Setting L (JSVal L)) (argv : List (JSVal L)) : ArrayObj L (JSVal L) := fillArgs S 0 argv newArray

/-- A JS call of the method with the arguments `argv`: what the method is invoked with. -/
def call (E : Nat → Engine L) (S : Setting L (JSVal L)) (slot : Slot) (types : List ParamType)
    (argv : List (JSVal L)) : Except Failure (List JavaValue) :=
  match getParameters E S slot types (argsOf S argv) with
  | .error e => .error e
  | .ok objects => invoke types objects

/-! ## The property -/

/-- The argument is of the kind of the type. A number is an int if its value is one. -/
def OfKind (E : Engine L) : ParamType → JSVal L → Prop
  | .int, v | .integer, v => ∃ i, v.double? = some (float64OfInt32 i)
  | .double, v | .doubleBox, v => v.double?.isSome
  | .boolean, v | .booleanBox, v => ∃ b, v = .bool b
  | .string, v => ∃ p, v = .string p
  | .jsArray, v => ∃ p, v = .object p ∧ (E.object p).isArray = .array
  | .jsObject, v => ∃ p, v = .object p
  | .jsFunction, v => E.isFunction v = true
  | .other, _ => False

/-- `x` is the payload of an argument of the kind of the type; an object is passed as a handle of it. -/
def IsPayloadOf (E : Engine L) : ParamType → JSVal L → JavaValue → Prop
  | .int, v, x | .integer, v, x => ∃ i, v.double? = some (float64OfInt32 i) ∧ x = .integer i
  | .double, v, x | .doubleBox, v, x => ∃ bits, v.double? = some bits ∧ x = .double bits
  | .boolean, v, x | .booleanBox, v, x => ∃ b, v = .bool b ∧ x = .boolean b
  | .string, v, x => ∃ p, v = .string p ∧ x = .string (E.string p)
  | .jsArray, v, x | .jsObject, v, x | .jsFunction, v, x => ∃ h, x = .handle h ∧ h.fields = javaFields v.raw
  | .other, _, _ => False

/-- The default of the type's getter. -/
def IsDefaultOf (type : ParamType) (x : JavaValue) : Prop := ∀ T, type.getter = some T → IsDefault T x

/-- What the method should be given for a parameter and its argument, if there is one. -/
def Converted (E : Engine L) (type : ParamType) (v? : Option (JSVal L)) (x : JavaValue) : Prop :=
  match v? with
  | none => IsDefaultOf type x
  | some v => (OfKind E type v → IsPayloadOf E type v x) ∧ (¬ OfKind E type v → IsDefaultOf type x)

/-- The array holds the arguments of the call. -/
def Holds (S : Setting L (JSVal L)) (args : ArrayObj L (JSVal L)) (argv : List (JSVal L)) : Prop :=
  0 ≤ (getArrayLength args).toInt ∧ loadArgv S args = argv

/-- The arguments reach `getParameters`, and the method is invoked with one value for each parameter, that of its
argument. -/
def Accepts (E : Nat → Engine L) (S : Setting L (JSVal L)) (slot : Slot) (types : List ParamType)
    (argv : List (JSVal L)) : Prop :=
  Holds S (argsOf S argv) argv ∧
    ∃ xs, call E S slot types argv = .ok xs ∧ xs.length = types.length ∧
      ∀ i type x, types[i]? = some type → xs[i]? = some x → Converted (E i) type argv[i]? x

/-! ## The condition -/

/-- The argument can be read for a parameter of the type. -/
def Readable (E : Engine L) : ParamType → JSVal L → Prop
  -- an int, or a low word 0 that belongs to no other int
  | .int, v | .integer, v =>
    (∃ i, v = .int i) ∨ v.raw.getInt = 0 ∧ ∀ i, v.double? = some (float64OfInt32 i) → i = 0
  | .double, v | .doubleBox, v => v.double?.isSome ∨ v = .undefined ∨ (E.toFloat64 none v).1 = 0
  | .boolean, v | .booleanBox, v => (∃ b, v = .bool b) ∨ Engine.jboolean v.raw.getInt = false
  -- a plain string, or a value whose conversion throws
  | .string, v =>
    v = .undefined ∨ v = .null ∨ (E.toText none v).1 = none ∨ ∃ p, v = .string p ∧ StringTrips.Plain (E.string p)
  | .jsArray, v => ∀ p, v = .object p → (E.object p).isArray ≠ .revoked
  | .jsObject, _ => True
  | .jsFunction, v =>
    v ≠ .undefined ∧ ∀ p, v = .object p → (E.object p).isArray = .notArray ∧ (E.object p).isFunction = true
  | .other, _ => False

/-- There is one argument for each parameter, which can be read. -/
def Acceptable (E : Nat → Engine L) (types : List ParamType) (argv : List (JSVal L)) : Prop :=
  argv.length = types.length ∧
    ∀ i type v, types[i]? = some type → argv[i]? = some v → Readable (E i) type v

/-! ## Ints stored as doubles -/

/-- Below its leading bit an integer has fewer trailing zeros than the low word of its double. -/
theorem low_ne {m k r w : Nat} (hk : k ≤ 31) (hm : m = 2 ^ k + r) (hr : r < 2 ^ k)
    (hw : w = r * 2 ^ (52 - k) % 2 ^ 32) : ¬ 2 ^ 32 ∣ w + m ∧ w ≠ m := by
  have hlow : ∀ j, 2 ^ j ∣ r → j < k → 2 ^ (j + 1) ∣ w := by
    intro j hj hjk
    have hmul : 2 ^ (j + 1) ∣ r * 2 ^ (52 - k) := by
      rw [pow_succ]
      exact Nat.mul_dvd_mul hj (dvd_pow_self 2 (by omega))
    rw [hw, Nat.dvd_mod_iff (pow_dvd_pow 2 (by omega))]
    exact hmul
  -- the equation would make every power up to the leading bit divide `r`
  have hzero : (∀ j, j < k → 2 ^ (j + 1) ∣ w → 2 ^ (j + 1) ∣ m) → r = 0 := by
    intro hstep
    have hall : ∀ j, j ≤ k → 2 ^ j ∣ r := by
      intro j
      induction j with
      | zero => exact fun _ => Nat.one_dvd r
      | succ j ih =>
        intro hj
        have hdvd := hstep j hj (hlow j (ih (by omega)) hj)
        rw [hm] at hdvd
        exact (Nat.dvd_add_right (pow_dvd_pow 2 hj)).mp hdvd
    exact Nat.eq_zero_of_dvd_of_lt (hall k (Nat.le_refl k)) hr
  have hpos : 0 < 2 ^ k := Nat.two_pow_pos k
  have hlt : 2 ^ k < 2 ^ 32 := Nat.pow_lt_pow_right (by decide) (by omega)
  constructor
  · intro hsum
    have hr0 : r = 0 := hzero fun j hj hdvd =>
      (Nat.dvd_add_right hdvd).mp ((pow_dvd_pow 2 (by omega)).trans hsum)
    rw [hw, hm, hr0] at hsum
    have hle := Nat.le_of_dvd (by omega) hsum
    omega
  · intro heq
    have hr0 : r = 0 := hzero fun j _ hdvd => heq ▸ hdvd
    rw [hw, hm, hr0] at heq
    omega

theorem getInt_float64OfInt32 (i : BitVec 32) :
    (JSVal.float64 (L := L) (float64OfInt32 i)).raw.getInt = (float64OfInt32 i).setWidth 32 := by
  rw [getInt_float64, isNaNBits_float64OfInt32]
  cases L <;> rfl

/-- The low word of an int stored as a double is not that int, unless it is 0. -/
theorem eq_zero_of_low {i : BitVec 32} (h : (float64OfInt32 i).setWidth 32 = i) : i = 0 := by
  by_contra hi
  obtain ⟨s, hs, hbits⟩ := toNat_float64OfInt32 i
  have hnat := congrArg BitVec.toNat h
  rw [BitVec.toNat_setWidth, hbits] at hnat
  have hne : i.toInt.natAbs ≠ 0 := fun h0 => hi (BitVec.eq_of_toInt_eq (Int.natAbs_eq_zero.mp h0))
  have hint : i.toInt = if 2 * i.toNat < 2 ^ 32 then (i.toNat : Int) else i.toNat - (2 ^ 32 : Nat) := i.toInt_eq_toNat_cond
  generalize hm : i.toInt.natAbs = m at *
  have hle : m ≤ 2 ^ 31 := by
    have := i.isLt
    split at hint <;> omega
  have hlog := Nat.log2_self_le hne
  have hlog' : m < 2 ^ (m.log2 + 1) := Nat.lt_log2_self
  have hk : m.log2 ≤ 31 := by
    by_contra hk
    have : 2 ^ 32 ≤ 2 ^ m.log2 := Nat.pow_le_pow_right (by decide) (by omega)
    omega
  have hlow := low_ne hk (m := m) (r := m - 2 ^ m.log2) (by omega) (by rw [pow_succ] at hlog'; omega) rfl
  have hw : (s + float64OfNat m) % 2 ^ 32 = (m - 2 ^ m.log2) * 2 ^ (52 - m.log2) % 2 ^ 32 := by
    unfold float64OfNat
    rw [if_neg hne]
    omega
  rw [← hw, hnat] at hlow
  have := i.isLt
  split at hint
  · exact hlow.2 (by omega)
  · exact hlow.1 ⟨1, by omega⟩

/-! ## The typed getters -/

section

variable (E : Engine L) (slot : Slot) (v : JSVal L)

theorem toFloat64_fst : (E.toFloat64 slot v).1 = (E.toFloat64 none v).1 := by
  cases v with
  | object p =>
    unfold Engine.toFloat64
    dsimp only
    cases (E.object p).toNumber <;> rfl
  | _ => rfl

theorem toText_fst : (E.toText slot v).1 = (E.toText none v).1 := by
  cases v with
  | object p =>
    unfold Engine.toText
    dsimp only
    cases (E.object p).toText <;> rfl
  | _ => rfl

theorem read_integer : read E slot .integer v .arrayGet = .returned (.integer v.raw.getInt) := by
  cases v with
  | undefined | null => cases L <;> rfl
  | _ => rfl

theorem read_boolean : read E slot .boolean v .arrayGet = .returned (.boolean (Engine.jboolean v.raw.getInt)) := by
  cases v with
  | undefined | null => cases L <;> rfl
  | _ => rfl

theorem read_double : read E slot .double v .arrayGet =
    .returned (.double (if v = .undefined then 0 else (E.toFloat64 none v).1)) := by
  rw [← toFloat64_fst E slot v]
  cases v <;> rfl

theorem read_string {v : JSVal L} (hu : v ≠ .undefined) (hn : v ≠ .null) :
    read E slot .string v .arrayGet =
      match (E.toText none v).1 with
      | none => .returned .null
      | some s =>
        if CodeUnits.hasPair (CodeUnits.beforeNul s) then .undefinedBehaviour
        else .returned (.string (CodeUnits.beforeNul s)) := by
  unfold read
  rw [show ReadType.string.code = typeString from rfl, toJObject_string E slot hu hn, toText_fst]
  cases (E.toText none v).1 with
  | none => rfl
  | some s =>
    rw [javaString_some]
    dsimp only
    cases CodeUnits.hasPair (CodeUnits.beforeNul s) <;> rfl

/-- `getArray` and `getObject` of a value that is no object, and not undefined. -/
theorem read_handle_scalar {T : ReadType} (hT : T = .jsArray ∨ T = .jsObject) {v : JSVal L} (hu : v ≠ .undefined)
    (ho : ∀ p, v ≠ .object p) : read E slot T v .arrayGet = .returned .null := by
  by_cases hn : v = .null
  · rw [hn]
    unfold read
    rw [toJObject_null]
    rcases hT with rfl | rfl <;> rfl
  · unfold read
    rw [toJObject_handle E slot hT hu hn, toJavaObject_scalar E slot hu ho]
    rcases hT with rfl | rfl <;> rfl

/-- The handle of an object is of a subclass of `JSObject`, and carries the object. -/
theorem toJavaObject_cls (p : Addr L) :
    (E.toJavaObject slot (.object p)).1.cls.isJSObject = true ∧
      ((E.toJavaObject slot (.object p)).1.cls = .jsArray ↔ (E.object p).isArray ≠ .notArray) := by
  obtain ⟨cls, hhandle, hobject, harray, _⟩ := toJavaObject_object E slot p
  rw [hhandle]
  exact ⟨hobject, harray⟩

theorem toJavaObject_jsFunction (p : Addr L) :
    (E.toJavaObject slot (.object p)).1.cls = .jsFunction ↔
      (E.object p).isArray = .notArray ∧ (E.object p).isFunction = true := by
  have htag : (JSVal.object p : JSVal L).tag = -1 := rfl
  cases hkind : (E.object p).isArray <;> cases hfun : (E.object p).isFunction <;>
    simp [Engine.toJavaObject, Engine.isArray, Engine.isFunction, createJSValue, typeJSArray, typeJSFunction,
      typeJSObject, htag, hkind, hfun]

theorem read_jsObject_object (p : Addr L) :
    read E slot .jsObject (.object p) .arrayGet = .returned (.handle (E.toJavaObject slot (.object p)).1) := by
  obtain ⟨hobject, _⟩ := toJavaObject_cls E slot p
  unfold read
  rw [toJObject_handle E slot (T := .jsObject) (Or.inr rfl) (fun h => by cases h) (fun h => by cases h)]
  have hcheck : checkType (.handle (E.toJavaObject slot (.object p)).1) typeJSObject =
      .handle (E.toJavaObject slot (.object p)).1 := if_pos (Or.inr (Or.inr ⟨rfl, hobject⟩))
  show instanceofOr .jsObject (checkType (.handle (E.toJavaObject slot (.object p)).1) typeJSObject) = _
  rw [hcheck]
  exact if_pos hobject

theorem read_jsArray_object (p : Addr L) :
    read E slot .jsArray (.object p) .arrayGet =
      .returned (if (E.object p).isArray = .notArray then .null
        else .handle (E.toJavaObject slot (.object p)).1) := by
  obtain ⟨_, harray⟩ := toJavaObject_cls E slot p
  unfold read
  rw [toJObject_handle E slot (T := .jsArray) (Or.inl rfl) (fun h => by cases h) (fun h => by cases h)]
  show instanceofOr .jsArray (checkType (.handle (E.toJavaObject slot (.object p)).1) typeJSArray) = _
  by_cases hkind : (E.object p).isArray = .notArray
  · have hcls : (E.toJavaObject slot (.object p)).1.cls ≠ .jsArray := fun h => harray.mp h hkind
    have hcheck : checkType (.handle (E.toJavaObject slot (.object p)).1) typeJSArray = .null := by
      show (if _ then _ else JavaValue.null) = _
      apply if_neg
      rintro (⟨_, h⟩ | ⟨h, _⟩ | ⟨h, _⟩)
      · exact hcls h
      · cases h
      · cases h
    rw [hcheck, if_pos hkind]
    rfl
  · have hcls := harray.mpr hkind
    have hcheck : checkType (.handle (E.toJavaObject slot (.object p)).1) typeJSArray =
        .handle (E.toJavaObject slot (.object p)).1 := if_pos (Or.inl ⟨rfl, hcls⟩)
    rw [hcheck, if_neg hkind]
    exact if_pos hcls

end

/-! ## One parameter -/

/-- The argument gives a value that the method can be invoked with, and should be. -/
def Fits (E : Engine L) (slot : Slot) (type : ParamType) (v : JSVal L) : Prop :=
  ∃ x, (getParameter E slot type v).1 = .ok x ∧ type.takes x = true ∧ Converted E type (some v) x

theorem getParameter_of_read {E : Engine L} {slot : Slot} {type : ParamType} {T : ReadType} {v : JSVal L}
    {x : JavaValue} (hT : type.getter = some T) (h : read E slot T v .arrayGet = .returned x) :
    (getParameter E slot type v).1 = .ok x := by
  unfold getParameter
  rw [hT]
  dsimp only
  rw [h]

theorem fits_of_read {E : Engine L} {slot : Slot} {type : ParamType} {T : ReadType} {v : JSVal L} {x : JavaValue}
    (hT : type.getter = some T) (h : read E slot T v .arrayGet = .returned x) :
    Fits E slot type v ↔ type.takes x = true ∧ (OfKind E type v → IsPayloadOf E type v x) ∧
      (¬ OfKind E type v → IsDefault T x) := by
  have hget := getParameter_of_read hT h
  constructor
  · rintro ⟨y, hy, htakes, hpayload, hdefault⟩
    rw [hget] at hy
    cases hy
    exact ⟨htakes, hpayload, fun hkind => hdefault hkind T hT⟩
  · rintro ⟨htakes, hpayload, hdefault⟩
    refine ⟨x, hget, htakes, hpayload, fun hkind T' hT' => ?_⟩
    rw [hT] at hT'
    cases hT'
    exact hdefault hkind

theorem float64OfInt32_eq_zero {i : BitVec 32} (h : float64OfInt32 i = float64OfInt32 0) : i = 0 := by
  apply truthy_float64OfInt32
  rw [h]
  decide

theorem fits_integer (E : Engine L) (v : JSVal L) :
    (OfKind E .int v → IsPayloadOf E .int v (.integer v.raw.getInt)) ∧
        (¬ OfKind E .int v → IsDefault .integer (.integer v.raw.getInt)) ↔ Readable E .int v := by
  by_cases hint : ∃ j, v = .int j
  · obtain ⟨j, rfl⟩ := hint
    refine ⟨fun _ => Or.inl ⟨j, rfl⟩, fun _ => ⟨fun _ => ⟨j, rfl, ?_⟩, fun hkind => absurd ⟨j, rfl⟩ hkind⟩⟩
    rw [getInt_int]
  constructor
  · rintro ⟨hpayload, hdefault⟩
    by_cases hkind : OfKind E .int v
    · obtain ⟨i, hi, hx⟩ := hpayload hkind
      have hlow : v.raw.getInt = i := JavaValue.integer.inj hx
      rcases double?_cases hi with ⟨j, hj, _⟩ | hv
      · exact absurd ⟨j, hj⟩ hint
      have hzero : i = 0 := by
        rw [hv, getInt_float64OfInt32] at hlow
        exact eq_zero_of_low hlow
      refine Or.inr ⟨hlow.trans hzero, fun j hj => ?_⟩
      rw [hi, hzero] at hj
      exact float64OfInt32_eq_zero (Option.some.inj hj).symm
    · exact Or.inr ⟨JavaValue.integer.inj (hdefault hkind), fun i hi => absurd ⟨i, hi⟩ hkind⟩
  · rintro (h | ⟨hlow, hother⟩)
    · exact absurd h hint
    · rw [hlow]
      exact ⟨fun ⟨i, hi⟩ => ⟨i, hi, by rw [hother i hi]⟩, fun _ => rfl⟩

theorem fits_double (E : Engine L) (v : JSVal L) :
    (OfKind E .double v →
          IsPayloadOf E .double v (.double (if v = .undefined then 0 else (E.toFloat64 none v).1))) ∧
        (¬ OfKind E .double v →
          IsDefault .double (.double (if v = .undefined then 0 else (E.toFloat64 none v).1))) ↔
      Readable E .double v := by
  cases hnum : v.double? with
  | some bits =>
    have hkind : OfKind E .double v := by
      show v.double?.isSome = true
      rw [hnum]
      rfl
    refine ⟨fun _ => Or.inl hkind, fun _ => ⟨fun _ => ⟨bits, hnum, ?_⟩, fun h => absurd hkind h⟩⟩
    rcases double?_cases hnum with ⟨i, rfl, hi⟩ | rfl
    · rw [← hi]
      rfl
    · rfl
  | none =>
    have hkind : ¬ OfKind E .double v := by
      show ¬ v.double?.isSome = true
      rw [hnum]
      exact Bool.false_ne_true
    by_cases hu : v = .undefined
    · rw [if_pos hu]
      exact ⟨fun _ => Or.inr (Or.inl hu), fun _ => ⟨fun h => absurd h hkind, fun _ => rfl⟩⟩
    · rw [if_neg hu]
      constructor
      · rintro ⟨_, hdefault⟩
        exact Or.inr (Or.inr (JavaValue.double.inj (hdefault hkind)))
      · rintro (h | h | h)
        · exact absurd h hkind
        · exact absurd h hu
        · rw [h]
          exact ⟨fun h => absurd h hkind, fun _ => rfl⟩

theorem fits_boolean (E : Engine L) (v : JSVal L) :
    (OfKind E .boolean v → IsPayloadOf E .boolean v (.boolean (Engine.jboolean v.raw.getInt))) ∧
        (¬ OfKind E .boolean v → IsDefault .boolean (.boolean (Engine.jboolean v.raw.getInt))) ↔
      Readable E .boolean v := by
  by_cases hkind : OfKind E .boolean v
  · obtain ⟨b, rfl⟩ := hkind
    refine ⟨fun _ => Or.inl ⟨b, rfl⟩, fun _ => ⟨fun _ => ⟨b, rfl, ?_⟩, fun h => absurd ⟨b, rfl⟩ h⟩⟩
    rw [jboolean_getInt_bool]
  · constructor
    · rintro ⟨_, hdefault⟩
      exact Or.inr (JavaValue.boolean.inj (hdefault hkind))
    · rintro (h | h)
      · exact absurd h hkind
      · rw [h]
        exact ⟨fun h => absurd h hkind, fun _ => rfl⟩

theorem not_fits_of_read {E : Engine L} {slot : Slot} {type : ParamType} {T : ReadType} {v : JSVal L}
    (hT : type.getter = some T) (h : read E slot T v .arrayGet = .undefinedBehaviour) : ¬ Fits E slot type v := by
  rintro ⟨x, hx, _⟩
  unfold getParameter at hx
  rw [hT] at hx
  dsimp only at hx
  rw [h] at hx
  cases hx

/-- Of what has a text only a plain string is readable. -/
theorem readable_string_iff {E : Engine L} {v : JSVal L} {s : Text} (hu : v ≠ .undefined) (hn : v ≠ .null)
    (htext : (E.toText none v).1 = some s) :
    Readable E .string v ↔ ∃ p, v = .string p ∧ StringTrips.Plain (E.string p) := by
  refine ⟨fun h => ?_, fun h => Or.inr (Or.inr (Or.inr h))⟩
  rcases h with h | h | h | h
  · exact absurd h hu
  · exact absurd h hn
  · rw [htext] at h
    cases h
  · exact h

/-- The text of a value arrives in Java cut at its first U+0000, and it is the string itself only if that is plain. -/
theorem fits_string_of_text {E : Engine L} {slot : Slot} {v : JSVal L} {s : Text} (hu : v ≠ .undefined)
    (hn : v ≠ .null) (htext : (E.toText none v).1 = some s) :
    Fits E slot .string v ↔ ∃ p, v = .string p ∧ StringTrips.Plain (E.string p) := by
  have hread := read_string E slot hu hn
  rw [htext] at hread
  dsimp only at hread
  cases hpair : CodeUnits.hasPair (CodeUnits.beforeNul s) with
  | true =>
    rw [hpair] at hread
    refine ⟨fun h => absurd h (not_fits_of_read (T := .string) rfl hread), ?_⟩
    rintro ⟨p, rfl, hplain⟩
    rw [← Option.some.inj htext, CodeUnits.beforeNul_eq_self_iff.mpr hplain.1, hplain.2] at hpair
    cases hpair
  | false =>
    rw [hpair] at hread
    rw [fits_of_read (T := .string) rfl hread]
    constructor
    · rintro ⟨_, hpayload, hdefault⟩
      by_cases hkind : OfKind E .string v
      · obtain ⟨p, rfl, hx⟩ := hpayload hkind
        have hs : s = E.string p := (Option.some.inj htext).symm
        have hfull : CodeUnits.beforeNul s = s := (JavaValue.string.inj hx).trans hs.symm
        rw [hfull] at hpair
        refine ⟨p, rfl, ?_⟩
        rw [← hs]
        exact ⟨CodeUnits.beforeNul_eq_self_iff.mp hfull, hpair⟩
      · cases hdefault hkind
    · rintro ⟨p, rfl, hplain⟩
      have hs : s = E.string p := (Option.some.inj htext).symm
      refine ⟨rfl, fun _ => ⟨p, rfl, ?_⟩, fun h => absurd ⟨p, rfl⟩ h⟩
      rw [hs, CodeUnits.beforeNul_eq_self_iff.mpr hplain.1]

theorem fits_string (E : Engine L) (slot : Slot) (v : JSVal L) : Fits E slot .string v ↔ Readable E .string v := by
  by_cases hu : v = .undefined
  · rw [hu, fits_of_read (T := .string) rfl rfl]
    exact ⟨fun _ => Or.inl rfl, fun _ => ⟨rfl, fun ⟨_, h⟩ => (by cases h), fun _ => rfl⟩⟩
  by_cases hn : v = .null
  · rw [hn, fits_of_read (T := .string) rfl rfl]
    exact ⟨fun _ => Or.inr (Or.inl rfl), fun _ => ⟨rfl, fun ⟨_, h⟩ => (by cases h), fun _ => rfl⟩⟩
  cases htext : (E.toText none v).1 with
  | some s => rw [fits_string_of_text hu hn htext, readable_string_iff hu hn htext]
  | none =>
    have hread := read_string E slot hu hn
    rw [htext] at hread
    rw [fits_of_read (T := .string) rfl hread]
    refine ⟨fun _ => Or.inr (Or.inr (Or.inl htext)), fun _ => ⟨rfl, ?_, fun _ => rfl⟩⟩
    rintro ⟨p, rfl⟩
    cases htext

/-- A value that is no object gives null for an object type, and null is its default. -/
theorem fits_scalar (E : Engine L) (slot : Slot) {type : ParamType} {v : JSVal L}
    (htype : type = .jsArray ∨ type = .jsObject ∨ type = .jsFunction) (hu : v ≠ .undefined)
    (ho : ∀ p, v ≠ .object p) : Fits E slot type v := by
  have hkind : ¬ OfKind E type v := by
    rcases htype with rfl | rfl | rfl
    · exact fun ⟨p, hp, _⟩ => ho p hp
    · exact fun ⟨p, hp⟩ => ho p hp
    · intro h
      cases v with
      | object p => exact ho p rfl
      | _ => cases h
  obtain ⟨T, hT, hget⟩ : ∃ T, (T = .jsArray ∨ T = .jsObject) ∧ type.getter = some T := by
    rcases htype with rfl | rfl | rfl
    · exact ⟨_, Or.inl rfl, rfl⟩
    · exact ⟨_, Or.inr rfl, rfl⟩
    · exact ⟨_, Or.inr rfl, rfl⟩
  rw [fits_of_read hget (read_handle_scalar E slot hT hu ho)]
  refine ⟨?_, fun h => absurd h hkind, fun _ => ?_⟩
  · rcases htype with rfl | rfl | rfl <;> rfl
  · rcases hT with rfl | rfl
    · exact rfl
    · exact Or.inl rfl

theorem fits_jsArray (E : Engine L) (slot : Slot) (v : JSVal L) :
    Fits E slot .jsArray v ↔ Readable E .jsArray v := by
  by_cases ho : ∃ p, v = .object p
  · obtain ⟨p, rfl⟩ := ho
    obtain ⟨_, harray⟩ := toJavaObject_cls E slot p
    have hreadable : Readable E .jsArray (.object p) ↔ (E.object p).isArray ≠ .revoked :=
      ⟨fun h => h p rfl, fun h q hq => by cases hq; exact h⟩
    rw [fits_of_read (T := .jsArray) rfl (read_jsArray_object E slot p), hreadable]
    cases hkind : (E.object p).isArray with
    | notArray =>
      refine ⟨fun _ h => ArrayTest.noConfusion h, fun _ => ⟨rfl, ?_, fun _ => rfl⟩⟩
      rintro ⟨q, hq, harr⟩
      cases hq
      rw [hkind] at harr
      cases harr
    | array =>
      have hcls := harray.mpr (by rw [hkind]; exact ArrayTest.noConfusion)
      refine ⟨fun _ h => ArrayTest.noConfusion h, fun _ => ⟨decide_eq_true hcls, fun _ => ?_, fun h => ?_⟩⟩
      · exact ⟨_, rfl, toJavaObject_fields E slot _⟩
      · exact absurd ⟨p, rfl, hkind⟩ h
    | revoked =>
      refine ⟨fun h _ => ?_, fun h => absurd rfl h⟩
      have hnot : ¬ OfKind E .jsArray (.object p) := by
        rintro ⟨q, hq, harr⟩
        cases hq
        rw [hkind] at harr
        cases harr
      cases h.2.2 hnot
  · have ho : ∀ p, v ≠ .object p := fun p hp => ho ⟨p, hp⟩
    have hreadable : Readable E .jsArray v := fun p hp => absurd hp (ho p)
    refine ⟨fun _ => hreadable, fun _ => ?_⟩
    by_cases hu : v = .undefined
    · rw [hu, fits_of_read (T := .jsArray) rfl rfl]
      exact ⟨rfl, fun ⟨_, h, _⟩ => (by cases h), fun _ => rfl⟩
    · exact fits_scalar E slot (Or.inl rfl) hu ho

theorem fits_jsObject (E : Engine L) (slot : Slot) (v : JSVal L) : Fits E slot .jsObject v := by
  by_cases hu : v = .undefined
  · rw [hu, fits_of_read (T := .jsObject) rfl rfl]
    exact ⟨rfl, fun ⟨_, h⟩ => (by cases h), fun _ => Or.inr ⟨_, rfl⟩⟩
  by_cases ho : ∃ p, v = .object p
  · obtain ⟨p, rfl⟩ := ho
    rw [fits_of_read (T := .jsObject) rfl (read_jsObject_object E slot p)]
    exact ⟨(toJavaObject_cls E slot p).1, fun _ => ⟨_, rfl, toJavaObject_fields E slot _⟩,
      fun h => absurd ⟨p, rfl⟩ h⟩
  · exact fits_scalar E slot (Or.inr (Or.inl rfl)) hu fun p hp => ho ⟨p, hp⟩

/-- `getParameters` reads a function as an object, and reflection wants a `JSFunction`. -/
theorem fits_jsFunction (E : Engine L) (slot : Slot) (v : JSVal L) :
    Fits E slot .jsFunction v ↔ Readable E .jsFunction v := by
  by_cases hu : v = .undefined
  · rw [hu, fits_of_read (T := .jsObject) rfl rfl]
    exact ⟨fun h => (by cases h.1), fun h => absurd rfl h.1⟩
  by_cases ho : ∃ p, v = .object p
  · obtain ⟨p, rfl⟩ := ho
    have hcls := toJavaObject_jsFunction E slot p
    rw [fits_of_read (T := .jsObject) rfl (read_jsObject_object E slot p)]
    constructor
    · rintro ⟨htakes, _⟩
      refine ⟨hu, fun q hq => ?_⟩
      cases hq
      exact hcls.mp (of_decide_eq_true htakes)
    · rintro ⟨_, h⟩
      have hfun := h p rfl
      exact ⟨decide_eq_true (hcls.mpr hfun), fun _ => ⟨_, rfl, toJavaObject_fields E slot _⟩,
        fun hkind => absurd hfun.2 hkind⟩
  · have ho : ∀ p, v ≠ .object p := fun p hp => ho ⟨p, hp⟩
    exact ⟨fun _ => ⟨hu, fun p hp => absurd hp (ho p)⟩,
      fun _ => fits_scalar E slot (Or.inr (Or.inr rfl)) hu ho⟩

/-- **One parameter.** The argument gives the value that the method should get iff it is readable. -/
theorem fits_iff (E : Engine L) (slot : Slot) (type : ParamType) (v : JSVal L) :
    Fits E slot type v ↔ Readable E type v := by
  cases type with
  | int | integer =>
    rw [fits_of_read (T := .integer) rfl (read_integer E slot v)]
    exact (and_iff_right rfl).trans (fits_integer E v)
  | double | doubleBox =>
    rw [fits_of_read (T := .double) rfl (read_double E slot v)]
    exact (and_iff_right rfl).trans (fits_double E v)
  | boolean | booleanBox =>
    rw [fits_of_read (T := .boolean) rfl (read_boolean E slot v)]
    exact (and_iff_right rfl).trans (fits_boolean E v)
  | string => exact fits_string E slot v
  | jsArray => exact fits_jsArray E slot v
  | jsObject => exact ⟨fun _ => trivial, fun _ => fits_jsObject E slot v⟩
  | jsFunction => exact fits_jsFunction E slot v
  | other => exact ⟨fun ⟨_, h, _⟩ => (by cases h), fun h => h.elim⟩

/-! ## The loop -/

section

variable {E : Nat → Engine L} {S : Setting L (JSVal L)} {types : List ParamType} {args : ArrayObj L (JSVal L)}

/-- The value of round `i` is `x`, whatever was pending then. -/
def Round (E : Nat → Engine L) (S : Setting L (JSVal L)) (types : List ParamType) (args : ArrayObj L (JSVal L))
    (i : Nat) (x : JavaValue) : Prop :=
  ∃ type slot, types[i]? = some type ∧ (getParameter (E i) slot type (getPropertyUint32 S args i)).1 = .ok x

theorem getParametersFrom_succ {k i : Nat} {slot : Slot} {xs : List JavaValue} :
    getParametersFrom E S types args (k + 1) i slot = .ok xs ↔
      ∃ type x slot' rest, types[i]? = some type ∧
        getParameter (E i) slot type (getPropertyUint32 S args i) = (.ok x, slot') ∧
        getParametersFrom E S types args k (i + 1) slot' = .ok rest ∧ xs = x :: rest := by
  rw [getParametersFrom]
  cases htype : types[i]? with
  | none => simp
  | some type =>
    dsimp only
    cases hget : getParameter (E i) slot type (getPropertyUint32 S args i) with
    | mk result slot' =>
      cases result with
      | error e => simp [hget]
      | ok x =>
        cases hrest : getParametersFrom E S types args k (i + 1) slot' with
        | error e => simp [hget, hrest, Except.map]
        | ok rest => simp [hget, hrest, Except.map, eq_comm]

/-- The loop makes one value a round. -/
theorem rounds_of_getParametersFrom {k i : Nat} {slot : Slot} {xs : List JavaValue}
    (h : getParametersFrom E S types args k i slot = .ok xs) :
    xs.length = k ∧ ∀ j x, xs[j]? = some x → Round E S types args (i + j) x := by
  induction k generalizing i slot xs with
  | zero =>
    cases h
    exact ⟨rfl, fun j x hx => by simp at hx⟩
  | succ k ih =>
    obtain ⟨type, x, slot', rest, htype, hget, hrest, rfl⟩ := getParametersFrom_succ.mp h
    obtain ⟨hlength, hrounds⟩ := ih hrest
    refine ⟨by rw [List.length_cons, hlength], fun j y hy => ?_⟩
    cases j with
    | zero =>
      cases hy
      exact ⟨type, slot, htype, by rw [Nat.add_zero, hget]⟩
    | succ j =>
      rw [Nat.add_succ, ← Nat.succ_add]
      exact hrounds j y hy

/-- The loop comes to its end if every round gives a value, whatever is pending. -/
theorem exists_getParametersFrom {k i : Nat} (slot : Slot) (hlength : i + k ≤ types.length)
    (hround : ∀ j type slot, j < i + k → types[j]? = some type →
      ∃ x, (getParameter (E j) slot type (getPropertyUint32 S args j)).1 = .ok x) :
    ∃ xs, getParametersFrom E S types args k i slot = .ok xs := by
  induction k generalizing i slot with
  | zero => exact ⟨[], rfl⟩
  | succ k ih =>
    have htype : types[i]? = some types[i] := List.getElem?_eq_getElem (by omega)
    obtain ⟨x, hx⟩ := hround i _ slot (by omega) htype
    obtain ⟨rest, hrest⟩ := ih (i := i + 1) (getParameter (E i) slot types[i] (getPropertyUint32 S args i)).2
      (by omega) fun j type slot hj => hround j type slot (by omega)
    exact ⟨x :: rest, getParametersFrom_succ.mpr ⟨_, x, _, rest, htype, Prod.ext hx rfl, hrest, rfl⟩⟩

end

/-! ## The call -/

section

variable {S : Setting L (JSVal L)} {args : ArrayObj L (JSVal L)} {argv : List (JSVal L)}

theorem Holds.length (h : Holds S args argv) : (getArrayLength args).toInt = argv.length := by
  have hlength := congrArg List.length h.2
  unfold loadArgv at hlength
  rw [List.length_map, List.length_range] at hlength
  have hnonneg := h.1
  omega

theorem Holds.element (h : Holds S args argv) {i : Nat} {v : JSVal L} (hv : argv[i]? = some v) :
    getPropertyUint32 S args i = v := by
  rw [← h.2] at hv
  unfold loadArgv at hv
  rw [List.getElem?_map] at hv
  obtain ⟨j, hj, hjv⟩ := Option.map_eq_some_iff.mp hv
  obtain ⟨hlt, hij⟩ := List.getElem?_eq_some_iff.mp hj
  rw [List.getElem_range] at hij
  rw [hij]
  exact hjv

/-- `callJavaCallback` stores the arguments, unless the prototypes have a setter or a read-only property at one
of the indices. -/
theorem holds_of_free (hfree : ∀ i < argv.length, free S i = true) (hlt : argv.length < 2 ^ 31) :
    Holds S (argsOf S argv) argv := by
  have hdense : Dense (argsOf S argv) argv :=
    fillArgs_dense (fun i hi => hfree i (by simpa using hi)) dense_newArray (by rw [List.length_nil]; omega)
  refine ⟨?_, loadArgv_dense hdense hlt⟩
  rw [toInt_getArrayLength hdense hlt]
  exact Int.natCast_nonneg _

end

theorem takes_of_all {types : List ParamType} {xs : List JavaValue}
    (h : ((types.zip xs).all fun p => p.1.takes p.2) = true) {i : Nat} {type : ParamType} {x : JavaValue}
    (htype : types[i]? = some type) (hx : xs[i]? = some x) : type.takes x = true := by
  have hmem : (type, x) ∈ types.zip xs := by
    have hzip : (types.zip xs)[i]? = some (type, x) := List.getElem?_zip_eq_some.mpr ⟨htype, hx⟩
    exact List.mem_of_getElem? hzip
  exact List.all_eq_true.mp h _ hmem

theorem all_of_takes {types : List ParamType} {xs : List JavaValue}
    (h : ∀ (i : Nat) (type : ParamType) (x : JavaValue), types[i]? = some type → xs[i]? = some x →
      type.takes x = true) :
    ((types.zip xs).all fun p => p.1.takes p.2) = true := by
  rw [List.all_eq_true]
  intro p hp
  obtain ⟨i, hi⟩ := List.mem_iff_getElem?.mp hp
  rw [List.getElem?_zip_eq_some] at hi
  exact h i p.1 p.2 hi.1 hi.2

/-- The call is made iff the loop makes a value for each parameter that the parameter takes. -/
theorem call_ok {E : Nat → Engine L} {S : Setting L (JSVal L)} {slot : Slot} {types : List ParamType}
    {argv : List (JSVal L)} {xs : List JavaValue} (hholds : Holds S (argsOf S argv) argv) :
    call E S slot types argv = .ok xs ↔
      getParametersFrom E S types (argsOf S argv) argv.length 0 slot = .ok xs ∧ xs.length = types.length ∧
        ∀ (i : Nat) (type : ParamType) (x : JavaValue), types[i]? = some type → xs[i]? = some x →
          type.takes x = true := by
  have hlength := hholds.length
  have hparams : getParameters E S slot types (argsOf S argv) =
      getParametersFrom E S types (argsOf S argv) argv.length 0 slot := by
    unfold getParameters
    dsimp only
    rw [hlength, if_neg (by omega), Int.toNat_natCast]
  unfold call
  rw [hparams]
  cases getParametersFrom E S types (argsOf S argv) argv.length 0 slot with
  | error e => exact ⟨fun h => (by cases h), fun h => (by cases h.1)⟩
  | ok objects =>
    dsimp only
    unfold invoke
    split
    · rename_i hall
      constructor
      · intro h
        cases h
        exact ⟨rfl, hall.1, fun i type x htype hx => takes_of_all hall.2 htype hx⟩
      · exact fun h => h.1
    · rename_i hall
      refine ⟨fun h => (by cases h), fun ⟨h, hlen, htakes⟩ => ?_⟩
      cases h
      exact absurd ⟨hlen, all_of_takes htakes⟩ hall

theorem accepts_iff_of_holds {E : Nat → Engine L} {S : Setting L (JSVal L)} {slot : Slot} {types : List ParamType}
    {argv : List (JSVal L)} (hholds : Holds S (argsOf S argv) argv) :
    Accepts E S slot types argv ↔ Acceptable E types argv := by
  constructor
  · rintro ⟨_, xs, hcall, hxs, hconverted⟩
    obtain ⟨hloop, _, htakes⟩ := (call_ok hholds).mp hcall
    obtain ⟨hlength, hrounds⟩ := rounds_of_getParametersFrom hloop
    refine ⟨by omega, fun i type v htype hv => ?_⟩
    have hi : i < xs.length := hlength ▸ (List.getElem?_eq_some_iff.mp hv).1
    have hx : xs[i]? = some xs[i] := List.getElem?_eq_getElem hi
    obtain ⟨type', slot', htype', hget⟩ := hrounds i _ hx
    rw [Nat.zero_add] at htype' hget
    rw [htype] at htype'
    cases htype'
    rw [hholds.element hv] at hget
    have hconv := hconverted i type _ htype hx
    rw [hv] at hconv
    exact (fits_iff (E i) slot' type v).mp ⟨_, hget, htakes i type _ htype hx, hconv⟩
  · rintro ⟨hlength, hreadable⟩
    -- what round `i` gives, whatever is pending
    have hfits : ∀ i type slot, types[i]? = some type →
        Fits (E i) slot type (getPropertyUint32 S (argsOf S argv) i) ∧
          argv[i]? = some (getPropertyUint32 S (argsOf S argv) i) := by
      intro i type slot htype
      have hi : i < argv.length := hlength ▸ (List.getElem?_eq_some_iff.mp htype).1
      have hv : argv[i]? = some argv[i] := List.getElem?_eq_getElem hi
      rw [hholds.element hv]
      exact ⟨(fits_iff (E i) slot type _).mpr (hreadable i type _ htype hv), hv⟩
    obtain ⟨xs, hloop⟩ : ∃ xs, getParametersFrom E S types (argsOf S argv) argv.length 0 slot = .ok xs :=
      exists_getParametersFrom slot (by omega) fun j type slot _ htype => (hfits j type slot htype).1.imp fun _ h => h.1
    obtain ⟨hxs, hrounds⟩ := rounds_of_getParametersFrom hloop
    have hround : ∀ (i : Nat) (type : ParamType) (x : JavaValue), types[i]? = some type → xs[i]? = some x →
        type.takes x = true ∧ Converted (E i) type argv[i]? x := by
      intro i type x htype hx
      obtain ⟨type', slot', htype', hget⟩ := hrounds i x hx
      rw [Nat.zero_add] at htype' hget
      rw [htype] at htype'
      cases htype'
      obtain ⟨⟨y, hy, htakes, hconv⟩, hv⟩ := hfits i type slot' htype
      rw [hget] at hy
      cases hy
      rw [hv]
      exact ⟨htakes, hconv⟩
    refine ⟨hholds, xs, (call_ok hholds).mpr ⟨hloop, by omega, fun i type x htype hx => ?_⟩, by omega, ?_⟩
    · exact (hround i type x htype hx).1
    · exact fun i type x htype hx => (hround i type x htype hx).2

/-- **Parameters.** A call is made with one converted value for each parameter iff its arguments reach
`getParameters`, there is one for each parameter, and each can be read for its parameter. -/
theorem accepts_iff (E : Nat → Engine L) (S : Setting L (JSVal L)) (slot : Slot) (types : List ParamType)
    (argv : List (JSVal L)) :
    Accepts E S slot types argv ↔ Holds S (argsOf S argv) argv ∧ Acceptable E types argv :=
  ⟨fun h => ⟨h.1, (accepts_iff_of_holds h.1).mp h⟩, fun h => (accepts_iff_of_holds h.1).mpr h.2⟩

/-- Under the setting that the engine starts with, only the second part can fail. -/
theorem accepts_iff_of_free {E : Nat → Engine L} {S : Setting L (JSVal L)} {slot : Slot} {types : List ParamType}
    {argv : List (JSVal L)} (hfree : ∀ i < argv.length, free S i = true) (hlt : argv.length < 2 ^ 31) :
    Accepts E S slot types argv ↔ Acceptable E types argv :=
  accepts_iff_of_holds (holds_of_free hfree hlt)

/-- No prototype has an array index as a property. -/
def plainArgs (L : Layout) : Setting L (JSVal L) := ⟨fun _ => none, fun _ a _ => a, fun _ _ => .undefined⟩

example : call (fun _ => sampleEngine .struct64) (plainArgs .struct64) none [.string, .int] [.string 0x10, .int 5] =
    .ok [.string [0x61], .integer 5] := rfl

-- undefined for a function, and one argument too many
example : call (fun _ => sampleEngine .struct64) (plainArgs .struct64) none [.jsFunction] [.undefined] =
    .error .illegalArgument := rfl

example : call (fun _ => sampleEngine .struct64) (plainArgs .struct64) none [.string] [.string 0x10, .int 5] =
    .error .arrayIndexOutOfBounds := rfl

/-- `console.log()`, where `log` has one parameter. -/
theorem not_accepts_none :
    ¬ ∀ (L : Layout) (E : Nat → Engine L) (S : Setting L (JSVal L)) (slot : Slot) (types : List ParamType)
      (argv : List (JSVal L)), (∀ type ∈ types, type ≠ .other) → (∀ i < argv.length, free S i = true) →
      argv.length < 2 ^ 31 → Accepts E S slot types argv := by
  intro hall
  obtain ⟨_, xs, hcall, _⟩ := hall .struct64 (fun _ => sampleEngine .struct64) (plainArgs .struct64) none [.string] []
    (by decide) (fun _ _ => rfl) (by decide)
  have herror : call (fun _ => sampleEngine .struct64) (plainArgs .struct64) none [.string] [] =
      .error .illegalArgument := rfl
  rw [herror] at hcall
  cases hcall

end QuickJSBridge.Parameters
