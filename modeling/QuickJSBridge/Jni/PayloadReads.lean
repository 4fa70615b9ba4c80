import Mathlib.Data.Nat.Log
import Mathlib.Logic.Equiv.Basic
import QuickJSBridge.Jni.Marshal

/-!
# What a Java scalar may depend on

`To_JObject` reads the member of the union that the requested type names. If the value has another tag,
the bits it reads are those of a pointer, or half of a double.

* `JSVal.move`, `Engine.move` — the same value and the same heap, with the cells at other addresses;
* `AddressFree` — the Java scalar is the same wherever the cells lie;
* `Numeric` — an Integer that is read from a double depends on the integer part of the number, and a
  Boolean on whether it is 0, and not on the low word;
* `SafeRead` — the pairs of a type and a value for which both hold;
* `unconfused_iff_safeRead` — the two coincide.
-/

namespace QuickJSBridge

variable {L : Layout}

/-! ## Two runs -/

def JSVal.move (ρ : Equiv.Perm (Addr L)) : JSVal L → JSVal L
  | .bigDecimal p => .bigDecimal (ρ p)
  | .bigInt p => .bigInt (ρ p)
  | .bigFloat p => .bigFloat (ρ p)
  | .symbol p => .symbol (ρ p)
  | .string p => .string (ρ p)
  | .object p => .object (ρ p)
  | .int i => .int i
  | .bool b => .bool b
  | .null => .null
  | .undefined => .undefined
  | .exception => .exception
  | .float64 bits => .float64 bits

def Engine.move (E : Engine L) (ρ : Equiv.Perm (Addr L)) : Engine L where
  object := fun p => E.object (ρ.symm p)
  string := fun p => E.string (ρ.symm p)
  bigInt := fun p => E.bigInt (ρ.symm p)
  primitiveText := fun v => E.primitiveText (v.move ρ.symm)
  parseNumber := E.parseNumber
  float64OfInt64 := E.float64OfInt64
  typeError := E.typeError

/-- What of a Java value is no address: a scalar, and the class of a handle. -/
def JavaValue.scalar : JavaValue → JavaValue
  | .handle h => .handle ⟨h.cls, ⟨0, 0, 0, 0⟩⟩
  | x => x

/-- The scalar that `To_JObject` delivers; `none` where the behaviour of JNI is undefined. -/
def Engine.scalarOf (E : Engine L) (expected : TypeCode) (slot : Slot) (v : JSVal L) :
    Option JavaValue :=
  (E.toJObject expected slot v).1.map JavaValue.scalar

/-! ## The property and the guard -/

/-- The scalar does not depend on where the cells of the heap lie. -/
def AddressFree (E : Engine L) (expected : TypeCode) (slot : Slot) (v : JSVal L) : Prop :=
  ∀ ρ : Equiv.Perm (Addr L),
    (E.move ρ).scalarOf expected slot (v.move ρ) = E.scalarOf expected slot v

def exponent (bits : BitVec 64) : Nat := bits.toNat / 2 ^ 52 % 2048

def significand (bits : BitVec 64) : Nat :=
  (if exponent bits = 0 then 0 else 2 ^ 52) + bits.toNat % 2 ^ 52

/-- The integer part of the absolute value. -/
def magnitude (bits : BitVec 64) : Nat :=
  if exponent bits < 1075 then significand bits / 2 ^ (1075 - exponent bits)
  else significand bits * 2 ^ (exponent bits - 1075)

/-- The integer part of the number, cut towards 0; an infinity and NaN have none. -/
def integerPart (bits : BitVec 64) : Option Int :=
  if exponent bits = 2047 then none
  else some (if bits.toNat / 2 ^ 63 = 1 then -(magnitude bits : Int) else magnitude bits)

/-- The number is neither 0 nor NaN. -/
def truthy (bits : BitVec 64) : Bool := !isNaNBits bits && bits.toNat % 2 ^ 63 ≠ 0

/-- The number of a value, as a double. -/
def JSVal.double? : JSVal L → Option (BitVec 64)
  | .int i => some (float64OfInt32 i)
  | .float64 bits => some bits
  | _ => none

/-- The numbers that a conversion to the type does not tell apart: equal ones, integers with one and the
same integer part, booleans that are both true. -/
def Alike (expected : TypeCode) (bits bits' : BitVec 64) : Prop :=
  numberOf (L := L) bits = numberOf bits' ∨
    (expected = typeInteger ∧ ∃ n, integerPart bits = some n ∧ integerPart bits' = some n) ∨
    (expected = typeBoolean ∧ truthy bits = true ∧ truthy bits' = true)

/-- The Integer or Boolean that is read from a double is that of every number which is alike. -/
def Numeric (E : Engine L) (expected : TypeCode) (slot : Slot) (v : JSVal L) : Prop :=
  ∀ bits, v = .float64 bits → expected = typeInteger ∨ expected = typeBoolean →
    ∀ w bits', w.double? = some bits' → Alike (L := L) expected bits' bits →
      E.scalarOf expected slot w = E.scalarOf expected slot v

structure Unconfused (E : Engine L) (expected : TypeCode) (slot : Slot) (v : JSVal L) : Prop where
  addressFree : AddressFree E expected slot v
  numeric : Numeric E expected slot v

/-- The number has one representation as a double of this layout. -/
def singleBits (L : Layout) (bits : BitVec 64) : Prop := L = .nanBox ∨ isNaNBits bits = false

/-- Neither an Integer nor a Boolean is read from a value in the heap; an Integer is read from a double
only if that has no fraction bits, and a Boolean only if it is 0 or NaN. -/
def SafeRead (expected : TypeCode) : JSVal L → Prop
  | .bigInt _ => expected ≠ typeUnknown ∧ expected ≠ typeInteger ∧ expected ≠ typeBoolean
  | .bigDecimal _ | .bigFloat _ | .symbol _ | .string _ | .object _ =>
    expected ≠ typeInteger ∧ expected ≠ typeBoolean
  | .float64 bits =>
    (expected = typeInteger → singleBits L bits ∧ 1075 ≤ exponent bits) ∧
      (expected = typeBoolean → singleBits L bits ∧ truthy bits = false)
  | _ => True

/-! ## A heap that has moved -/

theorem move_symm_move (ρ : Equiv.Perm (Addr L)) (v : JSVal L) : (v.move ρ).move ρ.symm = v := by
  cases v <;> simp [JSVal.move]

theorem tag_move (ρ : Equiv.Perm (Addr L)) (v : JSVal L) : (v.move ρ).tag = v.tag := by
  cases v <;> rfl

theorem move_of_ref?_none (ρ : Equiv.Perm (Addr L)) {v : JSVal L} (h : v.ref? = none) :
    v.move ρ = v := by
  cases v <;> first | rfl | cases h

section

variable (E : Engine L) (ρ : Equiv.Perm (Addr L)) (slot : Slot) (v : JSVal L)

theorem object_move (p : Addr L) : (E.move ρ).object (ρ p) = E.object p :=
  congrArg E.object (ρ.symm_apply_apply p)

theorem string_move (p : Addr L) : (E.move ρ).string (ρ p) = E.string p :=
  congrArg E.string (ρ.symm_apply_apply p)

theorem primitiveText_move : (E.move ρ).primitiveText (v.move ρ) = E.primitiveText v :=
  congrArg E.primitiveText (move_symm_move ρ v)

theorem isArray_move : (E.move ρ).isArray slot (v.move ρ) = E.isArray slot v := by
  cases v with
  | object p =>
    simp only [JSVal.move, Engine.isArray, object_move]
    rfl
  | _ => rfl

theorem isFunction_move : (E.move ρ).isFunction (v.move ρ) = E.isFunction v := by
  cases v with
  | object p => simp only [JSVal.move, Engine.isFunction, object_move]
  | _ => rfl

theorem toFloat64_move : (E.move ρ).toFloat64 slot (v.move ρ) = E.toFloat64 slot v := by
  cases v with
  | object p => simp only [JSVal.move, Engine.toFloat64, object_move]
  | string p =>
    show ((E.move ρ).parseNumber ((E.move ρ).string (ρ p)), slot) = _
    rw [string_move]
    rfl
  | _ => rfl

theorem toText_move : (E.move ρ).toText slot (v.move ρ) = E.toText slot v := by
  cases v with
  | object p => simp only [JSVal.move, Engine.toText, object_move]
  | string p => simp only [JSVal.move, Engine.toText, string_move]
  | symbol | exception => rfl
  | _ => exact congrArg (fun text => (some text, slot)) (primitiveText_move E ρ _)

theorem getObjectType_move : (E.move ρ).getObjectType slot (v.move ρ) = E.getObjectType slot v := by
  unfold Engine.getObjectType
  rw [isArray_move, isFunction_move]
  cases v <;> rfl

theorem toJavaObject_move : ((E.move ρ).toJavaObject slot (v.move ρ)).1.cls =
    (E.toJavaObject slot v).1.cls := by
  unfold Engine.toJavaObject
  rw [tag_move, isArray_move, isFunction_move]
  split <;> rfl

end

/-- The type code that the switch of `To_JObject` is on, and the slot at that point. -/
def Engine.switchOn (E : Engine L) (expected : TypeCode) (slot : Slot) (v : JSVal L) :
    TypeCode × Slot :=
  let (type, slot) := if expected = typeUnknown then E.getObjectType slot v else (expected, slot)
  match v with
  | .undefined => (typeUndefined, slot)
  | .null => (typeNull, slot)
  | _ => (type, slot)

/-- The scalar that a case of the switch delivers. -/
def Engine.caseScalar (E : Engine L) (type : TypeCode) (slot : Slot) (v : JSVal L) : Option JavaValue :=
  if type = typeNull then some .null
  else if type = typeInteger then some (.integer v.raw.getInt)
  else if type = typeDouble then some (.double (E.toFloat64 slot v).1)
  else if type = typeBoolean then some (.boolean (Engine.jboolean v.raw.getInt))
  else if type = typeString then (Engine.javaString (E.toText slot v).1).map JavaValue.scalar
  else if type = typeJSArray ∨ type = typeJSObject ∨ type = typeJSFunction ∨ type = typeUndefined then
    some (.handle ⟨(E.toJavaObject slot v).1.cls, ⟨0, 0, 0, 0⟩⟩)
  else some .null

theorem scalarOf_eq (E : Engine L) (expected : TypeCode) (slot : Slot) (v : JSVal L) :
    E.scalarOf expected slot v =
      E.caseScalar (E.switchOn expected slot v).1 (E.switchOn expected slot v).2 v := by
  unfold Engine.scalarOf Engine.toJObject Engine.caseScalar Engine.switchOn
  generalize (if expected = typeUnknown then E.getObjectType slot v else (expected, slot)) = ts
  obtain ⟨type, slot'⟩ := ts
  -- the scalar of the case that is taken
  dsimp only
  simp only [apply_ite Prod.fst, apply_ite (Option.map JavaValue.scalar)]
  cases v <;> rfl

theorem switchOn_move (E : Engine L) (ρ : Equiv.Perm (Addr L)) (expected : TypeCode) (slot : Slot)
    (v : JSVal L) : (E.move ρ).switchOn expected slot (v.move ρ) = E.switchOn expected slot v := by
  unfold Engine.switchOn
  rw [getObjectType_move]
  cases v <;> rfl

/-! ## Addresses -/

/-- The value is in the heap, and the switch comes to one of the two cases that read 32 bits of it. -/
def ReadsAddress (E : Engine L) (expected : TypeCode) (slot : Slot) (v : JSVal L) : Prop :=
  v.ref?.isSome ∧ ((E.switchOn expected slot v).1 = typeInteger ∨
    (E.switchOn expected slot v).1 = typeBoolean)

theorem addressFree_of_not_readsAddress {E : Engine L} {expected : TypeCode} {slot : Slot}
    {v : JSVal L} (h : ¬ ReadsAddress E expected slot v) : AddressFree E expected slot v := by
  intro ρ
  rw [scalarOf_eq, scalarOf_eq, switchOn_move]
  cases href : v.ref? with
  | none =>
    rw [move_of_ref?_none ρ href]
    cases v <;> first | rfl | cases href
  | some p =>
    have hint : (E.switchOn expected slot v).1 ≠ typeInteger :=
      fun hi => h ⟨by rw [href]; rfl, Or.inl hi⟩
    have hbool : (E.switchOn expected slot v).1 ≠ typeBoolean :=
      fun hb => h ⟨by rw [href]; rfl, Or.inr hb⟩
    unfold Engine.caseScalar
    rw [if_neg hint, if_neg hint, if_neg hbool, if_neg hbool, toFloat64_move, toText_move,
      toJavaObject_move]

theorem getInt_ref? {v : JSVal L} {p : Addr L} (h : v.ref? = some p) :
    v.raw.getInt = p.setWidth 32 := by
  have hunion : v.union = p.setWidth 64 ∧ ∀ bits, v ≠ .float64 bits := by
    cases v <;> first | cases h; exact ⟨rfl, fun _ h => by cases h⟩ | cases h
  have hwidth : (p.setWidth 64).setWidth 32 = p.setWidth 32 :=
    BitVec.setWidth_setWidth_of_le p (by decide)
  cases L with
  | struct64 =>
    show v.union.setWidth 32 = _
    rw [hunion.1, hwidth]
  | nanBox =>
    have hraw : v.raw = v.tag ++ v.union.setWidth 32 := by
      cases v with
      | float64 bits => exact absurd rfl (hunion.2 bits)
      | _ => rfl
    show (v.raw : BitVec 64).setWidth 32 = _
    rw [hraw, payload_append, hunion.1, hwidth]

theorem ref?_move (ρ : Equiv.Perm (Addr L)) (v : JSVal L) : (v.move ρ).ref? = v.ref?.map ρ := by
  cases v <;> rfl

/-- A cell can be moved so that a function which distinguishes two addresses sees the difference. -/
theorem exists_move {α : Type*} (f : BitVec 32 → α) (a b p : Addr L)
    (h : f (a.setWidth 32) ≠ f (b.setWidth 32)) :
    ∃ ρ : Equiv.Perm (Addr L), f ((ρ p).setWidth 32) ≠ f (p.setWidth 32) := by
  by_cases ha : f (a.setWidth 32) = f (p.setWidth 32)
  · exact ⟨Equiv.swap p b, by rw [Equiv.swap_apply_left, ← ha]; exact h.symm⟩
  · exact ⟨Equiv.swap p a, by rw [Equiv.swap_apply_left]; exact ha⟩

theorem not_addressFree {E : Engine L} {expected : TypeCode} {slot : Slot} {v : JSVal L}
    (h : ReadsAddress E expected slot v) : ¬ AddressFree E expected slot v := by
  intro hfree
  obtain ⟨hheap, htype⟩ := h
  obtain ⟨p, href⟩ := Option.isSome_iff_exists.mp hheap
  have hread : ∀ ρ : Equiv.Perm (Addr L), (v.move ρ).raw.getInt = (ρ p).setWidth 32 :=
    fun ρ => getInt_ref? (by rw [ref?_move, href]; rfl)
  have hsame : ∀ ρ : Equiv.Perm (Addr L), (E.move ρ).caseScalar (E.switchOn expected slot v).1
      (E.switchOn expected slot v).2 (v.move ρ) =
        E.caseScalar (E.switchOn expected slot v).1 (E.switchOn expected slot v).2 v := by
    intro ρ
    have hρ := hfree ρ
    rw [scalarOf_eq, scalarOf_eq, switchOn_move] at hρ
    exact hρ
  rcases htype with htype | htype
  · obtain ⟨ρ, hρ⟩ := exists_move id (0x10 : Addr L) 0x20 p (by cases L <;> decide)
    have hcase := hsame ρ
    rw [htype] at hcase
    have hcase : some (JavaValue.integer (v.move ρ).raw.getInt) = some (.integer v.raw.getInt) := hcase
    rw [hread, getInt_ref? href] at hcase
    exact hρ (JavaValue.integer.inj (Option.some.inj hcase))
  · obtain ⟨ρ, hρ⟩ := exists_move Engine.jboolean (0x10 : Addr L) 0x100 p (by cases L <;> decide)
    have hcase := hsame ρ
    rw [htype] at hcase
    have hcase : some (JavaValue.boolean (Engine.jboolean (v.move ρ).raw.getInt)) =
        some (.boolean (Engine.jboolean v.raw.getInt)) := hcase
    rw [hread, getInt_ref? href] at hcase
    exact hρ (JavaValue.boolean.inj (Option.some.inj hcase))

/-! ## Numbers -/

/-- The double of a natural number below `2 ^ 32`: its exponent is small, and only 0 has no bits. -/
theorem float64OfNat_bounds {m : Nat} (hm : m < 2 ^ 32) :
    float64OfNat m < 1056 * 2 ^ 52 ∧ (float64OfNat m = 0 → m = 0) := by
  unfold float64OfNat
  by_cases h0 : m = 0
  · rw [if_pos h0]
    exact ⟨by decide, fun _ => h0⟩
  · rw [if_neg h0]
    have hk : m.log2 ≤ 31 := Nat.lt_succ_iff.mp ((Nat.log2_lt h0).mpr hm)
    have hlow : 2 ^ m.log2 ≤ m := Nat.log2_self_le h0
    have hhigh : m < 2 ^ (m.log2 + 1) := Nat.lt_log2_self
    have hprod : 2 ^ m.log2 * 2 ^ (52 - m.log2) = 2 ^ 52 := by
      rw [← pow_add]
      congr 1
      omega
    have hsig : (m - 2 ^ m.log2) * 2 ^ (52 - m.log2) < 2 ^ 52 := by
      have hlt : m - 2 ^ m.log2 < 2 ^ m.log2 := by
        rw [pow_succ] at hhigh
        omega
      rw [← hprod]
      exact Nat.mul_lt_mul_of_pos_right hlt (Nat.two_pow_pos _)
    omega

theorem natAbs_toInt_lt (i : BitVec 32) : i.toInt.natAbs < 2 ^ 32 := by
  have h := i.toInt_lt
  have h' := i.le_toInt
  omega

theorem toNat_float64OfInt32 (i : BitVec 32) : ∃ s, (s = 0 ∨ s = 2 ^ 63) ∧
    (float64OfInt32 i).toNat = s + float64OfNat i.toInt.natAbs := by
  have hlt := (float64OfNat_bounds (natAbs_toInt_lt i)).1
  refine ⟨if i.toInt < 0 then 2 ^ 63 else 0, by split <;> simp, ?_⟩
  unfold float64OfInt32
  rw [BitVec.toNat_ofNat, Nat.mod_eq_of_lt]
  split <;> omega

theorem isNaNBits_float64OfInt32 (i : BitVec 32) : isNaNBits (float64OfInt32 i) = false := by
  have hlt := (float64OfNat_bounds (natAbs_toInt_lt i)).1
  obtain ⟨s, hs, hbits⟩ := toNat_float64OfInt32 i
  unfold isNaNBits
  rw [hbits, decide_eq_false_iff_not]
  omega

/-- The word that is read of a double. -/
theorem getInt_float64 (bits : BitVec 64) : (JSVal.float64 (L := L) bits).raw.getInt =
    match L with
    | .struct64 => bits.setWidth 32
    | .nanBox => (if isNaNBits bits then canonicalNaN else bits).setWidth 32 := by
  cases L with
  | struct64 => rfl
  | nanBox =>
    show ((if isNaNBits bits then canonicalNaN else bits) - float64Addend).setWidth 32 = _
    generalize (if isNaNBits bits then canonicalNaN else bits) = b
    -- the low word of `float64Addend` is 0
    have haddend : float64Addend.toNat = 0x7ff8000c * 2 ^ 32 := by decide
    apply BitVec.eq_of_toNat_eq
    have hlt := b.isLt
    rw [BitVec.toNat_setWidth, BitVec.toNat_sub, haddend, BitVec.toNat_setWidth]
    omega

theorem numberOf_inj {bits bits' : BitVec 64} (h : isNaNBits bits = false)
    (heq : numberOf (L := L) bits' = numberOf bits) : bits' = bits := by
  have heq := Denotation.number.inj heq
  rw [h, if_neg Bool.false_ne_true] at heq
  cases hnan : isNaNBits bits' with
  | true =>
    rw [hnan, if_pos rfl] at heq
    rw [← heq] at h
    cases h
  | false =>
    rw [hnan, if_neg Bool.false_ne_true] at heq
    exact heq

/-- A number is a double or an integer. -/
theorem double?_cases {w : JSVal L} {bits : BitVec 64} (h : w.double? = some bits) :
    (∃ i, w = .int i ∧ float64OfInt32 i = bits) ∨ w = .float64 bits := by
  cases w with
  | int i => exact Or.inl ⟨i, rfl, Option.some.inj h⟩
  | float64 bits' => exact Or.inr (congrArg JSVal.float64 (Option.some.inj h))
  | _ => cases h

theorem exponent_float64OfInt32 (i : BitVec 32) : exponent (float64OfInt32 i) < 1075 := by
  have hlt := (float64OfNat_bounds (natAbs_toInt_lt i)).1
  obtain ⟨s, hs, hbits⟩ := toNat_float64OfInt32 i
  unfold exponent
  rw [hbits]
  omega

theorem truthy_float64OfInt32 {i : BitVec 32} (h : truthy (float64OfInt32 i) = false) : i = 0 := by
  have hbounds := float64OfNat_bounds (natAbs_toInt_lt i)
  obtain ⟨s, hs, hbits⟩ := toNat_float64OfInt32 i
  unfold truthy at h
  rw [isNaNBits_float64OfInt32, hbits] at h
  have hzero : (s + float64OfNat i.toInt.natAbs) % 2 ^ 63 = 0 := by simpa using h
  have hm : i.toInt.natAbs = 0 := hbounds.2 (by omega)
  exact BitVec.eq_of_toInt_eq (Int.natAbs_eq_zero.mp hm)

theorem significand_lt (bits : BitVec 64) : significand bits < 2 ^ 53 := by
  have hfrac := Nat.mod_lt bits.toNat (Nat.two_pow_pos 52)
  unfold significand
  split <;> omega

/-- The integer part is below `2 ^ 52` iff there are fraction bits. -/
theorem magnitude_lt_iff (bits : BitVec 64) : magnitude bits < 2 ^ 52 ↔ exponent bits < 1075 := by
  have hsig := significand_lt bits
  unfold magnitude
  by_cases he : exponent bits < 1075
  · rw [if_pos he]
    refine ⟨fun _ => he, fun _ => ?_⟩
    rw [Nat.div_lt_iff_lt_mul (Nat.two_pow_pos _)]
    have htwo : 2 ^ 1 ≤ 2 ^ (1075 - exponent bits) := Nat.pow_le_pow_right (by decide) (by omega)
    have hmul := Nat.mul_le_mul_left (2 ^ 52) htwo
    omega
  · rw [if_neg he]
    have hge : 2 ^ 52 ≤ significand bits := by
      unfold significand
      rw [if_neg (by omega)]
      exact Nat.le_add_right _ _
    have hmul := hge.trans (Nat.le_mul_of_pos_right _ (Nat.two_pow_pos (exponent bits - 1075)))
    exact ⟨fun hlt => absurd hlt (not_lt.mpr hmul), fun h => absurd h he⟩

theorem natAbs_integerPart {bits : BitVec 64} {n : Int} (h : integerPart bits = some n) :
    n.natAbs = magnitude bits := by
  unfold integerPart at h
  split at h
  · cases h
  · rw [← Option.some.inj h]
    split <;> omega

/-- Two numbers with the same integer part have both fraction bits, or neither. -/
theorem exponent_lt_iff {bits bits' : BitVec 64} {n : Int} (h : integerPart bits = some n)
    (h' : integerPart bits' = some n) : exponent bits < 1075 ↔ exponent bits' < 1075 := by
  rw [← magnitude_lt_iff, ← magnitude_lt_iff, ← natAbs_integerPart h, ← natAbs_integerPart h']

/-- A number without fraction bits is determined by its integer part. -/
theorem integerPart_inj {bits bits' : BitVec 64} {n : Int} (h : integerPart bits = some n)
    (h' : integerPart bits' = some n) (he : 1075 ≤ exponent bits) (he' : 1075 ≤ exponent bits') :
    bits = bits' := by
  have hscale : ∀ b : BitVec 64, 1075 ≤ exponent b → 2 ^ 52 ≤ significand b ∧
      magnitude b = significand b * 2 ^ (exponent b - 1075) ∧
      Nat.log 2 (magnitude b) = 52 + (exponent b - 1075) := by
    intro b hb
    have hge : 2 ^ 52 ≤ significand b := by
      unfold significand
      rw [if_neg (by omega)]
      exact Nat.le_add_right _ _
    have hmag : magnitude b = significand b * 2 ^ (exponent b - 1075) := if_neg (by omega)
    refine ⟨hge, hmag, ?_⟩
    rw [hmag]
    apply Nat.log_eq_of_pow_le_of_lt_pow
    · rw [pow_add]
      exact Nat.mul_le_mul_right _ hge
    · rw [show 52 + (exponent b - 1075) + 1 = 53 + (exponent b - 1075) by omega, pow_add]
      exact Nat.mul_lt_mul_of_pos_right (significand_lt b) (Nat.two_pow_pos _)
  obtain ⟨hge, hmag, hlog⟩ := hscale bits he
  obtain ⟨hge', hmag', hlog'⟩ := hscale bits' he'
  have hsame : magnitude bits = magnitude bits' := by
    rw [← natAbs_integerPart h, ← natAbs_integerPart h']
  have hexp : exponent bits = exponent bits' := by
    rw [hsame, hlog'] at hlog
    omega
  have hsig : significand bits = significand bits' := by
    rw [hmag, hmag', hexp] at hsame
    exact Nat.eq_of_mul_eq_mul_right (Nat.two_pow_pos _) hsame
  have hpos : 0 < magnitude bits := by
    rw [hmag]
    exact Nat.mul_pos (by omega) (Nat.two_pow_pos _)
  have hsign : bits.toNat / 2 ^ 63 = 1 ↔ bits'.toNat / 2 ^ 63 = 1 := by
    unfold integerPart at h h'
    split at h
    · cases h
    · split at h'
      · cases h'
      · have heq := (Option.some.inj h).trans (Option.some.inj h').symm
        rw [← hsame] at heq
        split at heq <;> split at heq <;> omega
  apply BitVec.eq_of_toNat_eq
  have hlt := bits.isLt
  have hlt' := bits'.isLt
  unfold significand at hsig
  unfold exponent at he he' hexp hsig
  rw [if_neg (by omega), if_neg (by omega)] at hsig
  omega

/-- The last fraction bit does not matter for the integer part. -/
theorem integerPart_congr {bits bits' : BitVec 64} (he : exponent bits < 1075)
    (h : bits'.toNat / 2 = bits.toNat / 2) : integerPart bits' = integerPart bits := by
  have hexp : exponent bits' = exponent bits := by
    unfold exponent
    omega
  have hhalf : ∀ b : BitVec 64, exponent b < 1075 →
      magnitude b = significand b / 2 / 2 ^ (1074 - exponent b) := by
    intro b hb
    unfold magnitude
    rw [if_pos hb, Nat.div_div_eq_div_mul, ← pow_succ', show 1074 - exponent b + 1 =
      1075 - exponent b by omega]
  have hsig : significand bits' / 2 = significand bits / 2 := by
    unfold significand
    rw [hexp]
    split <;> omega
  have hsign : bits'.toNat / 2 ^ 63 = bits.toNat / 2 ^ 63 := by omega
  unfold integerPart
  rw [hexp, hsign, hhalf bits' (by rw [hexp]; exact he), hhalf bits he, hsig, hexp]

/-- With fraction bits in it the low word is not determined by the integer part. -/
theorem exists_integerPart_eq {bits : BitVec 64} (he : exponent bits < 1075) :
    ∃ bits' n, integerPart bits' = some n ∧ integerPart bits = some n ∧
      isNaNBits bits' = false ∧ bits'.setWidth 32 ≠ bits.setWidth 32 := by
  have hlt := bits.isLt
  let bits' := BitVec.ofNat 64 (bits.toNat / 2 * 2 + (1 - bits.toNat % 2))
  have htoNat : bits'.toNat = bits.toNat / 2 * 2 + (1 - bits.toNat % 2) :=
    Nat.mod_eq_of_lt (by omega)
  have hpart : integerPart bits = some (if bits.toNat / 2 ^ 63 = 1 then -(magnitude bits : Int)
      else magnitude bits) := if_neg (by omega)
  refine ⟨bits', _, ?_, hpart, ?_, ?_⟩
  · rw [integerPart_congr he (by omega), hpart]
  · unfold isNaNBits
    unfold exponent at he
    rw [decide_eq_false_iff_not]
    omega
  · intro heq
    have hword := congrArg BitVec.toNat heq
    rw [BitVec.toNat_setWidth, BitVec.toNat_setWidth, htoNat] at hword
    omega

theorem isNaNBits_of_exponent {bits : BitVec 64} (he : exponent bits < 1075) :
    isNaNBits bits = false := by
  unfold exponent at he
  unfold isNaNBits
  rw [decide_eq_false_iff_not]
  omega

/-- The word of a number that has one representation. -/
theorem getInt_of_not_nan {bits : BitVec 64} (h : isNaNBits bits = false) :
    (JSVal.float64 (L := L) bits).raw.getInt = bits.setWidth 32 := by
  rw [getInt_float64]
  cases L with
  | struct64 => rfl
  | nanBox => rw [h, if_neg Bool.false_ne_true]

/-- Equal numbers with one representation have the same word. -/
theorem getInt_congr {bits bits' : BitVec 64} (hsingle : singleBits L bits)
    (h : numberOf (L := L) bits' = numberOf bits) :
    (JSVal.float64 (L := L) bits').raw.getInt = (JSVal.float64 (L := L) bits).raw.getInt := by
  rcases hsingle with rfl | hnan
  · have hcanon : (if isNaNBits bits' then canonicalNaN else bits') =
        if isNaNBits bits then canonicalNaN else bits := Denotation.number.inj h
    rw [getInt_float64, getInt_float64]
    exact congrArg (BitVec.setWidth 32) hcanon
  · rw [numberOf_inj hnan h]

/-- A function of the word that tells 0 from 1 tells two NaNs of a struct apart. -/
theorem singleBits_of_congr {α : Type*} (f : BitVec 32 → α) (hone : f 0 ≠ f 1) {bits : BitVec 64}
    (h : ∀ bits', numberOf (L := L) bits' = numberOf bits →
      f (JSVal.float64 (L := L) bits').raw.getInt = f (JSVal.float64 (L := L) bits).raw.getInt) :
    singleBits L bits := by
  cases L with
  | nanBox => exact Or.inl rfl
  | struct64 =>
    refine Or.inr ?_
    by_contra hnan
    have hnan : isNaNBits bits = true := by simpa using hnan
    have hnumber : ∀ b, isNaNBits b = true → numberOf (L := .struct64) b = numberOf bits := by
      intro b hb
      unfold numberOf
      rw [hb, hnan, if_pos rfl, if_pos rfl]
    have hzero := h canonicalNaN (hnumber _ (by decide))
    have hnext := h (canonicalNaN + 1) (hnumber _ (by decide))
    exact hone (hzero.trans hnext.symm)

section

variable (E : Engine L) (slot : Slot)

theorem scalarOf_integer {w : JSVal L} {bits : BitVec 64} (h : w.double? = some bits) :
    E.scalarOf typeInteger slot w = some (.integer w.raw.getInt) := by
  rcases double?_cases h with ⟨i, rfl, _⟩ | rfl <;> rfl

theorem scalarOf_boolean {w : JSVal L} {bits : BitVec 64} (h : w.double? = some bits) :
    E.scalarOf typeBoolean slot w = some (.boolean (Engine.jboolean w.raw.getInt)) := by
  rcases double?_cases h with ⟨i, rfl, _⟩ | rfl <;> rfl

theorem numeric_integer_iff (bits : BitVec 64) :
    Numeric E typeInteger slot (.float64 bits) ↔ singleBits L bits ∧ 1075 ≤ exponent bits := by
  constructor
  · intro hnum
    have hread : ∀ bits', Alike (L := L) typeInteger bits' bits →
        (JSVal.float64 (L := L) bits').raw.getInt = (JSVal.float64 (L := L) bits).raw.getInt :=
      fun bits' halike => JavaValue.integer.inj (Option.some.inj
        (hnum bits rfl (Or.inl rfl) (.float64 bits') bits' rfl halike))
    refine ⟨singleBits_of_congr id (by decide) fun bits' h => hread bits' (Or.inl h), ?_⟩
    by_contra he
    have he : exponent bits < 1075 := by omega
    obtain ⟨bits', n, hn', hn, hnan, hword⟩ := exists_integerPart_eq he
    have hsame := hread bits' (Or.inr (Or.inl ⟨rfl, n, hn', hn⟩))
    rw [getInt_of_not_nan hnan, getInt_of_not_nan (isNaNBits_of_exponent he)] at hsame
    exact hword hsame
  · rintro ⟨hsingle, he⟩ _ hbits _ w bits' hw halike
    cases hbits
    rw [scalarOf_integer E slot hw, scalarOf_integer E slot (w := .float64 bits) rfl]
    refine congrArg (fun i => some (JavaValue.integer i)) ?_
    rcases halike with hnumber | ⟨_, n, hn', hn⟩ | ⟨hbool, _⟩
    · rcases double?_cases hw with ⟨i, rfl, rfl⟩ | rfl
      · -- the double of an integer is no NaN, so it is `bits`, and has fraction bits
        have heq := numberOf_inj (isNaNBits_float64OfInt32 i) hnumber.symm
        have hsmall := exponent_float64OfInt32 i
        rw [← heq] at hsmall
        omega
      · exact getInt_congr hsingle hnumber
    · have he' : 1075 ≤ exponent bits' := by
        have hiff := exponent_lt_iff hn hn'
        omega
      rcases double?_cases hw with ⟨i, rfl, rfl⟩ | rfl
      · have hsmall := exponent_float64OfInt32 i
        omega
      · rw [integerPart_inj hn' hn he' he]
    · cases hbool

theorem numeric_boolean_iff (bits : BitVec 64) :
    Numeric E typeBoolean slot (.float64 bits) ↔ singleBits L bits ∧ truthy bits = false := by
  constructor
  · intro hnum
    have hread : ∀ (w : JSVal L) (bits' : BitVec 64), w.double? = some bits' →
        Alike (L := L) typeBoolean bits' bits →
        Engine.jboolean w.raw.getInt = Engine.jboolean (JSVal.float64 (L := L) bits).raw.getInt := by
      intro w bits' hw halike
      have hsame := hnum bits rfl (Or.inr rfl) w bits' hw halike
      rw [scalarOf_boolean E slot hw, scalarOf_boolean E slot (w := .float64 bits) rfl] at hsame
      exact JavaValue.boolean.inj (Option.some.inj hsame)
    refine ⟨singleBits_of_congr Engine.jboolean (by decide) fun bits' h =>
      hread (.float64 bits') bits' rfl (Or.inl h), ?_⟩
    cases htruthy : truthy bits with
    | false => rfl
    | true =>
      -- 1 is read as true and 256 as false
      have hone := hread (.int 1) _ rfl (Or.inr (Or.inr ⟨rfl, by decide, htruthy⟩))
      have hlarge := hread (.int 256) _ rfl (Or.inr (Or.inr ⟨rfl, by decide, htruthy⟩))
      rw [getInt_int] at hone hlarge
      exact absurd (hone.trans hlarge.symm) (by decide)
  · rintro ⟨hsingle, hfalse⟩ _ hbits _ w bits' hw halike
    cases hbits
    rw [scalarOf_boolean E slot hw, scalarOf_boolean E slot (w := .float64 bits) rfl]
    refine congrArg (fun b => some (JavaValue.boolean b)) ?_
    rcases halike with hnumber | ⟨hint, _⟩ | ⟨_, _, htruthy⟩
    · rcases double?_cases hw with ⟨i, rfl, rfl⟩ | rfl
      · have heq := numberOf_inj (isNaNBits_float64OfInt32 i) hnumber.symm
        rw [heq] at hfalse ⊢
        rw [truthy_float64OfInt32 hfalse, getInt_int, getInt_of_not_nan (by decide)]
        decide
      · rw [getInt_congr hsingle hnumber]
    · cases hint
    · rw [htruthy] at hfalse
      cases hfalse

theorem numeric_float64_iff (expected : TypeCode) (bits : BitVec 64) :
    Numeric E expected slot (.float64 bits) ↔ SafeRead expected (JSVal.float64 (L := L) bits) := by
  constructor
  · refine fun hnum => ⟨?_, ?_⟩
    · rintro rfl
      exact (numeric_integer_iff E slot bits).mp hnum
    · rintro rfl
      exact (numeric_boolean_iff E slot bits).mp hnum
  · rintro ⟨hint, hbool⟩ bits' hbits' hexp
    rcases hexp with rfl | rfl
    · exact (numeric_integer_iff E slot bits).mpr (hint rfl) bits' hbits' (Or.inl rfl)
    · exact (numeric_boolean_iff E slot bits).mpr (hbool rfl) bits' hbits' (Or.inr rfl)

end

/-! ## Both together -/

theorem safeRead_iff_of_heap (E : Engine L) (expected : TypeCode) (slot : Slot) {v : JSVal L}
    (hheap : v.ref?.isSome) :
    SafeRead expected v ↔ ¬ ReadsAddress E expected slot v := by
  have htype : ∀ type, (if expected = typeUnknown then type else expected) ≠ typeInteger ∧
      (if expected = typeUnknown then type else expected) ≠ typeBoolean ↔
        (expected = typeUnknown → type ≠ typeInteger ∧ type ≠ typeBoolean) ∧
          expected ≠ typeInteger ∧ expected ≠ typeBoolean := by
    intro type
    by_cases hu : expected = typeUnknown
    · rw [if_pos hu, hu]
      exact ⟨fun h => ⟨fun _ => h, by decide, by decide⟩, fun h => h.1 rfl⟩
    · rw [if_neg hu]
      exact ⟨fun h => ⟨fun h' => absurd h' hu, h⟩, fun h => h.2⟩
  have hswitch : (E.switchOn expected slot v).1 =
      if expected = typeUnknown then (E.getObjectType slot v).1 else expected := by
    unfold Engine.switchOn
    by_cases hu : expected = typeUnknown
    · rw [if_pos hu, if_pos hu]
      cases v <;> rfl
    · rw [if_neg hu, if_neg hu]
      cases v <;> first | rfl | cases hheap
  have hreads : ¬ ReadsAddress E expected slot v ↔
      (E.switchOn expected slot v).1 ≠ typeInteger ∧ (E.switchOn expected slot v).1 ≠ typeBoolean := by
    unfold ReadsAddress
    rw [and_iff_right hheap, not_or]
  rw [hreads, hswitch, htype]
  cases v with
  | bigInt p =>
    refine ⟨fun h => ⟨fun hu => absurd hu h.1, h.2⟩, fun h => ⟨fun hu => (h.1 hu).1 rfl, h.2⟩⟩
  | object p =>
    refine ⟨fun h => ⟨fun _ => ?_, h⟩, fun h => h.2⟩
    unfold Engine.getObjectType
    dsimp only
    split
    · show typeJSArray ≠ typeInteger ∧ typeJSArray ≠ typeBoolean
      decide
    · split
      · show typeJSFunction ≠ typeInteger ∧ typeJSFunction ≠ typeBoolean
        decide
      · show typeJSObject ≠ typeInteger ∧ typeJSObject ≠ typeBoolean
        decide
  | string p =>
    have hstring : typeString ≠ typeInteger ∧ typeString ≠ typeBoolean := by decide
    exact ⟨fun h => ⟨fun _ => hstring, h⟩, fun h => h.2⟩
  | bigFloat p =>
    have hdouble : typeDouble ≠ typeInteger ∧ typeDouble ≠ typeBoolean := by decide
    exact ⟨fun h => ⟨fun _ => hdouble, h⟩, fun h => h.2⟩
  | bigDecimal p | symbol p =>
    have hunknown : typeUnknown ≠ typeInteger ∧ typeUnknown ≠ typeBoolean := by decide
    exact ⟨fun h => ⟨fun _ => hunknown, h⟩, fun h => h.2⟩
  | _ => cases hheap

end QuickJSBridge
