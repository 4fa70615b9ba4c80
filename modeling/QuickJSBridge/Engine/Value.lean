import Mathlib.Algebra.Group.Nat.Defs
import QuickJSBridge.Engine.Exception
import QuickJSBridge.Engine.Strings

/-!
# JS values

A `JSValue` is a tag and a payload (`quickjs.h`), in one of two layouts: a struct of a 64-bit union and
a 64-bit tag where pointers have 64 bits, and one 64-bit word (NaN boxing) where they have 32.

* `JSVal` — the values a program can see, by tag, and the exception marker;
* `Raw`, `JSVal.raw`, `Raw.decode` — the bits in each layout; `decode_raw` reads a value back;
* `Engine` — what the heap and the engine's conversions give for a value: strings, BigInts, what an
  object is and how it converts, with user code that may throw;
* `Engine.denote` — what a value stands for; two values are the same (`SameValue`) when they denote
  the same.
-/

namespace QuickJSBridge

/-! ## Layouts and values -/

inductive Layout where
  -- `!JS_NAN_BOXING`
  | struct64
  -- `JS_NAN_BOXING`
  | nanBox
  deriving DecidableEq

def Layout.ptrBits : Layout → Nat
  | .struct64 => 64
  | .nanBox => 32

/-- A pointer into the JS heap. -/
abbrev Addr (L : Layout) := BitVec L.ptrBits

inductive JSVal (L : Layout) where
  | bigDecimal (p : Addr L)
  | bigInt (p : Addr L)
  | bigFloat (p : Addr L)
  | symbol (p : Addr L)
  | string (p : Addr L)
  | object (p : Addr L)
  | int (i : BitVec 32)
  | bool (b : Bool)
  | null
  | undefined
  | exception
  | float64 (bits : BitVec 64)
  deriving DecidableEq

variable {L : Layout}

/-- The `JS_TAG_` constants, as 32 bits. -/
def JSVal.tag : JSVal L → BitVec 32
  | .bigDecimal _ => -11
  | .bigInt _ => -10
  | .bigFloat _ => -9
  | .symbol _ => -8
  | .string _ => -7
  | .object _ => -1
  | .int _ => 0
  | .bool _ => 1
  | .null => 2
  | .undefined => 3
  | .exception => 6
  | .float64 _ => 7

/-- The pointer of a value with a reference count (`JS_VALUE_HAS_REF_COUNT`). -/
def JSVal.ref? : JSVal L → Option (Addr L)
  | .bigDecimal p | .bigInt p | .bigFloat p | .symbol p | .string p | .object p => some p
  | _ => none

/-- The union `u`. -/
def JSVal.union : JSVal L → BitVec 64
  | .bigDecimal p | .bigInt p | .bigFloat p | .symbol p | .string p | .object p => p.setWidth 64
  | .int i => i.setWidth 64
  | .bool b => if b then 1 else 0
  | .null | .undefined | .exception => 0
  | .float64 bits => bits

/-! ## Bits -/

def isNaNBits (bits : BitVec 64) : Bool := 0x7ff0000000000000 < bits.toNat % 2 ^ 63

def canonicalNaN : BitVec 64 := 0x7ff8000000000000

/-- `JS_FLOAT64_TAG_ADDEND`, in the upper half of a word. -/
def float64Addend : BitVec 64 := 0x7ff8000c00000000

/-- The bits of a `JSValue`. -/
def Raw : Layout → Type
  | .struct64 => BitVec 64 × BitVec 64
  | .nanBox => BitVec 64

/-- `JS_MKVAL`, `JS_MKPTR` and `__JS_NewFloat64`; in the struct the tag comes first here. -/
def JSVal.raw (v : JSVal L) : Raw L :=
  match L, v with
  | .struct64, v => (v.tag.signExtend 64, v.union)
  | .nanBox, .float64 bits => (if isNaNBits bits then canonicalNaN else bits) - float64Addend
  | .nanBox, v => v.tag ++ v.union.setWidth 32

/-- `JS_VALUE_GET_INT` -/
def Raw.getInt (r : Raw L) : BitVec 32 :=
  match L, r with
  | .struct64, r => r.2.setWidth 32
  | .nanBox, r => r.setWidth 32

/-- The value whose tag and payload are given; `none` for a tag that no value a program sees has. -/
def ofTag (tag : BitVec 32) (p : Addr L) (i : BitVec 32) : Option (JSVal L) :=
  if tag = -11 then some (.bigDecimal p)
  else if tag = -10 then some (.bigInt p)
  else if tag = -9 then some (.bigFloat p)
  else if tag = -8 then some (.symbol p)
  else if tag = -7 then some (.string p)
  else if tag = -1 then some (.object p)
  else if tag = 0 then some (.int i)
  else if tag = 1 then some (.bool (i ≠ 0))
  else if tag = 2 then some .null
  else if tag = 3 then some .undefined
  else if tag = 6 then some .exception
  else none

/-- `JS_TAG_IS_FLOAT64` with NaN boxing: every tag outside `-11 … 6`. -/
def tagIsFloat64 (tag : BitVec 32) : Bool := 18 ≤ (tag + 11).toNat

def decodeWord (w : BitVec 64) : Option (JSVal .nanBox) :=
  if tagIsFloat64 (w.extractLsb' 32 32) then some (.float64 (w + float64Addend))
  else ofTag (w.extractLsb' 32 32) (w.setWidth 32) (w.setWidth 32)

def decodeStruct (u tag : BitVec 64) : Option (JSVal .struct64) :=
  if tag.setWidth 32 = (7 : BitVec 32) then some (.float64 u)
  else ofTag (tag.setWidth 32) u (u.setWidth 32)

/-- The value that the engine sees in the bits. -/
def Raw.decode (r : Raw L) : Option (JSVal L) :=
  match L, r with
  | .struct64, r => decodeStruct r.2 r.1
  | .nanBox, r => decodeWord r

/-- NaN boxing has one NaN. -/
def JSVal.normalize (v : JSVal L) : JSVal L :=
  match L, v with
  | .nanBox, .float64 bits => .float64 (if isNaNBits bits then canonicalNaN else bits)
  | _, v => v

theorem tag_append (tag x : BitVec 32) : (tag ++ x).extractLsb' 32 32 = tag := by
  ext i hi
  rw [BitVec.getElem_extractLsb', BitVec.getLsbD_append, if_neg (by omega)]
  simp [hi]

theorem payload_append (tag x : BitVec 32) : (tag ++ x).setWidth 32 = x := by
  ext i hi
  rw [BitVec.getElem_setWidth, BitVec.getLsbD_append, if_pos hi]
  simp [hi]

/-- The bits of a double that is not a NaN other than the canonical one, moved down, have no tag of
another value in their upper half. -/
theorem tagIsFloat64_sub {bits : BitVec 64} (h : isNaNBits bits = false ∨ bits = canonicalNaN) :
    tagIsFloat64 ((bits - float64Addend).extractLsb' 32 32) = true := by
  rcases h with h | rfl
  · simp only [isNaNBits, decide_eq_false_iff_not, Nat.not_lt] at h
    simp only [tagIsFloat64, BitVec.toNat_add, BitVec.extractLsb'_toNat,
      BitVec.toNat_sub, float64Addend]
    have hlt := bits.isLt
    simp [Nat.shiftRight_eq_div_pow]
    omega
  · decide

theorem union_ptr (p : Addr L) : (p.setWidth 64).setWidth L.ptrBits = p := by
  have hle : L.ptrBits ≤ 64 := by cases L <;> decide
  rw [BitVec.setWidth_setWidth_of_le p hle, BitVec.setWidth_eq]

/-- A value is determined by its tag and its payload. -/
theorem ofTag_tag {v : JSVal L} (hv : ∀ bits, v ≠ .float64 bits) :
    ofTag v.tag (v.union.setWidth L.ptrBits) (v.union.setWidth 32) = some v := by
  cases v with
  | bigDecimal p => exact congrArg (fun q => some (JSVal.bigDecimal q)) (union_ptr p)
  | bigInt p => exact congrArg (fun q => some (JSVal.bigInt q)) (union_ptr p)
  | bigFloat p => exact congrArg (fun q => some (JSVal.bigFloat q)) (union_ptr p)
  | symbol p => exact congrArg (fun q => some (JSVal.symbol q)) (union_ptr p)
  | string p => exact congrArg (fun q => some (JSVal.string q)) (union_ptr p)
  | object p => exact congrArg (fun q => some (JSVal.object q)) (union_ptr p)
  | int i =>
    have hi : (i.setWidth 64).setWidth 32 = i := by
      rw [BitVec.setWidth_setWidth_of_le i (by decide), BitVec.setWidth_eq]
    exact congrArg (fun q => some (JSVal.int q)) hi
  | bool b => cases b <;> rfl
  | null => rfl
  | undefined => rfl
  | exception => rfl
  | float64 bits => exact absurd rfl (hv bits)

theorem tagIsFloat64_tag {v : JSVal L} (hv : ∀ bits, v ≠ .float64 bits) :
    tagIsFloat64 v.tag = false ∧ v.tag ≠ 7 := by
  cases v with
  | float64 bits => exact absurd rfl (hv bits)
  | _ => simp [JSVal.tag, tagIsFloat64]

theorem decodeWord_raw (v : JSVal .nanBox) : v.raw.decode = some v.normalize := by
  by_cases hv : ∃ bits, v = .float64 bits
  · obtain ⟨bits, rfl⟩ := hv
    have hcanon : isNaNBits (if isNaNBits bits then canonicalNaN else bits) = false ∨
        (if isNaNBits bits then canonicalNaN else bits) = canonicalNaN := by
      cases h : isNaNBits bits with
      | true => exact Or.inr rfl
      | false => exact Or.inl h
    show decodeWord ((if isNaNBits bits then canonicalNaN else bits) - float64Addend) = _
    rw [decodeWord, tagIsFloat64_sub hcanon, if_pos rfl, BitVec.sub_add_cancel]
    rfl
  · have hv : ∀ bits, v ≠ .float64 bits := fun bits h => hv ⟨bits, h⟩
    have hraw : v.raw = v.tag ++ v.union.setWidth 32 ∧ v.normalize = v := by
      cases v with
      | float64 bits => exact absurd rfl (hv bits)
      | _ => exact ⟨rfl, rfl⟩
    rw [hraw.1, hraw.2]
    show decodeWord (v.tag ++ v.union.setWidth 32) = _
    rw [decodeWord, tag_append, payload_append, (tagIsFloat64_tag hv).1]
    exact ofTag_tag hv

theorem decodeStruct_raw (v : JSVal .struct64) : v.raw.decode = some v.normalize := by
  have htag : (v.tag.signExtend 64).setWidth 32 = v.tag := by
    cases v <;> simp [JSVal.tag]
  show decodeStruct v.union (v.tag.signExtend 64) = some v
  rw [decodeStruct, htag]
  by_cases hv : ∃ bits, v = .float64 bits
  · obtain ⟨bits, rfl⟩ := hv
    rfl
  · have hv : ∀ bits, v ≠ .float64 bits := fun bits h => hv ⟨bits, h⟩
    rw [if_neg (tagIsFloat64_tag hv).2]
    have hof := ofTag_tag hv
    rw [show v.union.setWidth Layout.struct64.ptrBits = v.union from BitVec.setWidth_eq ..] at hof
    exact hof

/-- **The bits of a value are read back as that value**, up to the one NaN of NaN boxing. -/
theorem decode_raw (v : JSVal L) : v.raw.decode = some v.normalize := by
  cases L with
  | struct64 => exact decodeStruct_raw v
  | nanBox => exact decodeWord_raw v

/-! ## What the heap and the conversions give -/

/-- What `JS_IsArray` answers: 1, 0, or -1 with a pending `TypeError` for a revoked proxy. -/
inductive ArrayTest where
  | array
  | notArray
  | revoked
  deriving DecidableEq

/-- An object as the bridge sees it. The conversions run user code, which may throw. -/
structure ObjInfo where
  isArray : ArrayTest
  -- `JS_IsFunction`
  isFunction : Bool
  toNumber : Except Thrown (BitVec 64)
  toText : Except Thrown Text

/-- The heap, and the conversions of `quickjs.c` between numbers and texts. -/
structure Engine (L : Layout) where
  object : Addr L → ObjInfo
  string : Addr L → Text
  bigInt : Addr L → Int
  -- the text of a primitive that is no string
  primitiveText : JSVal L → Text
  -- `js_atof` on a whole string, NaN where it is no number
  parseNumber : Text → BitVec 64
  -- `(double) val` for a 64-bit integer
  float64OfInt64 : BitVec 64 → BitVec 64
  -- the Error object of a `TypeError` that the engine throws
  typeError : ErrorObj

/-- The bits of the double `m`, for `m < 2 ^ 53`. -/
def float64OfNat (m : Nat) : Nat :=
  if m = 0 then 0 else (1023 + m.log2) * 2 ^ 52 + (m - 2 ^ m.log2) * 2 ^ (52 - m.log2)

/-- `(double) i` -/
def float64OfInt32 (i : BitVec 32) : BitVec 64 :=
  BitVec.ofNat 64 ((if i.toInt < 0 then 2 ^ 63 else 0) + float64OfNat i.toInt.natAbs)

/-- `(int32_t) d`: the integer part; out of range the result is never compared equal. -/
def int32OfFloat64 (bits : BitVec 64) : BitVec 32 :=
  let exponent := bits.toNat / 2 ^ 52 % 2048
  let significand := 2 ^ 52 + bits.toNat % 2 ^ 52
  if exponent < 1023 then 0
  else if 1023 + 31 < exponent then 0x80000000
  else
    let m := BitVec.ofNat 32 (significand / 2 ^ (52 - (exponent - 1023)))
    if bits.toNat / 2 ^ 63 = 1 then -m else m

/-- `JS_NewFloat64` -/
def newFloat64 (bits : BitVec 64) : JSVal L :=
  if float64OfInt32 (int32OfFloat64 bits) = bits then .int (int32OfFloat64 bits)
  else (JSVal.float64 bits).normalize

namespace Engine

variable (E : Engine L)

/-- `JS_IsArray`, as a C condition, and what it leaves pending. -/
def isArray (slot : Slot) : JSVal L → Bool × Slot
  | .object p =>
    match (E.object p).isArray with
    | .array => (true, slot)
    | .notArray => (false, slot)
    | .revoked => (true, jsThrow slot (.error E.typeError))
  | _ => (false, slot)

/-- `JS_IsFunction` -/
def isFunction : JSVal L → Bool
  | .object p => (E.object p).isFunction
  | _ => false

/-- `JS_ToFloat64`: a conversion that fails gives NaN and leaves its exception pending. -/
def toFloat64 (slot : Slot) : JSVal L → BitVec 64 × Slot
  | .int i => (float64OfInt32 i, slot)
  | .bool b => (float64OfInt32 (if b then 1 else 0), slot)
  | .null => (0, slot)
  | .undefined | .exception => (canonicalNaN, slot)
  | .float64 bits => (bits, slot)
  | .string p => (E.parseNumber (E.string p), slot)
  | .object p =>
    match (E.object p).toNumber with
    | .ok bits => (bits, slot)
    | .error e => (canonicalNaN, jsThrow slot e)
  | .symbol _ | .bigInt _ | .bigFloat _ | .bigDecimal _ =>
    (canonicalNaN, jsThrow slot (.error E.typeError))

/-- `JS_ToCString`: `none` is NULL. -/
def toText (slot : Slot) : JSVal L → Option Text × Slot
  | .string p => (some (E.string p), slot)
  | .object p =>
    match (E.object p).toText with
    | .ok s => (some s, slot)
    | .error e => (none, jsThrow slot e)
  | .symbol _ => (none, jsThrow slot (.error E.typeError))
  | .exception => (none, slot)
  | v => (some (E.primitiveText v), slot)

end Engine

/-! ## What a value stands for -/

inductive Denotation (L : Layout) where
  | undefined
  | null
  | exception
  | bool (b : Bool)
  -- a double, with one NaN
  | number (bits : BitVec 64)
  | text (s : Text)
  | integer (n : Int)
  -- a heap object, by identity
  | cell (v : JSVal L)
  deriving DecidableEq

def numberOf (bits : BitVec 64) : Denotation L :=
  .number (if isNaNBits bits then canonicalNaN else bits)

def Engine.denote (E : Engine L) : JSVal L → Denotation L
  | .undefined => .undefined
  | .null => .null
  | .exception => .exception
  | .bool b => .bool b
  | .int i => numberOf (float64OfInt32 i)
  | .float64 bits => numberOf bits
  | .string p => .text (E.string p)
  | .bigInt p => .integer (E.bigInt p)
  | v => .cell v

theorem denote_normalize (E : Engine L) (v : JSVal L) : E.denote v.normalize = E.denote v := by
  match L, v with
  | .nanBox, .float64 bits =>
    show numberOf (if isNaNBits bits then canonicalNaN else bits) = numberOf bits
    cases h : isNaNBits bits with
    | true =>
      rw [if_pos rfl]
      unfold numberOf
      rw [h]
      rfl
    | false => rw [if_neg Bool.false_ne_true]
  | .struct64, v => cases v <;> rfl
  | .nanBox, .bigDecimal _ | .nanBox, .bigInt _ | .nanBox, .bigFloat _ | .nanBox, .symbol _
  | .nanBox, .string _ | .nanBox, .object _ | .nanBox, .int _ | .nanBox, .bool _ | .nanBox, .null
  | .nanBox, .undefined | .nanBox, .exception => rfl

/-- `JS_NewFloat64` stores an integral double as an integer, which is the same number. -/
theorem denote_newFloat64 (E : Engine L) (bits : BitVec 64) :
    E.denote (newFloat64 bits) = numberOf bits := by
  unfold newFloat64
  split
  · rename_i h
    show numberOf (float64OfInt32 (int32OfFloat64 bits)) = numberOf bits
    rw [h]
  · exact denote_normalize E (.float64 bits)

example : newFloat64 (L := .struct64) (float64OfInt32 (-3)) = .int (-3) := by decide

end QuickJSBridge
