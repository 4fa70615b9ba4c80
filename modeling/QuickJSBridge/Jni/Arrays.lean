import Mathlib.Logic.Function.Basic
import QuickJSBridge.Jni.Marshal

/-!
# Arrays and their length

The length of an array is a JS number: an integer up to `2 ^ 31 - 1`, a double from there on. The bridge
reads it with `JS_VALUE_GET_INT`, which takes the low half of whatever is in the value, and `_arrayAdd` uses
the result as the index to store at.

* `newUint32`, `getInt_newUint32` — the length as a value, and what the bridge reads of it;
* `setPropertyUint32`, `getPropertyUint32` — `JS_SetPropertyUint32` on an array, with the fast and the slow
  representation, and the read;
* `arrayAdd` — `_arrayAdd`;
* `appends_iff` — a value is appended iff the length is below `2 ^ 31` and the array takes an element there,
  unless a setter is called.
-/

namespace QuickJSBridge.Arrays

variable {L : Layout}

/-! ## The length as a value -/

/-- `JS_NewUint32` -/
def newUint32 (n : Nat) : JSVal L :=
  if n < 2 ^ 31 then .int (BitVec.ofNat 32 n) else .float64 (BitVec.ofNat 64 (float64OfNat n))

/-- `JS_ToUint32`, on the value of a length. -/
def toUint32 : JSVal L → Nat
  | .int i => i.toNat
  | .float64 bits => (int32OfFloat64 bits).toNat
  | _ => 0

/-- The index that `JS_VALUE_GET_INT` makes of the length `n`. -/
def lengthIndex (n : Nat) : Nat := if n < 2 ^ 31 then n else n % 2 ^ 11 * 2 ^ 21

theorem float64OfNat_uint32 {n : Nat} (hle : 2 ^ 31 ≤ n) (hlt : n < 2 ^ 32) :
    float64OfNat n = 1054 * 2 ^ 52 + (n - 2 ^ 31) * 2 ^ 21 := by
  have hlog : n.log2 = 31 := (Nat.log2_eq_iff (by omega)).mpr ⟨hle, hlt⟩
  unfold float64OfNat
  rw [if_neg (by omega), hlog]

/-- **What the bridge reads of a length.** -/
theorem getInt_newUint32 {n : Nat} (hlt : n < 2 ^ 32) :
    (newUint32 n : JSVal L).raw.getInt.toNat = lengthIndex n := by
  unfold newUint32 lengthIndex
  by_cases h : n < 2 ^ 31
  · rw [if_pos h, if_pos h, getInt_int, BitVec.toNat_ofNat]
    omega
  · have hbits := float64OfNat_uint32 (Nat.le_of_not_lt h) hlt
    rw [if_neg h, if_neg h]
    cases L with
    | struct64 =>
      show ((BitVec.ofNat 64 (float64OfNat n)).setWidth 32).toNat = _
      rw [BitVec.toNat_setWidth, BitVec.toNat_ofNat, hbits]
      omega
    | nanBox =>
      have hnan : isNaNBits (BitVec.ofNat 64 (float64OfNat n)) = false := by
        simp only [isNaNBits, BitVec.toNat_ofNat, hbits, decide_eq_false_iff_not]
        omega
      show (((if isNaNBits (BitVec.ofNat 64 (float64OfNat n)) then canonicalNaN
        else BitVec.ofNat 64 (float64OfNat n)) - float64Addend).setWidth 32).toNat = _
      -- the low half of the addend is zero
      have haddend : float64Addend.toNat = 2146959372 * 2 ^ 32 := by decide
      rw [hnan, if_neg Bool.false_ne_true, BitVec.toNat_setWidth, BitVec.toNat_sub, BitVec.toNat_ofNat, hbits,
        haddend]
      omega

theorem toUint32_newUint32 {n : Nat} (hlt : n < 2 ^ 32) : toUint32 (newUint32 n : JSVal L) = n := by
  unfold newUint32
  by_cases h : n < 2 ^ 31
  · rw [if_pos h]
    show (BitVec.ofNat 32 n).toNat = n
    rw [BitVec.toNat_ofNat]
    omega
  · have hbits := float64OfNat_uint32 (Nat.le_of_not_lt h) hlt
    rw [if_neg h]
    show (int32OfFloat64 (BitVec.ofNat 64 (float64OfNat n))).toNat = n
    have hnat : (BitVec.ofNat 64 (float64OfNat n)).toNat = 1054 * 2 ^ 52 + (n - 2 ^ 31) * 2 ^ 21 := by
      rw [BitVec.toNat_ofNat, hbits]
      omega
    unfold int32OfFloat64
    rw [hnat]
    have hexp : (1054 * 2 ^ 52 + (n - 2 ^ 31) * 2 ^ 21) / 2 ^ 52 % 2048 = 1054 := by omega
    have hsign : ¬ (1054 * 2 ^ 52 + (n - 2 ^ 31) * 2 ^ 21) / 2 ^ 63 = 1 := by omega
    simp only [hexp]
    rw [if_neg (by decide), if_neg (by decide), if_neg hsign, BitVec.toNat_ofNat]
    omega

/-! ## Array objects -/

inductive Property (V : Type) where
  | data (v : V) (writable : Bool)
  -- `none` if there is no setter
  | accessor (setter : Option Nat)
  deriving DecidableEq

structure ArrayObj (L : Layout) (V : Type) where
  -- the value of `length`, which is `prop[0]`
  length : JSVal L
  lengthWritable : Bool
  extensible : Bool
  -- `u.array.count` while `fast_array` is set
  fast : Option Nat
  -- the properties whose name is an array index
  own : Nat → Option (Property V)

/-- What is around an array. -/
structure Setting (L : Layout) (V : Type) where
  -- the first property that the prototypes have at an index
  inherited : Nat → Option (Property V)
  -- the array after a setter was called with it and a value
  setter : Nat → ArrayObj L V → V → ArrayObj L V
  -- what a read finds where the array has no data property: a getter's result, a prototype's element, undefined
  elsewhere : ArrayObj L V → Nat → V

variable {V : Type}

/-- The element at `idx` is a data property of an assignment. -/
def ArrayObj.store (a : ArrayObj L V) (idx : Nat) (v : V) : ArrayObj L V :=
  { a with own := Function.update a.own idx (some (.data v true)) }

/-- `add_fast_array_element`; a read-only length is a `TypeError`. The new length is made by `JS_NewInt32`. -/
def addFastArrayElement (a : ArrayObj L V) (count : Nat) (v : V) : ArrayObj L V :=
  match a.length with
  | .int arrayLen =>
    if arrayLen.toNat < count + 1 then
      if a.lengthWritable then
        { a.store count v with length := .int (BitVec.ofNat 32 (count + 1)), fast := some (count + 1) }
      else a
    else { a.store count v with fast := some (count + 1) }
  | _ => { a.store count v with fast := some (count + 1) }

/-- `JS_CreateProperty` with an array index, where a fast array is converted first. -/
def createProperty (a : ArrayObj L V) (idx : Nat) (v : V) : ArrayObj L V :=
  if toUint32 a.length < idx + 1 then
    if a.lengthWritable then { a.store idx v with length := newUint32 (idx + 1), fast := none }
    else { a with fast := none }
  else { a.store idx v with fast := none }

/-- `JS_SetPropertyUint32`. What throws leaves the array as it is. -/
def setPropertyUint32 (S : Setting L V) (a : ArrayObj L V) (idx : Nat) (v : V) : ArrayObj L V :=
  match a.own idx with
  | some (.data _ true) => a.store idx v
  | some (.data _ false) | some (.accessor none) => a
  | some (.accessor (some f)) => S.setter f a v
  | none =>
    match S.inherited idx with
    | some (.accessor (some f)) => S.setter f a v
    | some (.accessor none) | some (.data _ false) => a
    | some (.data _ true) | none =>
      if a.extensible then
        -- a tagged integer is below `2 ^ 31`
        if a.fast = some idx ∧ idx < 2 ^ 31 then addFastArrayElement a idx v else createProperty a idx v
      else a

/-- `JS_GetPropertyUint32` -/
def getPropertyUint32 (S : Setting L V) (a : ArrayObj L V) (idx : Nat) : V :=
  match a.own idx with
  | some (.data v _) => v
  | _ => S.elsewhere a idx

/-- `GetArrayLength` -/
def getArrayLength (a : ArrayObj L V) : BitVec 32 := a.length.raw.getInt

/-- `_arrayAdd`, which `push` calls; the `int` is passed on as a `uint32_t`. -/
def arrayAdd (E : Engine L) (S : Setting L (Handed L)) (a : ArrayObj L (Handed L)) (value : JavaValue) :
    Option (ArrayObj L (Handed L)) :=
  (jobjectToJSValue E value).map (setPropertyUint32 S a (getArrayLength a).toNat)

/-! ## Arrays of a length, and appending -/

/-- An array of length `n`: no element lies beyond the length, and a fast array has the elements up to its
count and no others. -/
structure ArrayObj.Valid (a : ArrayObj L V) (n : Nat) : Prop where
  length : a.length = newUint32 n
  bounded : ∀ i, n ≤ i → a.own i = none
  count_le : ∀ c, a.fast = some c → c ≤ n
  fast_lt : ∀ c, a.fast = some c → ∀ i, i < c → ∃ v, a.own i = some (.data v true)
  fast_ge : ∀ c, a.fast = some c → ∀ i, c ≤ i → a.own i = none

/-- `v` is stored at index `n`, the other elements are as they were, and the length is `n + 1`. -/
structure Appended (a a' : ArrayObj L V) (n : Nat) (v : V) : Prop where
  stored : a'.own n = some (.data v true)
  kept : ∀ i, i ≠ n → a'.own i = a.own i
  length : a'.length = newUint32 (n + 1)

/-- The setter that an assignment at the index calls. -/
def setterAt (S : Setting L V) (a : ArrayObj L V) (idx : Nat) : Option Nat :=
  match a.own idx with
  | some (.accessor f) => f
  | some (.data _ _) => none
  | none =>
    match S.inherited idx with
    | some (.accessor f) => f
    | _ => none

/-- No prototype forbids an element at the index. -/
def free (S : Setting L V) (idx : Nat) : Bool :=
  match S.inherited idx with
  | some (.data _ true) | none => true
  | _ => false

/-- The array takes an element at its end. A fast array whose length becomes `2 ^ 31` gets a negative one. -/
def Takes (S : Setting L V) (a : ArrayObj L V) (n : Nat) : Prop :=
  n < 2 ^ 31 ∧ (a.fast = some n → n + 1 < 2 ^ 31) ∧ a.extensible = true ∧ a.lengthWritable = true ∧ free S n = true

instance (S : Setting L V) (a : ArrayObj L V) (n : Nat) : Decidable (Takes S a n) :=
  inferInstanceAs (Decidable (_ ∧ _ ∧ _ ∧ _ ∧ _))

/-- The setter at the index used appends, or there is none and the array takes an element. -/
def Appends (S : Setting L V) (a : ArrayObj L V) (n : Nat) (v : V) : Prop :=
  match setterAt S a (lengthIndex n) with
  | some f => Appended a (S.setter f a v) n v
  | none => Takes S a n

/-! ## What an assignment does -/

@[simp] theorem own_store_self (a : ArrayObj L V) (idx : Nat) (v : V) :
    (a.store idx v).own idx = some (.data v true) := Function.update_self ..

@[simp] theorem own_store_of_ne (a : ArrayObj L V) {idx i : Nat} (v : V) (h : i ≠ idx) :
    (a.store idx v).own i = a.own i := Function.update_of_ne h ..

theorem setPropertyUint32_of_setter {S : Setting L V} {a : ArrayObj L V} {idx f : Nat}
    (h : setterAt S a idx = some f) (v : V) : setPropertyUint32 S a idx v = S.setter f a v := by
  unfold setterAt at h
  unfold setPropertyUint32
  cases hown : a.own idx with
  | some p =>
    cases p with
    | data w writable => simp [hown] at h
    | accessor g =>
      rw [hown] at h
      rw [show g = some f from h]
  | none =>
    rw [hown] at h
    cases hproto : S.inherited idx with
    | none => simp [hproto] at h
    | some p =>
      cases p with
      | data w writable => simp [hproto] at h
      | accessor g =>
        rw [hproto] at h
        rw [show g = some f from h]

theorem own_addFastArrayElement (a : ArrayObj L V) {count i : Nat} (v : V) (h : i ≠ count) :
    (addFastArrayElement a count v).own i = a.own i := by
  unfold addFastArrayElement
  split
  · split
    · split
      · exact own_store_of_ne a v h
      · rfl
    · exact own_store_of_ne a v h
  · exact own_store_of_ne a v h

theorem own_createProperty (a : ArrayObj L V) {idx i : Nat} (v : V) (h : i ≠ idx) :
    (createProperty a idx v).own i = a.own i := by
  unfold createProperty
  split
  · split
    · exact own_store_of_ne a v h
    · rfl
  · exact own_store_of_ne a v h

/-- An assignment where the array has no element and no setter is called. -/
theorem setPropertyUint32_absent {S : Setting L V} {a : ArrayObj L V} {idx : Nat} (hown : a.own idx = none)
    (hset : setterAt S a idx = none) (v : V) :
    setPropertyUint32 S a idx v =
      if free S idx = true ∧ a.extensible = true then
        if a.fast = some idx ∧ idx < 2 ^ 31 then addFastArrayElement a idx v else createProperty a idx v
      else a := by
  unfold setterAt at hset
  rw [hown] at hset
  unfold setPropertyUint32 free
  rw [hown]
  cases hproto : S.inherited idx with
  | none => simp
  | some p =>
    rw [hproto] at hset
    cases p with
    | data w writable => cases writable <;> simp
    | accessor g =>
      rw [show g = none from hset]
      simp

/-- Without a setter only the element at the index can change. -/
theorem own_setPropertyUint32 {S : Setting L V} {a : ArrayObj L V} {idx i : Nat} (v : V)
    (hset : setterAt S a idx = none) (h : i ≠ idx) : (setPropertyUint32 S a idx v).own i = a.own i := by
  cases hown : a.own idx with
  | some p =>
    unfold setterAt at hset
    unfold setPropertyUint32
    rw [hown] at hset ⊢
    cases p with
    | data w writable =>
      cases writable
      · rfl
      · exact own_store_of_ne a v h
    | accessor g =>
      rw [show g = none from hset]
  | none =>
    rw [setPropertyUint32_absent hown hset]
    split
    · split
      · exact own_addFastArrayElement a v h
      · exact own_createProperty a v h
    · rfl

/-! ## Appending -/

theorem getArrayLength_of_valid {a : ArrayObj L V} {n : Nat} (hvalid : a.Valid n) (hlt : n < 2 ^ 32) :
    (getArrayLength a).toNat = lengthIndex n := by
  unfold getArrayLength
  rw [hvalid.length, getInt_newUint32 hlt]

theorem lengthIndex_ne {n : Nat} (hle : 2 ^ 31 ≤ n) : lengthIndex n ≠ n := by
  unfold lengthIndex
  rw [if_neg (Nat.not_lt.mpr hle)]
  omega

theorem addFastArrayElement_end {a : ArrayObj L V} {n : Nat} (hlength : a.length = newUint32 n)
    (hlt : n < 2 ^ 31) (v : V) :
    addFastArrayElement a n v =
      if a.lengthWritable then
        { a.store n v with length := .int (BitVec.ofNat 32 (n + 1)), fast := some (n + 1) }
      else a := by
  have hint : (BitVec.ofNat 32 n).toNat < n + 1 := by
    rw [BitVec.toNat_ofNat]
    omega
  unfold addFastArrayElement
  rw [hlength, newUint32, if_pos hlt]
  exact if_pos hint

theorem createProperty_end {a : ArrayObj L V} {n : Nat} (hlength : a.length = newUint32 n)
    (hlt : n < 2 ^ 32) (v : V) :
    createProperty a n v =
      if a.lengthWritable then { a.store n v with length := newUint32 (n + 1), fast := none }
      else { a with fast := none } := by
  unfold createProperty
  rw [hlength, toUint32_newUint32 hlt]
  exact if_pos (Nat.lt_succ_self n)

/-- An assignment at the end of an array, below `2 ^ 31`. -/
theorem setPropertyUint32_end {S : Setting L V} {a : ArrayObj L V} {n : Nat} (hvalid : a.Valid n)
    (hlt : n < 2 ^ 31) (hset : setterAt S a n = none) (v : V) :
    setPropertyUint32 S a n v =
      if free S n = true ∧ a.extensible = true then
        if a.fast = some n then addFastArrayElement a n v else createProperty a n v
      else a := by
  have hown : a.own n = none := hvalid.bounded n (Nat.le_refl n)
  rw [setPropertyUint32_absent hown hset]
  simp only [hlt, and_true]

theorem appended_iff_takes {S : Setting L V} {a : ArrayObj L V} {n : Nat} (hvalid : a.Valid n)
    (hlt : n < 2 ^ 31) (hset : setterAt S a n = none) (v : V) :
    Appended a (setPropertyUint32 S a n v) n v ↔ Takes S a n := by
  have hown := hvalid.bounded n (Nat.le_refl n)
  -- a property stored at the end is new
  have hsame : ∀ b : ArrayObj L V, b.own n = a.own n → ¬ Appended a b n v := by
    intro b hb happ
    have hstored := happ.stored
    rw [hb, hown] at hstored
    cases hstored
  rw [setPropertyUint32_end hvalid hlt hset]
  by_cases hfree : free S n = true ∧ a.extensible = true
  · rw [if_pos hfree]
    unfold Takes
    by_cases hwritable : a.lengthWritable = true
    · have hkept : ∀ i, i ≠ n → (a.store n v).own i = a.own i := fun i hi => own_store_of_ne a v hi
      by_cases hfast : a.fast = some n
      · rw [if_pos hfast, addFastArrayElement_end hvalid.length hlt, if_pos hwritable]
        constructor
        · intro happ
          refine ⟨hlt, fun _ => ?_, hfree.2, hwritable, hfree.1⟩
          have hlength : JSVal.int (BitVec.ofNat 32 (n + 1)) = newUint32 (n + 1) := happ.length
          unfold newUint32 at hlength
          by_contra hbig
          rw [if_neg hbig] at hlength
          cases hlength
        · intro htakes
          have hlength : JSVal.int (L := L) (BitVec.ofNat 32 (n + 1)) = newUint32 (n + 1) :=
            (if_pos (htakes.2.1 hfast)).symm
          exact ⟨own_store_self a n v, hkept, hlength⟩
      · rw [if_neg hfast, createProperty_end hvalid.length (by omega), if_pos hwritable]
        refine iff_of_true ⟨own_store_self a n v, hkept, rfl⟩ ⟨hlt, ?_, hfree.2, hwritable, hfree.1⟩
        intro h
        exact absurd h hfast
    · rw [addFastArrayElement_end hvalid.length hlt, createProperty_end hvalid.length (by omega),
        if_neg hwritable, if_neg hwritable]
      apply iff_of_false
      · apply hsame
        split <;> rfl
      · intro htakes
        exact hwritable htakes.2.2.2.1
  · rw [if_neg hfree]
    apply iff_of_false (hsame a rfl)
    intro htakes
    exact hfree ⟨htakes.2.2.2.2, htakes.2.2.1⟩

/-- `push(value)` stores the value `v`, which is what `value` is in JS, at the end of an array of length `n`. -/
def Pushes (E : Engine L) (S : Setting L (Handed L)) (a : ArrayObj L (Handed L)) (n : Nat) (value : JavaValue)
    (v : Handed L) : Prop :=
  ∃ a', arrayAdd E S a value = some a' ∧ Appended a a' n v

/-- **Push.** On an array of length `n` a value is appended iff `Appends` holds. -/
theorem pushes_iff_appends (E : Engine L) (S : Setting L (Handed L)) {a : ArrayObj L (Handed L)} {n : Nat}
    {value : JavaValue} {v : Handed L} (hvalid : a.Valid n) (hlt : n < 2 ^ 32 - 1)
    (hvalue : jobjectToJSValue E value = some v) :
    Pushes E S a n value v ↔ Appends S a n v := by
  have hpush : Pushes E S a n value v ↔ Appended a (setPropertyUint32 S a (lengthIndex n) v) n v := by
    unfold Pushes arrayAdd
    rw [hvalue, getArrayLength_of_valid hvalid (by omega), Option.map_some]
    simp
  rw [hpush]
  unfold Appends
  cases hset : setterAt S a (lengthIndex n) with
  | some f => rw [setPropertyUint32_of_setter hset]
  | none =>
    by_cases hsmall : n < 2 ^ 31
    · have hindex : lengthIndex n = n := if_pos hsmall
      rw [hindex] at hset ⊢
      exact appended_iff_takes hvalid hsmall hset v
    · -- another index is written, and nothing is stored at the end
      apply iff_of_false
      · intro happ
        have hstored := happ.stored
        rw [own_setPropertyUint32 v hset (lengthIndex_ne (Nat.le_of_not_lt hsmall)).symm,
          hvalid.bounded n (Nat.le_refl n)] at hstored
        cases hstored
      · exact fun htakes => hsmall htakes.1

/-- An array without elements, as `arr.length = n` leaves it. -/
def emptyOfLength (L : Layout) (n : Nat) : ArrayObj L (Handed L) := ⟨newUint32 n, true, true, none, fun _ => none⟩

def plainSetting (L : Layout) : Setting L (Handed L) := ⟨fun _ => none, fun _ a _ => a, fun _ _ => .value .undefined⟩

theorem valid_emptyOfLength (L : Layout) (n : Nat) : (emptyOfLength L n).Valid n where
  length := rfl
  bounded := fun _ _ => rfl
  count_le := fun _ h => by cases h
  fast_lt := fun _ h => by cases h
  fast_ge := fun _ h => by cases h

theorem pushes_iff_appends_empty :
    Pushes (sampleEngine .nanBox) (plainSetting .nanBox) (emptyOfLength .nanBox 7) 7 (.integer 5)
      (.value (.int 5)) :=
  (pushes_iff_appends (sampleEngine .nanBox) (plainSetting .nanBox) (valid_emptyOfLength .nanBox 7)
    (by decide) rfl).mpr (by decide : Takes (plainSetting .nanBox) (emptyOfLength .nanBox 7) 7)

/-- After `arr.length = 2147483648` the value goes to index 0. -/
theorem not_pushes_long :
    ¬ ∀ (L : Layout) (E : Engine L) (S : Setting L (Handed L)) (a : ArrayObj L (Handed L)) (n : Nat)
      (value : JavaValue) (v : Handed L), a.Valid n → n < 2 ^ 32 - 1 → jobjectToJSValue E value = some v →
      Pushes E S a n value v := by
  intro hall
  obtain ⟨a', hadd, happ⟩ := hall .struct64 (sampleEngine .struct64) (plainSetting .struct64)
    (emptyOfLength .struct64 (2 ^ 31)) (2 ^ 31) (.integer 5) (.value (.int 5))
    (valid_emptyOfLength .struct64 _) (by decide) rfl
  have hindex : (getArrayLength (emptyOfLength .struct64 (2 ^ 31))).toNat = 0 := by decide
  have hstored := happ.stored
  unfold arrayAdd at hadd
  rw [hindex] at hadd
  rw [← Option.some.inj hadd] at hstored
  cases hstored

end QuickJSBridge.Arrays
