import Mathlib.Data.List.Basic
import Mathlib.Data.List.TakeWhile
import Mathlib.Tactic.Common

/-!
# Code units, UTF-8 and Modified UTF-8

A string is a list of 16-bit code units, an encoded text a list of octets (naturals below 256).
Two encodings meet here, and they agree on part of the strings only:

* `encodeUtf8` — UTF-8 as C programs write it: a surrogate pair becomes one four-octet sequence,
  a lone surrogate its own three-octet sequence, and U+0000 the octet `0`;
* `encodeModified` — Modified UTF-8: every code unit on its own, at most three octets, and U+0000
  as `C0 80`;
* `decodeModified` — the decoder of Modified UTF-8, `none` on any other octet sequence;
* `cString` — what a reader of a zero-terminated text sees.

The key fact is `decodeModified_cString_encodeUtf8`, which says exactly what survives UTF-8 written by
one side, cut at its first zero octet and read as Modified UTF-8 by the other.
-/

namespace CodeUnits

/-! ## Code units -/

/-- A high (leading) surrogate. -/
def isHigh (c : UInt16) : Bool := 0xd800 ≤ c.toNat && c.toNat < 0xdc00

/-- A low (trailing) surrogate. -/
def isLow (c : UInt16) : Bool := 0xdc00 ≤ c.toNat && c.toNat < 0xe000

/-- A high surrogate is directly followed by a low one somewhere in the string. -/
def hasPair : List UInt16 → Bool
  | [] => false
  | [_] => false
  | c :: d :: rest => (isHigh c && isLow d) || hasPair (d :: rest)

/-- The octets of one code unit, as UTF-8 and Modified UTF-8 both write a unit that is neither
U+0000 nor part of a surrogate pair. -/
def unitOctets (c : Nat) : List Nat :=
  if c < 0x80 then [c]
  else if c < 0x800 then [0xc0 + c / 64, 0x80 + c % 64]
  else [0xe0 + c / 4096, 0x80 + c / 64 % 64, 0x80 + c % 64]

/-- The four octets of the supplementary character that a surrogate pair stands for. -/
def pairOctets (c d : Nat) : List Nat :=
  let u := 0x10000 + c % 1024 * 1024 + d % 1024
  [0xf0 + u / 262144, 0x80 + u / 4096 % 64, 0x80 + u / 64 % 64, 0x80 + u % 64]

/-! ## The encoders and the decoder -/

def encodeUtf8 : List UInt16 → List Nat
  | [] => []
  | [c] => unitOctets c.toNat
  | c :: d :: rest =>
    if isHigh c && isLow d then pairOctets c.toNat d.toNat ++ encodeUtf8 rest
    else unitOctets c.toNat ++ encodeUtf8 (d :: rest)

/-- One code unit in Modified UTF-8. -/
def modifiedOctets (c : UInt16) : List Nat :=
  if c.toNat = 0 then [0xc0, 0x80] else unitOctets c.toNat

def encodeModified (s : List UInt16) : List Nat := s.flatMap modifiedOctets

/-- A continuation octet `10xxxxxx`. -/
def isCont (b : Nat) : Bool := 0x80 ≤ b && b < 0xc0

/-- `b b₁` is a two-octet sequence. -/
def isTwo (b b₁ : Nat) : Bool := 0xc0 ≤ b && b < 0xe0 && isCont b₁

/-- `b b₁ b₂` is a three-octet sequence. -/
def isThree (b b₁ b₂ : Nat) : Bool := 0xe0 ≤ b && b < 0xf0 && isCont b₁ && isCont b₂

def decodeModified : List Nat → Option (List UInt16)
  | [] => some []
  | [b] => if b < 0x80 then some [UInt16.ofNat b] else none
  | [b, b₁] =>
    if b < 0x80 then (decodeModified [b₁]).map (UInt16.ofNat b :: ·)
    else if isTwo b b₁ then some [UInt16.ofNat (b % 32 * 64 + b₁ % 64)]
    else none
  | b :: b₁ :: b₂ :: rest =>
    if b < 0x80 then (decodeModified (b₁ :: b₂ :: rest)).map (UInt16.ofNat b :: ·)
    else if isTwo b b₁ then
      (decodeModified (b₂ :: rest)).map (UInt16.ofNat (b % 32 * 64 + b₁ % 64) :: ·)
    else if isThree b b₁ b₂ then
      (decodeModified rest).map
        (UInt16.ofNat (b % 16 * 4096 + b₁ % 64 * 64 + b₂ % 64) :: ·)
    else none

/-- The octets before the first zero octet. -/
def cString (bytes : List Nat) : List Nat := bytes.takeWhile (· ≠ 0)

/-! ## One code unit -/

@[simp] theorem encodeUtf8_nil : encodeUtf8 [] = [] := rfl

@[simp] theorem encodeModified_nil : encodeModified [] = [] := rfl

@[simp] theorem encodeModified_cons (c : UInt16) (s : List UInt16) :
    encodeModified (c :: s) = modifiedOctets c ++ encodeModified s := rfl

theorem unitOctets_ne_zero {c : Nat} (hc : c ≠ 0) : ∀ b ∈ unitOctets c, b ≠ 0 := by
  intro b hb
  unfold unitOctets at hb
  split at hb
  · simp only [List.mem_singleton] at hb
    omega
  · split at hb <;> simp only [List.mem_cons, List.not_mem_nil, or_false] at hb <;> omega

theorem modifiedOctets_eq_unitOctets {c : UInt16} (hc : c.toNat ≠ 0) :
    modifiedOctets c = unitOctets c.toNat := by
  simp [modifiedOctets, hc]

theorem decodeModified_one {b : Nat} (hb : b < 0x80) (rest : List Nat) :
    decodeModified (b :: rest) = (decodeModified rest).map (UInt16.ofNat b :: ·) := by
  match rest with
  | [] => simp [decodeModified, hb]
  | [b₁] => simp [decodeModified, hb]
  | b₁ :: b₂ :: rest => simp [decodeModified, hb]

theorem decodeModified_two {b b₁ : Nat} (hb : isTwo b b₁ = true) (rest : List Nat) :
    decodeModified (b :: b₁ :: rest) =
      (decodeModified rest).map (UInt16.ofNat (b % 32 * 64 + b₁ % 64) :: ·) := by
  have hlead : ¬ b < 0x80 := by
    simp only [isTwo, Bool.and_eq_true, decide_eq_true_eq] at hb
    omega
  match rest with
  | [] => simp [decodeModified, hlead, hb]
  | b₂ :: rest => rw [decodeModified, if_neg hlead, if_pos hb]

theorem decodeModified_three {b b₁ b₂ : Nat} (hb : isThree b b₁ b₂ = true) (rest : List Nat) :
    decodeModified (b :: b₁ :: b₂ :: rest) =
      (decodeModified rest).map
        (UInt16.ofNat (b % 16 * 4096 + b₁ % 64 * 64 + b₂ % 64) :: ·) := by
  simp only [isThree, Bool.and_eq_true, decide_eq_true_eq] at hb
  have hlead : ¬ b < 0x80 := by omega
  have htwo : ¬ isTwo b b₁ = true := by
    simp only [isTwo, Bool.and_eq_true, decide_eq_true_eq]
    omega
  have hthree : isThree b b₁ b₂ = true := by
    simpa only [isThree, Bool.and_eq_true, decide_eq_true_eq] using hb
  rw [decodeModified, if_neg hlead, if_neg htwo, if_pos hthree]

/-- The decoder takes one code unit off the front, whatever follows. -/
theorem decodeModified_unitOctets (c : UInt16) (rest : List Nat) :
    decodeModified (unitOctets c.toNat ++ rest) = (decodeModified rest).map (c :: ·) := by
  have hlt : c.toNat < 65536 := c.toNat_lt
  have hc : UInt16.ofNat c.toNat = c := UInt16.ofNat_toNat
  unfold unitOctets
  split
  · rename_i h
    rw [List.cons_append, List.nil_append, decodeModified_one h, hc]
  · split
    · have htwo : isTwo (0xc0 + c.toNat / 64) (0x80 + c.toNat % 64) = true := by
        simp only [isTwo, isCont, Bool.and_eq_true, decide_eq_true_eq]
        omega
      have hval : (0xc0 + c.toNat / 64) % 32 * 64 + (0x80 + c.toNat % 64) % 64 = c.toNat := by
        omega
      rw [List.cons_append, List.cons_append, List.nil_append, decodeModified_two htwo, hval, hc]
    · have hthree : isThree (0xe0 + c.toNat / 4096) (0x80 + c.toNat / 64 % 64)
          (0x80 + c.toNat % 64) = true := by
        simp only [isThree, isCont, Bool.and_eq_true, decide_eq_true_eq]
        omega
      have hval : (0xe0 + c.toNat / 4096) % 16 * 4096 + (0x80 + c.toNat / 64 % 64) % 64 * 64
          + (0x80 + c.toNat % 64) % 64 = c.toNat := by
        omega
      rw [List.cons_append, List.cons_append, List.cons_append, List.nil_append,
        decodeModified_three hthree, hval, hc]

/-- A four-octet sequence is not Modified UTF-8, whatever follows it. -/
theorem decodeModified_pairOctets (c d : Nat) (rest : List Nat) :
    decodeModified (pairOctets c d ++ rest) = none := by
  have hlead : ∀ k, ¬ (0xf0 + k < 0x80) := by
    intro k
    omega
  have htwo : ∀ k b, ¬ isTwo (0xf0 + k) b = true := by
    intro k b
    simp only [isTwo, Bool.and_eq_true, decide_eq_true_eq]
    omega
  have hthree : ∀ k b b', ¬ isThree (0xf0 + k) b b' = true := by
    intro k b b'
    simp only [isThree, Bool.and_eq_true, decide_eq_true_eq]
    omega
  simp only [pairOctets, List.cons_append, List.nil_append]
  rw [decodeModified, if_neg (hlead _), if_neg (htwo _ _), if_neg (hthree _ _ _)]

theorem cString_append_of_ne_zero {xs ys : List Nat} (h : ∀ b ∈ xs, b ≠ 0) :
    cString (xs ++ ys) = xs ++ cString ys := by
  unfold cString
  exact List.takeWhile_append_of_pos (by simpa using h)

theorem cString_unitOctets_append {c : Nat} (hc : c ≠ 0) (rest : List Nat) :
    cString (unitOctets c ++ rest) = unitOctets c ++ cString rest :=
  cString_append_of_ne_zero (unitOctets_ne_zero hc)

theorem cString_pairOctets_append (c d : Nat) (rest : List Nat) :
    cString (pairOctets c d ++ rest) = pairOctets c d ++ cString rest := by
  refine cString_append_of_ne_zero ?_
  intro b hb
  simp only [pairOctets, List.mem_cons, List.not_mem_nil, or_false] at hb
  omega

/-! ## Whole strings -/

/-- No octet of a string without U+0000 is zero, so a zero-terminated reader sees all of it. -/
theorem cString_encodeModified (s : List UInt16) : cString (encodeModified s) = encodeModified s := by
  induction s with
  | nil => rfl
  | cons c s ih =>
    rw [encodeModified_cons, cString_append_of_ne_zero, ih]
    by_cases hc : c.toNat = 0
    · simp [modifiedOctets, hc]
    · rw [modifiedOctets_eq_unitOctets hc]
      exact unitOctets_ne_zero hc

/-- The units before the first U+0000. -/
def beforeNul (s : List UInt16) : List UInt16 := s.takeWhile (·.toNat ≠ 0)

theorem beforeNul_eq_self_iff {s : List UInt16} :
    beforeNul s = s ↔ ∀ c ∈ s, c.toNat ≠ 0 := by
  simp [beforeNul, List.takeWhile_eq_self_iff]

/-- **What survives the mixed path.** A string written as UTF-8, cut at its first zero octet and
read as Modified UTF-8 comes back cut at its first U+0000, and is not readable at all when a
surrogate pair stands before that. Induction along `encodeUtf8`. -/
theorem decodeModified_cString_encodeUtf8 (s : List UInt16) :
    decodeModified (cString (encodeUtf8 s)) =
      if hasPair (beforeNul s) then none else some (beforeNul s) := by
  have hzero : ∀ rest, cString (unitOctets 0 ++ rest) = [] := by
    intro rest
    simp [cString, unitOctets]
  fun_induction encodeUtf8 s with
  | case1 => rfl
  | case2 c =>
    by_cases hc : c.toNat = 0
    · rw [hc, ← List.append_nil (unitOctets 0), hzero]
      simp [beforeNul, hc, decodeModified, hasPair]
    · have h := cString_unitOctets_append hc []
      rw [List.append_nil] at h
      rw [h, decodeModified_unitOctets]
      simp [cString, beforeNul, hc, decodeModified, hasPair]
  | case3 c d rest hcd ih =>
    -- a surrogate pair: neither unit is U+0000, and the decoder stops at the four octets
    rw [cString_pairOctets_append, decodeModified_pairOctets]
    obtain ⟨hhigh, hlow⟩ := Bool.and_eq_true_iff.mp hcd
    simp only [isHigh, Bool.and_eq_true, decide_eq_true_eq] at hhigh
    simp only [isLow, Bool.and_eq_true, decide_eq_true_eq] at hlow
    have hc : c.toNat ≠ 0 := by omega
    have hd : d.toNat ≠ 0 := by omega
    have hpair : hasPair (beforeNul (c :: d :: rest)) = true := by
      simp [beforeNul, hc, hd, hasPair, hcd]
    rw [hpair, if_pos rfl]
  | case4 c d rest hcd ih =>
    by_cases hc : c.toNat = 0
    · rw [hc, hzero]
      simp [beforeNul, hc, decodeModified, hasPair]
    · rw [cString_unitOctets_append hc, decodeModified_unitOctets, ih]
      have hcons : beforeNul (c :: d :: rest) = c :: beforeNul (d :: rest) := by
        simp [beforeNul, hc]
      rw [hcons]
      have hpair : hasPair (c :: beforeNul (d :: rest)) = hasPair (beforeNul (d :: rest)) := by
        by_cases hd : d.toNat = 0
        · simp [beforeNul, hd, hasPair]
        · have hd' : beforeNul (d :: rest) = d :: beforeNul rest := by
            simp [beforeNul, hd]
          have hnot : (isHigh c && isLow d) = false := by simpa using hcd
          rw [hd', hasPair, hnot, Bool.false_or]
      rw [hpair]
      split <;> rfl

end CodeUnits
