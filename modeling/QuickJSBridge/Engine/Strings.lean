import QuickJSBridge.Lib.CodeUnits

/-!
# Strings between QuickJS and Java

`JS_ToCString` writes a JS string as UTF-8 and `JS_NewString` reads UTF-8; JNI's `NewStringUTF` and
`GetStringUTFChars` read and write Modified UTF-8. The bridge passes the text of one side to the other
as a zero-terminated C string.

* `newStringLen` — `JS_NewStringLen`, error path included, over `unicodeFromUtf8` (`cutils.c`);
* `newStringUTF`, `getStringUTFChars` — the JNI functions;
* `newStringLen_encodeModified` — a Java string without U+0000 arrives in JS unit by unit;
* `newStringUTF_toCString` — a JS string arrives in Java cut at its first U+0000, and a surrogate pair
  before that is not Modified UTF-8.
-/

namespace QuickJSBridge

open CodeUnits

/-- The code units of a JS or Java string. -/
abbrev Text := List UInt16

/-! ## The decoder of `cutils.c` -/

/-- The number of continuation octets that the first octet announces. -/
def continuations (c : Nat) : Option Nat :=
  if 0xc0 ≤ c ∧ c < 0xe0 then some 1
  else if 0xe0 ≤ c ∧ c < 0xf0 then some 2
  else if 0xf0 ≤ c ∧ c < 0xf8 then some 3
  else if 0xf8 ≤ c ∧ c < 0xfc then some 4
  else if 0xfc ≤ c ∧ c < 0xfe then some 5
  else none

/-- One more than `utf8_first_code_mask[l - 1]`. -/
def utf8FirstCode : Nat → Nat
  | 1 => 0x20
  | 2 => 0x10
  | 3 => 0x8
  | 4 => 0x4
  | _ => 0x2

/-- `utf8_min_code[l - 1]` -/
def utf8MinCode : Nat → Nat
  | 1 => 0x80
  | 2 => 0x800
  | 3 => 0x10000
  | 4 => 0x00200000
  | _ => 0x04000000

def readContinuations : Nat → Nat → List Nat → Option (Nat × List Nat)
  | 0, c, rest => some (c, rest)
  | _ + 1, _, [] => none
  | l + 1, c, b :: rest =>
    if isCont b then readContinuations l (c * 64 + b % 64) rest else none

/-- `unicode_from_utf8`: the code point and the octets after it; `none` is the error `-1`. -/
def unicodeFromUtf8 : List Nat → Option (Nat × List Nat)
  | [] => none
  | c :: rest =>
    if c < 0x80 then some (c, rest)
    else
      match continuations c with
      | none => none
      | some l =>
        match readContinuations l (c % utf8FirstCode l) rest with
        | none => none
        | some (code, rest') => if code < utf8MinCode l then none else some (code, rest')

/-- The octets after an invalid sequence. -/
def skipInvalid (bytes : List Nat) : List Nat :=
  match bytes.dropWhile isCont with
  | [] => []
  | _ :: rest => rest.dropWhile isCont

/-- The loop of `JS_NewStringLen`; each turn takes at least one octet, so the length bounds them. -/
def newStringLoop : Nat → List Nat → Text
  | 0, _ => []
  | _ + 1, [] => []
  | n + 1, b :: rest =>
    match unicodeFromUtf8 (b :: rest) with
    | some (c, rest') =>
      if c < 0x10000 then UInt16.ofNat c :: newStringLoop n rest'
      else if c ≤ 0x10ffff then
        UInt16.ofNat ((c - 0x10000) / 1024 + 0xd800) ::
          UInt16.ofNat ((c - 0x10000) % 1024 + 0xdc00) :: newStringLoop n rest'
      else 0xfffd :: newStringLoop n (skipInvalid (b :: rest))
    | none => 0xfffd :: newStringLoop n (skipInvalid (b :: rest))

/-- `JS_NewStringLen` -/
def newStringLen (bytes : List Nat) : Text := newStringLoop bytes.length bytes

/-- `JS_NewString` -/
def newString (bytes : List Nat) : Text := newStringLen (cString bytes)

/-! ## The functions of JNI and of the engine's other direction -/

/-- The octets that `JS_ToCString` makes of a string. -/
def toCString (s : Text) : List Nat := encodeUtf8 s

/-- `NewStringUTF`; `none` is its undefined behaviour on what is not Modified UTF-8. -/
def newStringUTF (bytes : List Nat) : Option Text := decodeModified (cString bytes)

/-- `GetStringUTFChars` -/
def getStringUTFChars (s : Text) : List Nat := encodeModified s

/-! ## One code unit -/

theorem unicodeFromUtf8_unitOctets (c : UInt16) (rest : List Nat) :
    unicodeFromUtf8 (unitOctets c.toNat ++ rest) = some (c.toNat, rest) := by
  have hlt : c.toNat < 65536 := c.toNat_lt
  unfold unitOctets
  split
  · rename_i h
    show (if c.toNat < 0x80 then _ else _) = _
    rw [if_pos h]
    rfl
  · split
    · -- two octets
      have hlead : ¬ (0xc0 + c.toNat / 64 < 0x80) := by omega
      have hcont : continuations (0xc0 + c.toNat / 64) = some 1 := by
        unfold continuations
        rw [if_pos (by omega)]
      have htail : isCont (0x80 + c.toNat % 64) = true := by
        simp only [isCont, Bool.and_eq_true, decide_eq_true_eq]
        omega
      have hcode : (0xc0 + c.toNat / 64) % 32 * 64 + (0x80 + c.toNat % 64) % 64 = c.toNat := by
        omega
      have hmin : ¬ (c.toNat < 0x80) := by omega
      simp only [List.cons_append, List.nil_append, unicodeFromUtf8, if_neg hlead, hcont,
        utf8FirstCode, readContinuations, htail, if_true, hcode, utf8MinCode, if_neg hmin]
    · -- three octets
      have hlead : ¬ (0xe0 + c.toNat / 4096 < 0x80) := by omega
      have hcont : continuations (0xe0 + c.toNat / 4096) = some 2 := by
        unfold continuations
        rw [if_neg (by omega), if_pos (by omega)]
      have htail : isCont (0x80 + c.toNat / 64 % 64) = true := by
        simp only [isCont, Bool.and_eq_true, decide_eq_true_eq]
        omega
      have htail' : isCont (0x80 + c.toNat % 64) = true := by
        simp only [isCont, Bool.and_eq_true, decide_eq_true_eq]
        omega
      have hcode : ((0xe0 + c.toNat / 4096) % 16 * 64 + (0x80 + c.toNat / 64 % 64) % 64) * 64
          + (0x80 + c.toNat % 64) % 64 = c.toNat := by
        omega
      have hmin : ¬ (c.toNat < 0x800) := by omega
      simp only [List.cons_append, List.nil_append, unicodeFromUtf8, if_neg hlead, hcont,
        utf8FirstCode, readContinuations, htail, htail', if_true, hcode, utf8MinCode, if_neg hmin]

/-- The loop takes the octets of one code unit in one turn, whatever follows. -/
theorem newStringLoop_unitOctets (c : UInt16) (n : Nat) (rest : List Nat) :
    newStringLoop (n + 1) (unitOctets c.toNat ++ rest) = c :: newStringLoop n rest := by
  have hlt : c.toNat < 0x10000 := c.toNat_lt
  have hcode := unicodeFromUtf8_unitOctets c rest
  cases hbytes : unitOctets c.toNat ++ rest with
  | nil =>
    rw [hbytes] at hcode
    cases hcode
  | cons b tail =>
    rw [hbytes] at hcode
    rw [newStringLoop, hcode]
    show (if c.toNat < 0x10000 then _ else _) = _
    rw [if_pos hlt, UInt16.ofNat_toNat]

theorem length_unitOctets_pos (c : Nat) : 1 ≤ (unitOctets c).length := by
  unfold unitOctets
  split
  · exact Nat.le_refl 1
  · split <;> simp

/-! ## Whole strings -/

theorem newStringLoop_encodeModified {s : Text} (hs : ∀ c ∈ s, c.toNat ≠ 0) {n : Nat}
    (hn : (encodeModified s).length ≤ n) : newStringLoop n (encodeModified s) = s := by
  induction s generalizing n with
  | nil => cases n <;> rfl
  | cons c s ih =>
    have hc : c.toNat ≠ 0 := hs c List.mem_cons_self
    rw [encodeModified_cons, modifiedOctets_eq_unitOctets hc] at hn ⊢
    rw [List.length_append] at hn
    have hpos := length_unitOctets_pos c.toNat
    cases n with
    | zero => omega
    | succ n =>
      have htail : (encodeModified s).length ≤ n := by omega
      rw [newStringLoop_unitOctets, ih (fun d hd => hs d (List.mem_cons_of_mem c hd)) htail]

/-- **Java to JS.** A Java string without U+0000 arrives unit by unit. -/
theorem newString_getStringUTFChars {s : Text} (hs : ∀ c ∈ s, c.toNat ≠ 0) :
    newString (getStringUTFChars s) = s := by
  unfold newString getStringUTFChars newStringLen
  rw [cString_encodeModified]
  exact newStringLoop_encodeModified hs (Nat.le_refl _)

/-- **JS to Java.** -/
theorem newStringUTF_toCString (s : Text) :
    newStringUTF (toCString s) = if hasPair (beforeNul s) then none else some (beforeNul s) :=
  decodeModified_cString_encodeUtf8 s

theorem newStringUTF_toCString_eq_self {s : Text} (hpair : hasPair s = false)
    (hs : ∀ c ∈ s, c.toNat ≠ 0) : newStringUTF (toCString s) = some s := by
  rw [newStringUTF_toCString, beforeNul_eq_self_iff.mpr hs, hpair]
  rfl

end QuickJSBridge
