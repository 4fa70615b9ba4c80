import QuickJSBridge.Engine.Strings
import Mathlib.Logic.Function.Basic

/-!
# Strings through the bridge and back

A Java string goes to JS as the value of a property, as an element of an array or as the name of a property,
and comes back through `getString` and `getKeys`.

* `newAtomLen` — `JS_NewAtomLen`: before it decodes a name it looks for an atom with the same *octets*, so a
  name may get the atom of another string (`Aliased`);
* `set`, `getString`, `contains`, `getKeys`, `push`, `getStringAt` — the operations, over what the engine
  keeps of an object;
* `report_newString_iff`, `report_newAtom_iff` — which values and which names come back;
* `survives_iff` — the three trips together.
-/

namespace QuickJSBridge.StringTrips

open CodeUnits

/-! ## Atoms -/

def isDigit (b : Nat) : Bool := 0x30 ≤ b && b ≤ 0x39

/-- The octets read as an 8-bit string, as `memcmp` in `__JS_FindAtom` takes them. -/
def asNarrow (bytes : List Nat) : Text := bytes.map UInt16.ofNat

/-- `JS_NewAtomLen`, `narrow` being the 8-bit strings that have atoms. An atom is given by its string. -/
def newAtomLen (narrow : List Text) (bytes : List Nat) : Text :=
  if (bytes.head?.any isDigit) = false ∧ asNarrow bytes ∈ narrow then asNarrow bytes
  else newStringLen bytes

/-- `JS_NewAtom(ctx, GetStringUTFChars(key))` -/
def newAtom (narrow : List Text) (key : Text) : Text := newAtomLen narrow (cString (getStringUTFChars key))

/-- The table once the string has an atom. -/
def remember (atom : Text) (narrow : List Text) : List Text :=
  if atom.all (·.toNat < 256) then atom :: narrow else narrow

/-! ## Objects -/

inductive Value where
  | text (t : Text)
  -- any other value, with what `getString` makes of it; `none` is null
  | other (read : Option Text)
  deriving DecidableEq

/-- What is found of a property after it was set, and the enumerable names of the object then. -/
structure Response where
  found : Option Value
  names : List Text

structure Obj where
  -- the enumerable own names
  names : List Text
  -- what a read of a name finds, on the object or on a prototype
  find : Text → Option Value
  -- the names that `JS_SetPropertyStr` makes no data property of: an accessor (`__proto__` for one), a
  -- read-only property, `length` of an array; the response to a string
  special : Text → Option (Text → Response)

/-- `JS_SetPropertyInternal` with a string -/
def Obj.setProperty (o : Obj) (prop : Text) (t : Text) : Obj :=
  match o.special prop with
  | some answer =>
    { o with names := (answer t).names, find := Function.update o.find prop (answer t).found }
  | none =>
    { o with
      names := if prop ∈ o.names then o.names else o.names ++ [prop]
      find := Function.update o.find prop (some (.text t)) }

structure State where
  narrow : List Text
  obj : Obj

/-! ## The operations -/

/-- `NewStringUTF(JS_ToCString(..))` of a string; `none` is undefined behaviour. -/
def report (t : Text) : Option Text := newStringUTF (toCString t)

/-- `To_JObject` with the type String, and `checkType`. -/
def Value.toJObject : Value → Option (Option Text)
  | .text t => (report t).map some
  | .other none => some none
  | .other (some t) => (report t).map some

/-- `_set` with a string -/
def State.set (s : State) (key value : Text) : State where
  narrow := remember (newAtom s.narrow key) s.narrow
  obj := s.obj.setProperty (newAtom s.narrow key) (newString (getStringUTFChars value))

/-- `JS_GetPropertyStr` -/
def State.getProperty (s : State) (key : Text) : Option Value := s.obj.find (newAtom s.narrow key)

/-- `getString(key)`: outside `none` is undefined behaviour, inside it is null. -/
def State.getString (s : State) (key : Text) : Option (Option Text) :=
  ((s.getProperty key).getD (.other none)).toJObject

/-- `_contains` -/
def State.contains (s : State) (key : Text) : Bool := (s.getProperty key).isSome

/-- `_getKeys` -/
def State.getKeys (s : State) : Option (List Text) := s.obj.names.mapM report

/-- `_arrayAdd` with a string -/
def push (elements : List Value) (value : Text) : List Value :=
  elements ++ [.text (newString (getStringUTFChars value))]

/-- `getString(index)` of an array -/
def getStringAt (elements : List Value) (index : Nat) : Option (Option Text) :=
  ((elements[index]?).getD (.other none)).toJObject

/-! ## Values -/

/-- Neither U+0000 nor a surrogate pair. -/
def Plain (s : Text) : Prop := (∀ c ∈ s, c.toNat ≠ 0) ∧ hasPair s = false

instance (s : Text) : Decidable (Plain s) := inferInstanceAs (Decidable (_ ∧ _))

theorem plain_of_all {s : Text} (hnul : (s.all fun c => c.toNat != 0) = true) (hpair : hasPair s = false) :
    Plain s :=
  ⟨fun c hc => by simpa using List.all_eq_true.mp hnul c hc, hpair⟩

theorem report_eq_some_iff {t r : Text} : report t = some r ↔ hasPair (beforeNul t) = false ∧ beforeNul t = r := by
  unfold report
  rw [newStringUTF_toCString]
  cases hasPair (beforeNul t) <;> simp

/-- What comes back to Java has no U+0000 and no pair. -/
theorem plain_of_report {t r : Text} (h : report t = some r) : Plain r := by
  obtain ⟨hpair, rfl⟩ := report_eq_some_iff.mp h
  refine ⟨fun c hc => ?_, hpair⟩
  simpa using List.mem_takeWhile_imp hc

theorem report_of_plain {s : Text} (h : Plain s) : report s = some s :=
  report_eq_some_iff.mpr (by rw [beforeNul_eq_self_iff.mpr h.1]; exact ⟨h.2, rfl⟩)

theorem report_newString_iff (s : Text) : report (newString (getStringUTFChars s)) = some s ↔ Plain s := by
  constructor
  · exact plain_of_report
  · intro h
    rw [newString_getStringUTFChars h.1]
    exact report_of_plain h

theorem toJObject_newString_iff (s : Text) :
    (Value.text (newString (getStringUTFChars s))).toJObject = some (some s) ↔ Plain s := by
  rw [← report_newString_iff]
  show (report (newString (getStringUTFChars s))).map some = some (some s) ↔ _
  rw [Option.map_eq_some_iff]
  simp

/-! ## Names -/

def Ascii (s : Text) : Prop := ∀ c ∈ s, c.toNat < 0x80

instance (s : Text) : Decidable (Ascii s) := inferInstanceAs (Decidable (∀ c ∈ s, _))

/-- The octets of the name are another string that has an atom. -/
def Aliased (narrow : List Text) (s : Text) : Prop :=
  ((encodeModified s).head?.any isDigit) = false ∧ asNarrow (encodeModified s) ∈ narrow ∧ ¬ Ascii s

instance (narrow : List Text) (s : Text) : Decidable (Aliased narrow s) :=
  inferInstanceAs (Decidable (_ ∧ _ ∧ _))

theorem newAtom_eq (narrow : List Text) (s : Text) :
    newAtom narrow s =
      if ((encodeModified s).head?.any isDigit) = false ∧ asNarrow (encodeModified s) ∈ narrow then
        asNarrow (encodeModified s)
      else newStringLen (encodeModified s) := by
  unfold newAtom getStringUTFChars newAtomLen
  rw [cString_encodeModified]

theorem newStringLen_of_noNul {s : Text} (h : ∀ c ∈ s, c.toNat ≠ 0) : newStringLen (encodeModified s) = s := by
  have hnew := newString_getStringUTFChars h
  unfold newString getStringUTFChars at hnew
  rwa [cString_encodeModified] at hnew

theorem length_unitOctets_eq_one {c : Nat} (h : (unitOctets c).length = 1) : c < 0x80 := by
  unfold unitOctets at h
  split at h
  · rename_i hlt
    exact hlt
  · split at h <;> cases h

theorem length_le_encodeModified {s : Text} (h : ∀ c ∈ s, c.toNat ≠ 0) :
    s.length ≤ (encodeModified s).length ∧ ((encodeModified s).length = s.length → Ascii s) := by
  induction s with
  | nil => exact ⟨Nat.le_refl 0, fun _ c hc => by cases hc⟩
  | cons c s ih =>
    obtain ⟨hle, hascii⟩ := ih fun d hd => h d (List.mem_cons_of_mem c hd)
    have hpos := length_unitOctets_pos c.toNat
    rw [encodeModified_cons, modifiedOctets_eq_unitOctets (h c List.mem_cons_self), List.length_append,
      List.length_cons]
    refine ⟨by omega, fun heq d hd => ?_⟩
    rcases List.mem_cons.mp hd with rfl | hd
    · exact length_unitOctets_eq_one (by omega)
    · exact hascii (by omega) d hd

theorem encodeModified_of_ascii {s : Text} (h : ∀ c ∈ s, c.toNat ≠ 0) (hascii : Ascii s) :
    encodeModified s = s.map UInt16.toNat := by
  induction s with
  | nil => rfl
  | cons c s ih =>
    have hc : unitOctets c.toNat = [c.toNat] := if_pos (hascii c List.mem_cons_self)
    rw [encodeModified_cons, modifiedOctets_eq_unitOctets (h c List.mem_cons_self), hc,
      ih (fun d hd => h d (List.mem_cons_of_mem c hd)) fun d hd => hascii d (List.mem_cons_of_mem c hd)]
    rfl

/-- The octets of a text without U+0000 are the text itself only if it is ASCII. -/
theorem asNarrow_eq_iff {s : Text} (h : ∀ c ∈ s, c.toNat ≠ 0) : asNarrow (encodeModified s) = s ↔ Ascii s := by
  constructor
  · intro heq
    apply (length_le_encodeModified h).2
    rw [← congrArg List.length heq]
    exact (List.length_map _).symm
  · intro hascii
    unfold asNarrow
    rw [encodeModified_of_ascii h hascii, List.map_map]
    conv_rhs => rw [← List.map_id s]
    exact List.map_congr_left fun c _ => UInt16.ofNat_toNat

theorem noNul_encodeModified (s : Text) : ∀ b ∈ encodeModified s, b ≠ 0 := by
  have h := cString_encodeModified s
  unfold cString at h
  intro b hb
  simpa using List.takeWhile_eq_self_iff.mp h b hb

theorem encodeModified_lt (s : Text) : ∀ b ∈ encodeModified s, b < 256 := by
  intro b hb
  obtain ⟨c, _, hc⟩ := List.mem_flatMap.mp hb
  have hlt : c.toNat < 65536 := c.toNat_lt
  unfold modifiedOctets at hc
  split at hc
  · simp only [List.mem_cons, List.not_mem_nil, or_false] at hc
    omega
  · unfold unitOctets at hc
    split at hc
    · simp only [List.mem_singleton] at hc
      omega
    · split at hc <;> simp only [List.mem_cons, List.not_mem_nil, or_false] at hc <;> omega

theorem noNul_asNarrow (s : Text) : ∀ c ∈ asNarrow (encodeModified s), c.toNat ≠ 0 := by
  intro c hc
  obtain ⟨b, hb, rfl⟩ := List.mem_map.mp hc
  have hne := noNul_encodeModified s b hb
  have hlt := encodeModified_lt s b hb
  rw [UInt16.toNat_ofNat_of_lt' (by simp only [UInt16.size]; omega)]
  exact hne

/-- **Names.** A name comes back iff it is plain and not aliased. -/
theorem report_newAtom_iff (narrow : List Text) (s : Text) :
    report (newAtom narrow s) = some s ↔ Plain s ∧ ¬ Aliased narrow s := by
  constructor
  · intro h
    have hplain := plain_of_report h
    refine ⟨hplain, fun ⟨hdigit, hmem, hascii⟩ => ?_⟩
    rw [newAtom_eq, if_pos ⟨hdigit, hmem⟩] at h
    have heq := (report_eq_some_iff.mp h).2
    rw [beforeNul_eq_self_iff.mpr (noNul_asNarrow s)] at heq
    exact hascii ((asNarrow_eq_iff hplain.1).mp heq)
  · rintro ⟨hplain, hnot⟩
    rw [newAtom_eq]
    split
    · rename_i hfound
      have hascii : Ascii s := by
        by_contra hascii
        exact hnot ⟨hfound.1, hfound.2, hascii⟩
      rw [(asNarrow_eq_iff hplain.1).mpr hascii]
      exact report_of_plain hplain
    · rw [newStringLen_of_noNul hplain.1]
      exact report_of_plain hplain

/-- Setting a name does not change the atom that the name gets. -/
theorem newAtom_remember (narrow : List Text) (s : Text) :
    newAtom (remember (newAtom narrow s) narrow) s = newAtom narrow s := by
  have hsub : ∀ t, t ∈ remember (newAtom narrow s) narrow → t ∈ narrow ∨ t = newAtom narrow s := by
    intro t ht
    unfold remember at ht
    split at ht
    · exact (List.mem_cons.mp ht).symm
    · exact Or.inl ht
  rw [newAtom_eq (remember _ _)]
  split
  · rename_i hfound
    rcases hsub _ hfound.2 with hmem | heq
    · rw [newAtom_eq, if_pos ⟨hfound.1, hmem⟩]
    · exact heq
  · rename_i hnot
    rw [newAtom_eq]
    split
    · rename_i hfound
      exfalso
      apply hnot
      refine ⟨hfound.1, ?_⟩
      unfold remember
      split
      · exact List.mem_cons_of_mem _ hfound.2
      · exact hfound.2
    · rfl

/-! ## The trips -/

/-- Every name can be read as Modified UTF-8, and one of them is reported as `s`. -/
def Reported (names : List Text) (s : Text) : Prop :=
  (∀ t ∈ names, hasPair (beforeNul t) = false) ∧ s ∈ names.map beforeNul

/-- `getKeys()` reports `s`. -/
def State.Reports (s : State) (key : Text) : Prop := ∃ keys, s.getKeys = some keys ∧ key ∈ keys

theorem mapM_report {names : List Text} {keys : List Text} :
    names.mapM report = some keys ↔
      (∀ t ∈ names, hasPair (beforeNul t) = false) ∧ keys = names.map beforeNul := by
  induction names generalizing keys with
  | nil =>
    constructor
    · intro h
      exact ⟨fun t ht => absurd ht List.not_mem_nil, (Option.some.inj h).symm⟩
    · rintro ⟨_, rfl⟩
      rfl
  | cons t names ih =>
    rw [List.mapM_cons]
    constructor
    · intro h
      obtain ⟨r, hr, hrest⟩ := Option.bind_eq_some_iff.mp h
      obtain ⟨rs, hrs, hkeys⟩ := Option.bind_eq_some_iff.mp hrest
      obtain ⟨hpair, rfl⟩ := report_eq_some_iff.mp hr
      obtain ⟨hall, rfl⟩ := ih.mp hrs
      refine ⟨fun u hu => ?_, (Option.some.inj hkeys).symm⟩
      rcases List.mem_cons.mp hu with rfl | hu
      · exact hpair
      · exact hall u hu
    · rintro ⟨hall, rfl⟩
      have ht : report t = some (beforeNul t) := report_eq_some_iff.mpr ⟨hall t List.mem_cons_self, rfl⟩
      have hrest : names.mapM report = some (names.map beforeNul) :=
        ih.mpr ⟨fun u hu => hall u (List.mem_cons_of_mem t hu), rfl⟩
      rw [ht, hrest]
      rfl

theorem reports_iff (s : State) (key : Text) : s.Reports key ↔ Reported s.obj.names key := by
  constructor
  · rintro ⟨keys, hkeys, hmem⟩
    obtain ⟨hall, rfl⟩ := mapM_report.mp hkeys
    exact ⟨hall, hmem⟩
  · rintro ⟨hall, hmem⟩
    exact ⟨_, mapM_report.mpr ⟨hall, rfl⟩, hmem⟩

theorem getProperty_set_special {s : State} {key : Text} (value : Text) {answer : Text → Response}
    (h : s.obj.special (newAtom s.narrow key) = some answer) :
    (s.set key value).getProperty key = (answer (newString (getStringUTFChars value))).found ∧
      (s.set key value).obj.names = (answer (newString (getStringUTFChars value))).names := by
  unfold State.getProperty State.set Obj.setProperty
  rw [h]
  dsimp only
  rw [newAtom_remember, Function.update_self]
  exact ⟨rfl, rfl⟩

theorem getProperty_set_plain {s : State} {key : Text} (value : Text)
    (h : s.obj.special (newAtom s.narrow key) = none) :
    (s.set key value).getProperty key = some (.text (newString (getStringUTFChars value))) ∧
      (s.set key value).obj.names =
        if newAtom s.narrow key ∈ s.obj.names then s.obj.names else s.obj.names ++ [newAtom s.narrow key] := by
  unfold State.getProperty State.set Obj.setProperty
  rw [h]
  dsimp only
  rw [newAtom_remember, Function.update_self]
  exact ⟨rfl, rfl⟩

theorem reported_insert {names : List Text} {a s : Text} :
    Reported (if a ∈ names then names else names ++ [a]) s ↔
      (∀ t ∈ names, hasPair (beforeNul t) = false) ∧
        (report a = some s ∨ hasPair (beforeNul a) = false ∧ s ∈ names.map beforeNul) := by
  rw [report_eq_some_iff]
  split
  · rename_i hmem
    constructor
    · rintro ⟨hall, hs⟩
      exact ⟨hall, Or.inr ⟨hall a hmem, hs⟩⟩
    · rintro ⟨hall, ⟨_, rfl⟩ | ⟨_, hs⟩⟩
      · exact ⟨hall, List.mem_map_of_mem hmem⟩
      · exact ⟨hall, hs⟩
  · unfold Reported
    simp only [List.mem_append, List.mem_singleton, List.map_append, List.map_cons, List.map_nil]
    constructor
    · rintro ⟨hall, hs⟩
      have ha := hall a (Or.inr rfl)
      refine ⟨fun t ht => hall t (Or.inl ht), ?_⟩
      rcases hs with hs | hs
      · exact Or.inr ⟨ha, hs⟩
      · exact Or.inl ⟨ha, hs.symm⟩
    · rintro ⟨hall, ⟨ha, hs⟩ | ⟨ha, hs⟩⟩
      · exact ⟨fun t ht => ht.elim (hall t) fun h => h ▸ ha, Or.inr hs.symm⟩
      · exact ⟨fun t ht => ht.elim (hall t) fun h => h ▸ ha, Or.inl hs⟩

/-- The value comes back: from an ordinary name if it is plain, from a special one as that answers. -/
def ValueReturns (s : State) (key value : Text) : Prop :=
  (s.obj.special (newAtom s.narrow key) = none → Plain value) ∧
    ∀ answer, s.obj.special (newAtom s.narrow key) = some answer →
      (((answer (newString (getStringUTFChars value))).found).getD (.other none)).toJObject = some (some value)

/-- The name comes back: every other name can be read, and the name is plain and not aliased, or another name
is reported as it. -/
def NameReturns (s : State) (key value : Text) : Prop :=
  (s.obj.special (newAtom s.narrow key) = none →
    (∀ t ∈ s.obj.names, hasPair (beforeNul t) = false) ∧
      (Plain key ∧ ¬ Aliased s.narrow key ∨
        hasPair (beforeNul (newAtom s.narrow key)) = false ∧ key ∈ s.obj.names.map beforeNul)) ∧
    ∀ answer, s.obj.special (newAtom s.narrow key) = some answer →
      (answer (newString (getStringUTFChars value))).found =
          some (.text (newString (getStringUTFChars value))) ∧
        Reported (answer (newString (getStringUTFChars value))).names key

/-- The name is reported, and the property is found under it. -/
def NameSurvives (s : State) (key value : Text) : Prop :=
  (s.set key value).Reports key ∧
    (s.set key value).getProperty key = some (.text (newString (getStringUTFChars value))) ∧
    (s.set key value).contains key = true

theorem getString_set_iff (s : State) (key value : Text) :
    (s.set key value).getString key = some (some value) ↔ ValueReturns s key value := by
  unfold State.getString ValueReturns
  cases h : s.obj.special (newAtom s.narrow key) with
  | none =>
    rw [(getProperty_set_plain _ h).1, Option.getD_some, toJObject_newString_iff]
    exact ⟨fun hp => ⟨fun _ => hp, fun _ ha => (by cases ha)⟩, fun hp => hp.1 rfl⟩
  | some answer =>
    rw [(getProperty_set_special _ h).1]
    constructor
    · intro hread
      refine ⟨fun hn => (by cases hn), fun answer' ha => ?_⟩
      rw [← Option.some.inj ha]
      exact hread
    · intro hp
      exact hp.2 answer rfl

theorem nameSurvives_iff (s : State) (key value : Text) : NameSurvives s key value ↔ NameReturns s key value := by
  unfold NameSurvives NameReturns State.contains
  rw [reports_iff]
  cases h : s.obj.special (newAtom s.narrow key) with
  | none =>
    obtain ⟨hfound, hnames⟩ := getProperty_set_plain value h
    rw [hfound, hnames, reported_insert, report_newAtom_iff]
    constructor
    · rintro ⟨hrep, _, _⟩
      exact ⟨fun _ => hrep, fun _ ha => (by cases ha)⟩
    · rintro ⟨hrep, _⟩
      exact ⟨hrep rfl, rfl, rfl⟩
  | some answer =>
    obtain ⟨hfound, hnames⟩ := getProperty_set_special value h
    rw [hfound, hnames]
    constructor
    · rintro ⟨hrep, hvalue, _⟩
      refine ⟨fun hn => (by cases hn), fun answer' ha => ?_⟩
      rw [← Option.some.inj ha]
      exact ⟨hvalue, hrep⟩
    · rintro ⟨_, hall⟩
      obtain ⟨hvalue, hrep⟩ := hall answer rfl
      exact ⟨hrep, hvalue, by rw [hvalue]; rfl⟩

theorem getStringAt_push_iff (elements : List Value) (value : Text) :
    getStringAt (push elements value) elements.length = some (some value) ↔ Plain value := by
  unfold getStringAt push
  rw [List.getElem?_concat_length, Option.getD_some, toJObject_newString_iff]

/-- **Strings through the bridge.** The value of a property, the element of an array and the name of a
property survive exactly as `ValueReturns`, `Plain` and `NameReturns` say. -/
theorem survives_iff (s : State) (elements : List Value) (key value : Text) :
    ((s.set key value).getString key = some (some value) ∧
      getStringAt (push elements value) elements.length = some (some value) ∧
      ∀ v, NameSurvives s value v) ↔
    (ValueReturns s key value ∧ Plain value ∧ ∀ v, NameReturns s value v) := by
  rw [getString_set_iff, getStringAt_push_iff]
  simp only [nameSurvives_iff]

/-- An object without properties. -/
def emptyState : State where
  narrow := []
  obj := ⟨[], fun _ => none, fun _ => none⟩

/-- A surrogate pair does not survive: `NewStringUTF` gets four-octet UTF-8. -/
theorem not_survives_pair :
    ¬ ∀ (s : State) (elements : List Value) (key value : Text),
      (s.set key value).getString key = some (some value) ∧
        getStringAt (push elements value) elements.length = some (some value) ∧
        ∀ v, NameSurvives s value v := by
  intro hall
  have h := (hall emptyState [] [0x6b] [0xd83d, 0xde00]).2.1
  revert h
  decide

end QuickJSBridge.StringTrips
