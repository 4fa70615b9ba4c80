import QuickJSBridge.Engine.PropertyNames
import QuickJSBridge.Java.JsonRoundTrip

/-!
# The order of keys

`getKeys` gives the names that `JS_GetOwnPropertyNames` finds. The model of JSON documents has the order of names as a
function of texts, `ownNames`; here this order is derived from the shapes, atoms and tables of the engine.

* `numLoop_eq`, `isNumString_eq` — `is_num_string` reads what `arrayIndex?` says is an index;
* `indexName_index` — a small index comes back from its name;
* `getKeys`, `names_text`, `runs_keys` — after any run the keys of an object are `ownNames` of its enumerable strings, in the
  order in which they were added, and of the elements.
-/

namespace QuickJSBridge.KeyOrder

open JsonImport JsonRoundTrip Shapes

/-! ## Numbers -/

/-- The number that digits are, after `n`. -/
def digits (n : Nat) (name : Text) : Nat := name.foldl (fun n c => 10 * n + (c.toNat - 0x30)) n

def allDigits (name : Text) : Bool := name.all fun c => StringTrips.isDigit c.toNat

theorem isNum_eq (c : Nat) : isNum c = StringTrips.isDigit c := rfl

theorem le_digits (n : Nat) (name : Text) : n * 10 ^ name.length ≤ digits n name := by
  induction name generalizing n with
  | nil => exact Nat.le_of_eq (Nat.mul_one n)
  | cons c name ih =>
    have hrest := ih (10 * n + (c.toNat - 0x30))
    have hpow : n * 10 ^ (name.length + 1) = 10 * n * 10 ^ name.length := by
      rw [Nat.pow_succ, Nat.mul_comm (10 ^ name.length) 10, ← Nat.mul_assoc, Nat.mul_comm n 10]
    calc n * 10 ^ (name.length + 1) = 10 * n * 10 ^ name.length := hpow
      _ ≤ (10 * n + (c.toNat - 0x30)) * 10 ^ name.length := Nat.mul_le_mul_right _ (Nat.le_add_right _ _)
      _ ≤ digits n (c :: name) := hrest

theorem numLoop_eq {n : Nat} (hn : n < 2 ^ 32) (name : Text) :
    numLoop n name = if allDigits name = true ∧ digits n name < 2 ^ 32 then some (digits n name) else none := by
  induction name generalizing n with
  | nil => exact (if_pos ⟨rfl, hn⟩).symm
  | cons c name ih =>
    unfold numLoop
    have hdigits : digits n (c :: name) = digits (n * 10 + (c.toNat - 0x30)) name := by
      show digits (10 * n + (c.toNat - 0x30)) name = _
      rw [Nat.mul_comm]
    have hall : allDigits (c :: name) = (StringTrips.isDigit c.toNat && allDigits name) := rfl
    rw [isNum_eq, hdigits, hall]
    by_cases hc : StringTrips.isDigit c.toNat = true
    · rw [if_neg (not_not.mpr hc), hc, Bool.true_and]
      by_cases hlarge : (n * 10 + (c.toNat - 0x30)) >>> 32 ≠ 0
      · have hge : 2 ^ 32 ≤ n * 10 + (c.toNat - 0x30) := by
          by_contra hlt
          rw [Nat.shiftRight_eq_div_pow, Nat.div_eq_of_lt (by omega)] at hlarge
          exact hlarge rfl
        have hle := le_digits (n * 10 + (c.toNat - 0x30)) name
        have hpos : 0 < 10 ^ name.length := Nat.pow_pos (by decide)
        have hmul := Nat.le_mul_of_pos_right (n * 10 + (c.toNat - 0x30)) hpos
        simp only [if_pos hlarge]
        exact (if_neg fun hand => by omega).symm
      · have hlt : n * 10 + (c.toNat - 0x30) < 2 ^ 32 := by
          rw [not_not, Nat.shiftRight_eq_div_pow] at hlarge
          exact (Nat.div_eq_zero_iff_lt (by decide)).mp hlarge
        simp only [if_neg hlarge]
        exact ih hlt
    · rw [if_pos hc, if_neg fun hand => hc (Bool.and_eq_true_iff.mp hand.1).1]

theorem arrayIndex_eq (name : Text) : arrayIndex? name =
    if name ≠ [] ∧ allDigits name = true ∧ (name.head? = some 0x30 → name.length = 1) ∧ digits 0 name < 2 ^ 32 - 1 then
      some (digits 0 name)
    else none := rfl

theorem digits_cons (c : UInt16) (rest : Text) : digits 0 (c :: rest) = digits (c.toNat - 0x30) rest := by
  show digits (10 * 0 + (c.toNat - 0x30)) rest = _
  rw [Nat.mul_zero, Nat.zero_add]

/-- A number of more than ten digits is too large, if it does not start with a zero. -/
theorem digits_of_long {c : UInt16} {rest : Text} (hc : 0x30 < c.toNat) (hlong : 10 < rest.length + 1) :
    2 ^ 32 ≤ digits 0 (c :: rest) := by
  have hpow : 10 ^ 10 ≤ 10 ^ rest.length := Nat.pow_le_pow_right (by decide) (by omega)
  have hmul : 1 * 10 ^ rest.length ≤ (c.toNat - 0x30) * 10 ^ rest.length := Nat.mul_le_mul_right _ (by omega)
  have hle := le_digits (c.toNat - 0x30) rest
  rw [digits_cons]
  omega

theorem arrayIndex_cons (c : UInt16) (rest : Text) : arrayIndex? (c :: rest) =
    if StringTrips.isDigit c.toNat = true ∧ allDigits rest = true ∧ (c.toNat = 0x30 → rest = []) ∧
        digits 0 (c :: rest) < 2 ^ 32 - 1 then
      some (digits 0 (c :: rest))
    else none := by
  rw [arrayIndex_eq]
  refine if_congr ?_ rfl rfl
  have hall : allDigits (c :: rest) = (StringTrips.isDigit c.toNat && allDigits rest) := rfl
  have hhead : (c :: rest).head? = some 0x30 ↔ c.toNat = 0x30 := by
    rw [List.head?_cons, Option.some.injEq, ← UInt16.toNat_inj]
    rfl
  have hlength : (c :: rest).length = 1 ↔ rest = [] := by
    rw [List.length_cons, Nat.succ_inj, List.length_eq_zero_iff]
  rw [hall, Bool.and_eq_true_iff, hhead, hlength, and_iff_right (List.cons_ne_nil _ _), and_assoc]

/-- `is_num_string` for a first digit that is not zero. -/
theorem numLoop_filter {c : UInt16} {rest : Text} (hc : StringTrips.isDigit c.toNat = true) (hc0 : c.toNat ≠ 0x30) :
    ((numLoop (c.toNat - 0x30) rest).filter fun v => v ≠ 2 ^ 32 - 1) = arrayIndex? (c :: rest) := by
  have hlt := c.toNat_lt
  rw [numLoop_eq (by omega), ← digits_cons, arrayIndex_cons]
  by_cases hsmall : allDigits rest = true ∧ digits 0 (c :: rest) < 2 ^ 32 - 1
  · rw [if_pos ⟨hsmall.1, by omega⟩, if_pos ⟨hc, hsmall.1, fun heq => absurd heq hc0, hsmall.2⟩]
    have hne : digits 0 (c :: rest) ≠ 2 ^ 32 - 1 := by omega
    rw [Option.filter_some, if_pos (decide_eq_true hne)]
  · rw [if_neg (c := StringTrips.isDigit c.toNat = true ∧ _) fun hand => hsmall ⟨hand.2.1, hand.2.2.2⟩]
    by_cases hmax : allDigits rest = true ∧ digits 0 (c :: rest) < 2 ^ 32
    · have heq : digits 0 (c :: rest) = 2 ^ 32 - 1 := by
        have hge : ¬ digits 0 (c :: rest) < 2 ^ 32 - 1 := fun hlt => hsmall ⟨hmax.1, hlt⟩
        omega
      rw [if_pos hmax, heq]
      rfl
    · rw [if_neg hmax]
      rfl

theorem isNumString_eq (name : Text) : ((isNumString name).filter fun v => v ≠ 2 ^ 32 - 1) = arrayIndex? name := by
  cases name with
  | nil => rfl
  | cons c rest =>
    rw [isNumString, isNum_eq]
    by_cases hlong : 10 < rest.length + 1
    · have hnone : arrayIndex? (c :: rest) = none := by
        rw [arrayIndex_cons]
        refine if_neg ?_
        rintro ⟨hc, -, hzero, hsmall⟩
        by_cases hc0 : c.toNat = 0x30
        · rw [hzero hc0] at hlong
          exact absurd hlong (by decide)
        · have hrange : 0x30 ≤ c.toNat := by
            unfold StringTrips.isDigit at hc
            exact of_decide_eq_true (Bool.and_eq_true_iff.mp hc).1
          have hle : 2 ^ 32 ≤ digits 0 (c :: rest) := digits_of_long (by omega) hlong
          omega
      rw [if_pos hlong, hnone]
      rfl
    · rw [if_neg hlong]
      by_cases hc : StringTrips.isDigit c.toNat = true
      · rw [if_neg (not_not.mpr hc)]
        by_cases hc0 : c.toNat = 0x30
        · rw [if_pos hc0, arrayIndex_cons]
          by_cases hone : rest = []
          · have hvalue : digits 0 [c] = 0 := by
              rw [digits_cons, hc0]
              rfl
            rw [hone, hvalue, if_pos (show _ ∧ _ from ⟨hc, rfl, fun _ => rfl, by decide⟩)]
            rfl
          · have hlength : rest.length + 1 ≠ 1 := fun heq => hone (List.length_eq_zero_iff.mp (Nat.succ.inj heq))
            rw [if_pos hlength, if_neg fun hand => hone (hand.2.2.1 hc0)]
            rfl
        · rw [if_neg hc0]
          exact numLoop_filter hc hc0
      · have hnone : arrayIndex? (c :: rest) = none := by
          rw [arrayIndex_cons]
          exact if_neg fun hand => hc hand.1
        rw [if_pos hc, hnone]
        rfl

/-- `42` is a number, `042` is not, and 2 ^ 32 - 1 is one that is no index. -/
example : isNumString (indexName 42) = some 42 ∧ isNumString (0x30 :: indexName 42) = none ∧
    isNumString (indexName 4294967295) = some (2 ^ 32 - 1) ∧ arrayIndex? (indexName 4294967295) = none := by decide

/-! ## Names of indexes -/

theorem indexName_step {v : Nat} (hv : 10 ≤ v) :
    indexName v = indexName (v / 10) ++ [UInt16.ofNat (v % 10).digitChar.toNat] := by
  unfold indexName
  rw [Nat.toDigits_of_base_le (by decide) hv, List.map_append]
  rfl

theorem digit_of_lt {d : Nat} (hd : d < 10) :
    (UInt16.ofNat d.digitChar.toNat).toNat = 0x30 + d ∧ StringTrips.isDigit (UInt16.ofNat d.digitChar.toNat).toNat = true := by
  revert d
  decide

theorem indexName_spec (v : Nat) : indexName v ≠ [] ∧ allDigits (indexName v) = true ∧ digits 0 (indexName v) = v ∧
    ((indexName v).head? = some 0x30 → v = 0) := by
  induction v using Nat.strongRecOn with
  | ind v ih =>
    by_cases hv : v < 10
    · have hname : indexName v = [UInt16.ofNat v.digitChar.toNat] := by
        unfold indexName
        rw [Nat.toDigits_of_lt_base hv]
        rfl
      obtain ⟨hvalue, hdigit⟩ := digit_of_lt hv
      rw [hname]
      refine ⟨List.cons_ne_nil _ _, ?_, ?_, fun hhead => ?_⟩
      · show (StringTrips.isDigit _ && true) = true
        rw [hdigit]
        rfl
      · rw [digits_cons, hvalue]
        exact Nat.add_sub_cancel_left 0x30 v
      · have heq := congrArg UInt16.toNat (Option.some.inj hhead)
        rw [hvalue] at heq
        have hzero : (0x30 : UInt16).toNat = 0x30 := rfl
        omega
    · obtain ⟨hne, hall, hvalue, hhead⟩ := ih (v / 10) (by omega)
      obtain ⟨hlast, hdigit⟩ := digit_of_lt (Nat.mod_lt v (show 0 < 10 by decide))
      rw [indexName_step (by omega)]
      refine ⟨List.append_ne_nil_of_left_ne_nil hne _, ?_, ?_, fun hzero => ?_⟩
      · unfold allDigits at hall ⊢
        rw [List.all_append, hall, List.all_cons, hdigit]
        rfl
      · unfold digits at hvalue ⊢
        rw [List.foldl_append, hvalue, List.foldl_cons, List.foldl_nil, hlast]
        omega
      · rw [List.head?_append_of_ne_nil _ hne] at hzero
        have hsmall := hhead hzero
        omega

theorem indexName_index {v : Nat} (hv : v < 2 ^ 32 - 1) : arrayIndex? (indexName v) = some v := by
  obtain ⟨hne, hall, hvalue, hhead⟩ := indexName_spec v
  have hlength : (indexName v).head? = some 0x30 → (indexName v).length = 1 := by
    intro hzero
    obtain rfl := hhead hzero
    rfl
  rw [arrayIndex_eq, hvalue]
  exact if_pos ⟨hne, hall, hlength, hv⟩

/-! ## Atoms and their texts -/

variable {V : Type} {atoms : Nat → AtomStruct} {rt : Runtime V} {p : Nat} {o : Entity V} {fast : Option Nat}

/-- `JS_AtomToString` -/
def atomText (atoms : Nat → AtomStruct) (atom : Nat) : Text :=
  if atomIsTaggedInt atom then indexName (atomToUInt32 atom) else (atoms atom).text

/-- A name is an index by its atom if it is one by its text. -/
theorem arrayIndex_atomText {atom : Nat} (hkind : atomGetKind atoms atom = .string) :
    atomIsArrayIndex atoms atom = arrayIndex? (atomText atoms atom) := by
  unfold atomIsArrayIndex atomText
  by_cases htag : atomIsTaggedInt atom = true
  · have hlt : atomToUInt32 atom < 2 ^ 32 - 1 := by
      have hle : atomToUInt32 atom ≤ 2 ^ 31 - 1 := Nat.and_le_right
      omega
    rw [if_pos htag, if_pos htag, indexName_index hlt]
  · have htype : (atoms atom).atomType = .string := by
      unfold atomGetKind at hkind
      rw [if_neg htag] at hkind
      cases hstruct : (atoms atom).atomType with
      | string => rfl
      | globalSymbol => rw [hstruct] at hkind; cases hkind
      | symbol => rw [hstruct] at hkind; cases hkind
      | privateSymbol => rw [hstruct] at hkind; cases hkind
    rw [if_neg htag, if_neg htag, if_pos htype]
    exact isNumString_eq (atoms atom).text

/-- `JS_GPN_STRING_MASK | JS_GPN_ENUM_ONLY` -/
def keysMask : Nat := gpnStringMask ||| gpnEnumOnly

/-- What `_getKeys` gives to Java, as strings of the engine. -/
def getKeys (atoms : Nat → AtomStruct) (rt : Runtime V) (p : Nat) (fast : Option Nat) : Option (List Text) :=
  (rt.getOwnPropertyNames atoms keysMask p fast).map fun names => names.map fun e => atomText atoms e.atom

/-- The enumerable strings among the names of an object, in the order in which they were added. -/
def stringKeys (atoms : Nat → AtomStruct) (o : Entity V) : List Text :=
  (o.props.filter fun x => atomGetKind atoms x.1 = .string ∧ x.2.1 &&& propEnumerable ≠ 0).map fun x => atomText atoms x.1

theorem wanted_keysMask (k : Nat × Nat) : wanted atoms keysMask k = true ↔
    k.1 ≠ 0 ∧ atomGetKind atoms k.1 = .string ∧ k.2 &&& propEnumerable ≠ 0 := by
  have hmask : keysMask &&& gpnEnumOnly ≠ 0 := by decide
  have hkind : (keysMask >>> (atomGetKind atoms k.1).toNat) &&& 1 ≠ 0 ↔ atomGetKind atoms k.1 = .string := by
    cases atomGetKind atoms k.1 with
    | string => decide
    | symbol => decide
    | privateSymbol => decide
  unfold wanted
  rw [Bool.and_eq_true, Bool.and_eq_true, Bool.or_eq_true, decide_eq_true_iff, decide_eq_true_iff, decide_eq_true_iff,
    decide_eq_true_iff, or_iff_right hmask, hkind, and_assoc]
  exact and_congr_right fun _ => and_comm

/-- The names of a class, where texts tell the class of a string. -/
theorem namesOf_text {cls : KeyClass} {R : Text → Bool} (hprops : ∀ x ∈ o.props, x.1 ≠ 0)
    (hcls : ∀ atom, atomGetKind atoms atom = .string → (keyClass atoms atom = cls ↔ R (atomText atoms atom) = true)) :
    ((namesOf atoms keysMask cls (o.props.map fun x => (x.1, x.2.1))).map fun e => atomText atoms e.atom) =
      (stringKeys atoms o).filter R := by
  unfold namesOf stringKeys
  rw [List.filter_map, List.map_map, List.map_map, List.filter_map, List.filter_filter]
  refine congrArg (List.map fun x : Property V => atomText atoms x.1) (List.filter_congr fun x hx => ?_)
  rw [Bool.eq_iff_iff]
  simp only [Function.comp_apply, Bool.and_eq_true, wanted_keysMask, decide_eq_true_iff]
  have hne := hprops x hx
  constructor
  · rintro ⟨⟨-, hkind, henum⟩, hx⟩
    exact ⟨(hcls x.1 hkind).mp hx, hkind, henum⟩
  · rintro ⟨hR, hkind, henum⟩
    exact ⟨⟨hne, hkind, henum⟩, (hcls x.1 hkind).mpr hR⟩

theorem keyClass_string {atom : Nat} (hkind : atomGetKind atoms atom = .string) :
    keyClass atoms atom = if (arrayIndex? (atomText atoms atom)).isSome = true then .num else .str := by
  unfold keyClass
  rw [arrayIndex_atomText hkind, if_pos hkind]

theorem atomText_fromUInt32 {v : Nat} (hv : v < 2 ^ 31) : atomText atoms (atomFromUInt32 v) = indexName v := by
  unfold atomText
  rw [if_pos (atomIsTaggedInt_fromUInt32 v), atomToUInt32_fromUInt32 hv]

theorem elementNames_text {len : Nat} (hlen : len ≤ 2 ^ 31) :
    ((elementNames len).map fun e => atomText atoms e.atom) = (List.range len).map indexName := by
  unfold elementNames
  rw [List.map_map]
  refine List.map_congr_left fun i hi => ?_
  have hlt := List.mem_range.mp hi
  exact atomText_fromUInt32 (by omega)

theorem kind_of_mem_namesOf {cls : KeyClass} {l : List (Nat × Nat)} {e : PropertyEnum}
    (he : e ∈ namesOf atoms keysMask cls l) : atomGetKind atoms e.atom = .string := by
  obtain ⟨k, hk, rfl⟩ := List.mem_map.mp he
  have hwanted := (Bool.and_eq_true_iff.mp (List.mem_filter.mp hk).2).1
  exact ((wanted_keysMask k).mp hwanted).2.1

theorem kind_of_mem_elementNames {len : Nat} {e : PropertyEnum} (he : e ∈ elementNames len) :
    atomGetKind atoms e.atom = .string := by
  obtain ⟨i, -, rfl⟩ := List.mem_map.mp he
  exact if_pos (atomIsTaggedInt_fromUInt32 i)

/-- The names of an object, as texts, are in the order that `ownNames` gives them. -/
theorem names_text (hprops : ∀ x ∈ o.props, x.1 ≠ 0) (hfast : ∀ n, fast = some n → n ≤ 2 ^ 31) :
    ((o.names atoms keysMask fast).map fun e => atomText atoms e.atom) =
      ownNames (stringKeys atoms o ++ (List.range (fast.getD 0)).map indexName) := by
  have hcount : elementCount keysMask fast = fast.getD 0 := if_pos (by decide)
  have hlen : fast.getD 0 ≤ 2 ^ 31 := hcount ▸ elementCount_le hfast
  let l := o.props.map fun x => (x.1, x.2.1)
  have hnum : ((namesOf atoms keysMask .num l).map fun e => atomText atoms e.atom) =
      (stringKeys atoms o).filter fun n => (arrayIndex? n).isSome :=
    namesOf_text hprops fun atom hkind => by
      rw [keyClass_string hkind]
      split
      · next hindex => simp [hindex]
      · next hindex => simp [hindex]
  have hstr : ((namesOf atoms keysMask .str l).map fun e => atomText atoms e.atom) =
      (stringKeys atoms o).filter fun n => !(arrayIndex? n).isSome :=
    namesOf_text hprops fun atom hkind => by
      rw [keyClass_string hkind]
      split
      · next hindex => simp [hindex]
      · next hindex => simp [hindex]
  have hsym : ((namesOf atoms keysMask .sym l).map fun e => atomText atoms e.atom) =
      (stringKeys atoms o).filter fun _ => false :=
    namesOf_text hprops fun atom hkind => by
      rw [keyClass_string hkind]
      split
      · simp
      · simp
  have helements : ∀ n ∈ (List.range (fast.getD 0)).map indexName, (arrayIndex? n).isSome = true := by
    intro n hn
    obtain ⟨i, hi, rfl⟩ := List.mem_map.mp hn
    have hlt := List.mem_range.mp hi
    rw [indexName_index (by omega)]
    rfl
  have hkind : ∀ e ∈ namesOf atoms keysMask .num l ++ elementNames (fast.getD 0), atomGetKind atoms e.atom = .string :=
    fun e he => (List.mem_append.mp he).elim kind_of_mem_namesOf kind_of_mem_elementNames
  unfold Entity.names ownNames
  rw [hcount, List.map_append, List.map_append, hstr, hsym, List.filter_false, List.append_nil, List.filter_append,
    List.filter_append, List.filter_eq_self.mpr helements]
  have hnone : ((List.range (fast.getD 0)).map indexName).filter (fun n => !(arrayIndex? n).isSome) = [] :=
    List.filter_eq_nil_iff.mpr fun n hn => by simp [helements n hn]
  rw [hnone, List.append_nil]
  congr 1
  rw [List.map_mergeSort (s := fun n n' => decide ((arrayIndex? n).getD 0 ≤ (arrayIndex? n').getD 0)) fun e he e' he' => ?_]
  · rw [List.map_append, hnum, elementNames_text hlen]
  · unfold numKeysLe
    rw [arrayIndex_atomText (hkind e he), arrayIndex_atomText (hkind e' he')]

theorem atom_ne_zero (h : Sound rt) (ho : rt.heap.obj p = some o) : ∀ x ∈ o.props, x.1 ≠ 0 := by
  obtain ⟨sh, l⟩ := h.look ho
  intro x hx
  rw [l.entity] at hx
  exact (mem_properties hx).1

/-- **Keys after a run**: Java gets the array indexes first, in ascending order, and then the other enumerable strings
in the order in which they were added. -/
theorem runs_keys {ops : List (Op V)} {results : List (Result V)} (hops : Heap.empty.Permitted ops)
    (hrun : Runtime.init.run ops = some (results, rt)) (ho : (Heap.empty.run ops).2.obj p = some o)
    (hfast : ∀ n, fast = some n → n ≤ 2 ^ 31) :
    getKeys atoms rt p fast = some (ownNames (stringKeys atoms o ++ (List.range (fast.getD 0)).map indexName)) := by
  obtain ⟨rt', hrun', hsound, hheap⟩ := runs_sound hops
  rw [hrun, Option.some.injEq, Prod.mk.injEq] at hrun'
  rw [← hrun'.2] at hsound hheap
  have ho' : rt.heap.obj p = some o := hheap ▸ ho
  unfold getKeys
  rw [getOwnPropertyNames_eq hsound ho' hfast, ← names_text (atom_ne_zero hsound ho') hfast]
  rfl

theorem runs_keys_sample : ∃ results rt o, Runtime.init.run sampleNames = some (results, rt) ∧
    (Heap.empty.run sampleNames).2.obj 1 = some o ∧ getKeys sampleAtoms rt 1 (some 2) =
      some (ownNames (stringKeys sampleAtoms o ++ (List.range ((some 2).getD 0)).map indexName)) := by
  obtain ⟨rt, hrun, -, -⟩ := runs_sound permitted_sampleNames
  exact ⟨_, rt, _, hrun, rfl, runs_keys permitted_sampleNames hrun rfl fun n hn => by cases hn; decide⟩

end QuickJSBridge.KeyOrder
