import QuickJSBridge.Engine.PropertyRuns
import QuickJSBridge.Engine.Strings
import QuickJSBridge.Lib.Regions

/-!
# Names of own properties

`JS_GetOwnPropertyNames` goes over the shape of an object twice. It counts the names of three classes, and then writes
each name where its class has come to, in a table of that size. Array indexes are sorted at the end.

* `isNumString`, `atomIsArrayIndex` — which names are array indexes;
* `Runtime.getOwnPropertyNames` — both passes, the elements of a fast array, the assertions and the sort. To write
  beside the table, or to read an entry that was not written, is `none`;
* `Filling`, `fillKeys_filling` — the table while it is filled;
* `runs_names` — after any run it gives indexes by their values, then strings and symbols in the order in which the
  properties were added.
-/

namespace QuickJSBridge.Shapes

open Regions

/-! ## Atoms -/

/-- `atom_type`; a private name is a symbol with a hash of its own. -/
inductive AtomType where
  | string
  | globalSymbol
  | symbol
  | privateSymbol
  deriving DecidableEq

structure AtomStruct where
  atomType : AtomType
  text : Text

/-- `JSAtomKindEnum` -/
inductive AtomKind where
  | string
  | symbol
  | privateSymbol
  deriving DecidableEq

def AtomKind.toNat : AtomKind → Nat
  | .string => 0
  | .symbol => 1
  | .privateSymbol => 2

/-- `is_num` -/
def isNum (c : Nat) : Bool := 0x30 ≤ c && c ≤ 0x39

/-- The loop of `is_num_string` -/
def numLoop (n : Nat) : Text → Option Nat
  | [] => some n
  | c :: rest =>
    if ¬ isNum c.toNat then none
    else
      let n64 := n * 10 + (c.toNat - 0x30)
      if n64 >>> 32 ≠ 0 then none else numLoop n64 rest

def isNumString : Text → Option Nat
  | [] => none
  | c :: rest =>
    if 10 < rest.length + 1 then none
    else if ¬ isNum c.toNat then none
    else if c.toNat = 0x30 then
      if rest.length + 1 ≠ 1 then none else some 0
    else numLoop (c.toNat - 0x30) rest

/-- `__JS_AtomFromUInt32` -/
def atomFromUInt32 (v : Nat) : Nat := v ||| 2 ^ 31

/-- `__JS_AtomToUInt32` -/
def atomToUInt32 (atom : Nat) : Nat := atom &&& (2 ^ 31 - 1)

section

-- `atom_array`
variable (atoms : Nat → AtomStruct)

/-- `JS_AtomGetKind` -/
def atomGetKind (atom : Nat) : AtomKind :=
  if atomIsTaggedInt atom then .string
  else
    match (atoms atom).atomType with
    | .string => .string
    | .globalSymbol => .symbol
    | .symbol => .symbol
    | .privateSymbol => .privateSymbol

/-- `JS_AtomIsArrayIndex` -/
def atomIsArrayIndex (atom : Nat) : Option Nat :=
  if atomIsTaggedInt atom then some (atomToUInt32 atom)
  else if (atoms atom).atomType = .string then (isNumString (atoms atom).text).filter (· ≠ 2 ^ 32 - 1)
  else none

/-! ## The function -/

/-- `JS_GPN_STRING_MASK` -/
def gpnStringMask : Nat := 1 <<< 0

/-- `JS_GPN_ENUM_ONLY` -/
def gpnEnumOnly : Nat := 1 <<< 4

def propEnumerable : Nat := 1 <<< 2

/-- `JSPropertyEnum` -/
structure PropertyEnum where
  isEnumerable : Bool
  atom : Nat
  deriving DecidableEq

/-- The entry of a name with its flags. -/
def propertyEnum (k : Nat × Nat) : PropertyEnum := ⟨k.2 &&& propEnumerable ≠ 0, k.1⟩

/-- The tests on a property that both loops make. -/
def wanted (gpn : Nat) (k : Nat × Nat) : Bool :=
  k.1 ≠ 0 && (gpn &&& gpnEnumOnly = 0 || k.2 &&& propEnumerable ≠ 0) &&
    (gpn >>> (atomGetKind atoms k.1).toNat) &&& 1 ≠ 0

inductive KeyClass where
  | num
  | str
  | sym
  deriving DecidableEq

/-- The branches that both loops take. -/
def keyClass (atom : Nat) : KeyClass :=
  if (atomIsArrayIndex atoms atom).isSome then .num else if atomGetKind atoms atom = .string then .str else .sym

structure KeyCounts where
  num : Nat
  str : Nat
  sym : Nat

def KeyCounts.count (n : KeyCounts) (atom : Nat) : KeyCounts :=
  match keyClass atoms atom with
  | .num => { n with num := n.num + 1 }
  | .str => { n with str := n.str + 1 }
  | .sym => { n with sym := n.sym + 1 }

/-- The first loop -/
def countKeys (gpn : Nat) : List ShapeProperty → KeyCounts → KeyCounts
  | [], n => n
  | pr :: rest, n => countKeys gpn rest (if wanted atoms gpn (pr.atom, pr.flags) then n.count atoms pr.atom else n)

/-- `tab_atom`, with what the second loop counts -/
structure NameTable where
  tab : List (Option PropertyEnum)
  numIndex : Nat
  strIndex : Nat
  symIndex : Nat
  numSorted : Bool

def NameTable.put (t : NameTable) (j : Nat) (e : PropertyEnum) : Option NameTable :=
  if j < t.tab.length then some { t with tab := t.tab.set j (some e) } else none

def NameTable.enter (t : NameTable) (e : PropertyEnum) : Option NameTable :=
  match keyClass atoms e.atom with
  | .num => (t.put t.numIndex e).map fun t => { t with numIndex := t.numIndex + 1, numSorted := false }
  | .str => (t.put t.strIndex e).map fun t => { t with strIndex := t.strIndex + 1 }
  | .sym => (t.put t.symIndex e).map fun t => { t with symIndex := t.symIndex + 1 }

/-- The second loop -/
def fillKeys (gpn : Nat) : List ShapeProperty → NameTable → Option NameTable
  | [], t => some t
  | pr :: rest, t =>
    if wanted atoms gpn (pr.atom, pr.flags) then
      (t.enter atoms (propertyEnum (pr.atom, pr.flags))).bind (fillKeys gpn rest)
    else fillKeys gpn rest t

/-- The loop at `add_array_keys` -/
def addArrayKeys : List Nat → NameTable → Option NameTable
  | [], t => some t
  | i :: rest, t =>
    (t.put t.numIndex ⟨true, atomFromUInt32 i⟩).bind fun t => addArrayKeys rest { t with numIndex := t.numIndex + 1 }

/-- `num_keys_cmp` -/
def numKeysLe (e e' : PropertyEnum) : Bool :=
  (atomIsArrayIndex atoms e.atom).getD 0 ≤ (atomIsArrayIndex atoms e'.atom).getD 0

/-- `rqsort`, with the assertion that `num_keys_cmp` makes. No two names of an object are the same number, so it does not
matter which sort it is. -/
def sortKeys (num : Nat) (tab : List PropertyEnum) : Option (List PropertyEnum) :=
  if (tab.take num).all fun e => (atomIsArrayIndex atoms e.atom).isSome then
    some ((tab.take num).mergeSort (numKeysLe atoms) ++ tab.drop num)
  else none

/-- How many elements are listed. -/
def elementCount (gpn : Nat) (fast : Option Nat) : Nat := if gpn &&& gpnStringMask ≠ 0 then fast.getD 0 else 0

variable {V : Type}

/-- `JS_GetOwnPropertyNamesInternal` for an ordinary object, or an array with `fast` elements beside its properties -/
def Runtime.getOwnPropertyNames (rt : Runtime V) (gpn p : Nat) (fast : Option Nat) : Option (List PropertyEnum) := do
  let sh ← rt.shapes (rt.objs p).shape
  let n := countKeys atoms gpn sh.prop ⟨0, 0, 0⟩
  let num := n.num + elementCount gpn fast
  let t ← fillKeys atoms gpn sh.prop ⟨List.replicate (num + n.str + n.sym) none, 0, num, num + n.str, true⟩
  let t ← addArrayKeys (List.range (elementCount gpn fast)) t
  if t.numIndex = num ∧ t.strIndex = num + n.str ∧ t.symIndex = num + n.str + n.sym then do
    let tab ← written t.tab
    if num ≠ 0 ∧ t.numSorted = false then sortKeys atoms num tab else some tab
  else none

/-! ## Names of a property list -/

/-- The names of one class that are wanted, in their order. -/
def namesOf (gpn : Nat) (cls : KeyClass) (l : List (Nat × Nat)) : List PropertyEnum :=
  (l.filter fun k => wanted atoms gpn k && keyClass atoms k.1 = cls).map propertyEnum

/-- The elements of an array. -/
def elementNames (len : Nat) : List PropertyEnum := (List.range len).map fun i => ⟨true, atomFromUInt32 i⟩

/-- Indexes by their values, then strings, then symbols. -/
def Entity.names (o : Entity V) (gpn : Nat) (fast : Option Nat) : List PropertyEnum :=
  let l := o.props.map fun x => (x.1, x.2.1)
  (namesOf atoms gpn .num l ++ elementNames (elementCount gpn fast)).mergeSort (numKeysLe atoms) ++
    (namesOf atoms gpn .str l ++ namesOf atoms gpn .sym l)

end

variable {V : Type} {atoms : Nat → AtomStruct} {gpn : Nat} {t : NameTable} {e : PropertyEnum}
  {ns ss ys : List PropertyEnum} {a b c : Nat} {rt : Runtime V} {p : Nat} {o : Entity V} {fast : Option Nat}

theorem namesOf_cons (cls : KeyClass) (k : Nat × Nat) (l : List (Nat × Nat)) :
    namesOf atoms gpn cls (k :: l) =
      if wanted atoms gpn k = true ∧ keyClass atoms k.1 = cls then propertyEnum k :: namesOf atoms gpn cls l
      else namesOf atoms gpn cls l := by
  unfold namesOf
  rw [List.filter_cons]
  by_cases hk : wanted atoms gpn k = true ∧ keyClass atoms k.1 = cls
  · rw [if_pos hk, if_pos (by simpa using hk), List.map_cons]
  · rw [if_neg hk, if_neg (by simpa using hk)]

/-! ## Counting -/

theorem countKeys_eq (l : List ShapeProperty) (n : KeyCounts) :
    countKeys atoms gpn l n = ⟨n.num + (namesOf atoms gpn .num (keys l)).length,
      n.str + (namesOf atoms gpn .str (keys l)).length, n.sym + (namesOf atoms gpn .sym (keys l)).length⟩ := by
  induction l generalizing n with
  | nil => rfl
  | cons pr l ih =>
    unfold countKeys
    have hkeys : keys (pr :: l) = (pr.atom, pr.flags) :: keys l := rfl
    rw [ih, hkeys]
    simp only [namesOf_cons]
    by_cases hw : wanted atoms gpn (pr.atom, pr.flags) = true
    · rw [if_pos hw]
      unfold KeyCounts.count
      cases keyClass atoms pr.atom with
      | num => simp [hw]; omega
      | str => simp [hw]; omega
      | sym => simp [hw]; omega
    · simp [hw]

/-! ## Filling -/

/-- The table has `ns`, `ss` and `ys` in its regions, and room for so many more. -/
structure Filling (t : NameTable) (ns ss ys : List PropertyEnum) (a b c : Nat) : Prop where
  tab : t.tab = region ns a ++ (region ss b ++ (region ys c ++ []))
  numIndex : t.numIndex = ns.length
  strIndex : t.strIndex = ns.length + a + ss.length
  symIndex : t.symIndex = ns.length + a + ss.length + b + ys.length

theorem filling_start (a b c : Nat) (sorted : Bool) :
    Filling ⟨List.replicate (a + b + c) none, 0, a, a + b, sorted⟩ [] [] [] a b c where
  tab := by
    show List.replicate (a + b + c) none = List.replicate a none ++ (List.replicate b none ++ (List.replicate c none ++ []))
    rw [List.append_nil, List.replicate_append_replicate, List.replicate_append_replicate, Nat.add_assoc]
  numIndex := rfl
  strIndex := (Nat.zero_add a).symm
  symIndex := by simp

theorem put_of_lt {j : Nat} (hj : j < t.tab.length) : t.put j e = some { t with tab := t.tab.set j (some e) } := if_pos hj

theorem Filling.put_num (f : Filling t ns ss ys (a + 1) b c) (e : PropertyEnum) (sorted : Bool) :
    ∃ tab, t.put t.numIndex e = some { t with tab := tab } ∧
      Filling { t with tab := tab, numIndex := t.numIndex + 1, numSorted := sorted } (ns ++ [e]) ss ys a b c := by
  have hj : t.numIndex = ([] : List (Option PropertyEnum)).length + ns.length := by
    rw [f.numIndex]
    exact (Nat.zero_add _).symm
  refine ⟨_, put_of_lt ?_, ?_, ?_, ?_, ?_⟩
  · rw [f.tab]
    exact lt_region hj
  · rw [f.tab]
    exact set_region hj
  · show t.numIndex + 1 = _
    rw [f.numIndex, List.length_append]
    rfl
  · show t.strIndex = _
    rw [f.strIndex, List.length_append, List.length_singleton]
    omega
  · show t.symIndex = _
    rw [f.symIndex, List.length_append, List.length_singleton]
    omega

theorem Filling.put_str (f : Filling t ns ss ys a (b + 1) c) (e : PropertyEnum) :
    ∃ tab, t.put t.strIndex e = some { t with tab := tab } ∧
      Filling { t with tab := tab, strIndex := t.strIndex + 1 } ns (ss ++ [e]) ys a b c := by
  have hj : t.strIndex = (region ns a).length + ss.length := by
    rw [f.strIndex, length_region]
  refine ⟨_, put_of_lt ?_, ?_, f.numIndex, ?_, ?_⟩
  · rw [f.tab]
    exact lt_region hj
  · rw [f.tab]
    exact set_region hj
  · show t.strIndex + 1 = _
    rw [f.strIndex, List.length_append]
    rfl
  · show t.symIndex = _
    rw [f.symIndex, List.length_append, List.length_singleton]
    omega

theorem Filling.put_sym (f : Filling t ns ss ys a b (c + 1)) (e : PropertyEnum) :
    ∃ tab, t.put t.symIndex e = some { t with tab := tab } ∧
      Filling { t with tab := tab, symIndex := t.symIndex + 1 } ns ss (ys ++ [e]) a b c := by
  have hj : t.symIndex = (region ns a ++ region ss b).length + ys.length := by
    rw [f.symIndex, List.length_append, length_region, length_region]
    omega
  refine ⟨_, put_of_lt ?_, ?_, f.numIndex, f.strIndex, ?_⟩
  · rw [f.tab, ← List.append_assoc]
    exact lt_region hj
  · rw [f.tab, ← List.append_assoc, set_region hj]
    exact List.append_assoc _ _ _
  · show t.symIndex + 1 = _
    rw [f.symIndex, List.length_append]
    rfl

/-- The second loop, when there is room for what it will write, and for `a`, `b` and `c` entries more. -/
theorem fillKeys_filling {l : List ShapeProperty}
    (f : Filling t ns ss ys ((namesOf atoms gpn .num (keys l)).length + a)
      ((namesOf atoms gpn .str (keys l)).length + b) ((namesOf atoms gpn .sym (keys l)).length + c)) :
    ∃ t', fillKeys atoms gpn l t = some t' ∧ Filling t' (ns ++ namesOf atoms gpn .num (keys l))
      (ss ++ namesOf atoms gpn .str (keys l)) (ys ++ namesOf atoms gpn .sym (keys l)) a b c ∧
      t'.numSorted = (t.numSorted && (namesOf atoms gpn .num (keys l)).isEmpty) := by
  induction l generalizing t ns ss ys with
  | nil =>
    refine ⟨t, rfl, ?_, (Bool.and_true _).symm⟩
    simpa [namesOf, keys] using f
  | cons pr l ih =>
    have hkeys : keys (pr :: l) = (pr.atom, pr.flags) :: keys l := rfl
    rw [hkeys] at f ⊢
    simp only [namesOf_cons] at f ⊢
    unfold fillKeys
    by_cases hw : wanted atoms gpn (pr.atom, pr.flags) = true
    · rw [if_pos hw]
      unfold NameTable.enter
      have hatom : (propertyEnum (pr.atom, pr.flags)).atom = pr.atom := rfl
      rw [hatom]
      cases hcls : keyClass atoms pr.atom with
      | num =>
        simp only [hw, hcls, and_self, if_true, reduceCtorEq, and_false, if_false, List.length_cons] at f ⊢
        rw [Nat.add_right_comm] at f
        obtain ⟨tab, hput, f'⟩ := f.put_num (propertyEnum (pr.atom, pr.flags)) false
        obtain ⟨t', hgo, hfilling, hsorted⟩ := ih f'
        rw [List.append_assoc] at hfilling
        refine ⟨t', ?_, hfilling, ?_⟩
        · rw [hput]
          exact hgo
        · rw [hsorted]
          simp
      | str =>
        simp only [hw, hcls, and_self, if_true, reduceCtorEq, and_false, if_false, List.length_cons] at f ⊢
        rw [Nat.add_right_comm _ 1 b] at f
        obtain ⟨tab, hput, f'⟩ := f.put_str (propertyEnum (pr.atom, pr.flags))
        obtain ⟨t', hgo, hfilling, hsorted⟩ := ih f'
        rw [List.append_assoc ss] at hfilling
        refine ⟨t', ?_, hfilling, hsorted⟩
        rw [hput]
        exact hgo
      | sym =>
        simp only [hw, hcls, and_self, if_true, reduceCtorEq, and_false, if_false, List.length_cons] at f ⊢
        rw [Nat.add_right_comm _ 1 c] at f
        obtain ⟨tab, hput, f'⟩ := f.put_sym (propertyEnum (pr.atom, pr.flags))
        obtain ⟨t', hgo, hfilling, hsorted⟩ := ih f'
        rw [List.append_assoc ys] at hfilling
        refine ⟨t', ?_, hfilling, hsorted⟩
        rw [hput]
        exact hgo
    · simp only [hw, Bool.false_eq_true, false_and, if_false] at f ⊢
      exact ih f

/-- The elements of an array are written behind the names of the index class. -/
theorem addArrayKeys_filling {l : List Nat} (f : Filling t ns ss ys (l.length + a) b c) :
    ∃ t', addArrayKeys l t = some t' ∧
      Filling t' (ns ++ l.map fun i => ⟨true, atomFromUInt32 i⟩) ss ys a b c ∧ t'.numSorted = t.numSorted := by
  induction l generalizing t ns with
  | nil =>
    refine ⟨t, rfl, ?_, rfl⟩
    simpa using f
  | cons i l ih =>
    rw [List.length_cons, Nat.add_right_comm] at f
    obtain ⟨tab, hput, f'⟩ := f.put_num ⟨true, atomFromUInt32 i⟩ t.numSorted
    obtain ⟨t', hgo, hfilling, hsorted⟩ := ih f'
    rw [List.append_assoc] at hfilling
    refine ⟨t', ?_, hfilling, hsorted⟩
    unfold addArrayKeys
    rw [hput]
    exact hgo

/-- The table when there is no room left. -/
theorem Filling.written (f : Filling t ns ss ys 0 0 0) : written t.tab = some (ns ++ (ss ++ ys)) := by
  rw [f.tab, region_zero, region_zero, region_zero, List.append_nil, ← List.map_append, ← List.map_append]
  exact written_map _

/-! ## Sorting -/

theorem atomIsTaggedInt_fromUInt32 (v : Nat) : atomIsTaggedInt (atomFromUInt32 v) = true := by
  unfold atomIsTaggedInt atomFromUInt32
  have hbit : (v ||| 2 ^ 31).testBit 31 = true := by
    rw [Nat.testBit_or, Nat.testBit_two_pow_self, Bool.or_true]
  refine decide_eq_true fun hzero => ?_
  have hand : ((v ||| 2 ^ 31) &&& 2 ^ 31).testBit 31 = true := by
    rw [Nat.testBit_and, hbit, Nat.testBit_two_pow_self]
    rfl
  rw [hzero, Nat.zero_testBit] at hand
  cases hand

theorem atomToUInt32_fromUInt32 {v : Nat} (hv : v < 2 ^ 31) : atomToUInt32 (atomFromUInt32 v) = v := by
  unfold atomToUInt32 atomFromUInt32
  rw [Nat.and_two_pow_sub_one_eq_mod, Nat.or_mod_two_pow, Nat.mod_self, Nat.or_zero, Nat.mod_eq_of_lt hv]

theorem atomIsArrayIndex_fromUInt32 {v : Nat} (hv : v < 2 ^ 31) : atomIsArrayIndex atoms (atomFromUInt32 v) = some v := by
  unfold atomIsArrayIndex
  rw [if_pos (atomIsTaggedInt_fromUInt32 v), atomToUInt32_fromUInt32 hv]

theorem isSome_of_mem_namesOf {l : List (Nat × Nat)} (he : e ∈ namesOf atoms gpn .num l) :
    (atomIsArrayIndex atoms e.atom).isSome = true := by
  obtain ⟨k, hk, rfl⟩ := List.mem_map.mp he
  have hcls : keyClass atoms k.1 = .num := by
    simpa using (Bool.and_eq_true_iff.mp (List.mem_filter.mp hk).2).2
  unfold keyClass at hcls
  by_contra hnot
  rw [if_neg (show ¬ (atomIsArrayIndex atoms k.1).isSome = true from hnot)] at hcls
  split at hcls
  · cases hcls
  · cases hcls

theorem isSome_of_mem_elementNames {len : Nat} (hlen : len ≤ 2 ^ 31) (he : e ∈ elementNames len) :
    (atomIsArrayIndex atoms e.atom).isSome = true := by
  obtain ⟨i, hi, rfl⟩ := List.mem_map.mp he
  have hlt := List.mem_range.mp hi
  show (atomIsArrayIndex atoms (atomFromUInt32 i)).isSome = true
  rw [atomIsArrayIndex_fromUInt32 (by omega)]
  rfl

theorem sortKeys_eq {rest : List PropertyEnum} (hns : ∀ e ∈ ns, (atomIsArrayIndex atoms e.atom).isSome = true) :
    sortKeys atoms ns.length (ns ++ rest) = some (ns.mergeSort (numKeysLe atoms) ++ rest) := by
  unfold sortKeys
  rw [List.take_left' rfl, List.drop_left' rfl, if_pos (List.all_eq_true.mpr hns)]

/-- The elements are in order already. -/
theorem mergeSort_elementNames {len : Nat} (hlen : len ≤ 2 ^ 31) :
    (elementNames len).mergeSort (numKeysLe atoms) = elementNames len := by
  refine List.mergeSort_of_pairwise (List.pairwise_map.mpr ?_)
  refine List.pairwise_lt_range.imp_of_mem fun {i j} hi hj hij => ?_
  have hi := List.mem_range.mp hi
  have hj := List.mem_range.mp hj
  unfold numKeysLe
  rw [atomIsArrayIndex_fromUInt32 (by omega), atomIsArrayIndex_fromUInt32 (by omega)]
  exact decide_eq_true (Nat.le_of_lt hij)

/-! ## The names of an object -/

theorem elementCount_le (hfast : ∀ n, fast = some n → n ≤ 2 ^ 31) : elementCount gpn fast ≤ 2 ^ 31 := by
  unfold elementCount
  split
  · cases fast with
    | none => exact Nat.zero_le _
    | some n => exact hfast n rfl
  · exact Nat.zero_le _

/-- Free entries of the shape are passed over. -/
theorem namesOf_keys (cls : KeyClass) (l : List (Nat × Nat)) :
    namesOf atoms gpn cls (l.filter fun k => k.1 ≠ 0) = namesOf atoms gpn cls l := by
  unfold namesOf
  rw [List.filter_filter]
  refine congrArg (List.map propertyEnum) (List.filter_congr fun k _ => ?_)
  by_cases hzero : k.1 = 0
  · simp [wanted, hzero]
  · simp [hzero]

theorem getOwnPropertyNames_eq (h : Sound rt) (ho : rt.heap.obj p = some o) (hfast : ∀ n, fast = some n → n ≤ 2 ^ 31) :
    rt.getOwnPropertyNames atoms gpn p fast = some (o.names atoms gpn fast) := by
  obtain ⟨sh, l⟩ := h.look ho
  have hlen : elementCount gpn fast ≤ 2 ^ 31 := elementCount_le hfast
  let len := elementCount gpn fast
  let nums := namesOf atoms gpn .num (keys sh.prop)
  let strs := namesOf atoms gpn .str (keys sh.prop)
  let syms := namesOf atoms gpn .sym (keys sh.prop)
  have hnames : o.names atoms gpn fast =
      (nums ++ elementNames len).mergeSort (numKeysLe atoms) ++ (strs ++ syms) := by
    have hprops : (o.props.map fun x => (x.1, x.2.1)) = (keys sh.prop).filter fun k => k.1 ≠ 0 := by
      rw [l.entity]
      exact names_properties l.filled
    unfold Entity.names
    simp only [hprops, namesOf_keys]
    rfl
  have hcount : countKeys atoms gpn sh.prop ⟨0, 0, 0⟩ = ⟨nums.length, strs.length, syms.length⟩ := by
    rw [countKeys_eq, Nat.zero_add, Nat.zero_add, Nat.zero_add]
  obtain ⟨t₁, hfill, hfilling₁, hsorted₁⟩ := fillKeys_filling (l := sh.prop) (b := 0) (c := 0)
    (filling_start (nums.length + len) strs.length syms.length true)
  rw [← Nat.add_zero len, ← List.length_range (n := len)] at hfilling₁
  obtain ⟨t₂, hadd, hfilling₂, hsorted₂⟩ := addArrayKeys_filling hfilling₁
  have hfilled : Filling t₂ (nums ++ elementNames len) strs syms 0 0 0 := hfilling₂
  have hnum : (nums ++ elementNames len).length = nums.length + len := by
    unfold elementNames
    rw [List.length_append, List.length_map, List.length_range]
  have hends : t₂.numIndex = nums.length + len ∧ t₂.strIndex = nums.length + len + strs.length ∧
      t₂.symIndex = nums.length + len + strs.length + syms.length :=
    ⟨by rw [hfilled.numIndex, hnum], by rw [hfilled.strIndex, hnum]; rfl, by rw [hfilled.symIndex, hnum]; rfl⟩
  have hsorted : t₂.numSorted = nums.isEmpty := by
    rw [hsorted₂, hsorted₁]
    rfl
  unfold Runtime.getOwnPropertyNames
  simp only [Option.bind_eq_bind, l.get, Option.bind_some, hcount]
  rw [hfill, Option.bind_some, hadd, Option.bind_some, if_pos hends, hfilled.written, Option.bind_some, hnames]
  by_cases hsort : nums.length + len ≠ 0 ∧ t₂.numSorted = false
  · have hall : ∀ e ∈ nums ++ elementNames len, (atomIsArrayIndex atoms e.atom).isSome = true := fun e he =>
      (List.mem_append.mp he).elim isSome_of_mem_namesOf (isSome_of_mem_elementNames hlen)
    rw [if_pos hsort, ← hnum, sortKeys_eq hall]
  · rw [if_neg hsort]
    have hempty : nums = [] := by
      by_contra hne
      refine hsort ⟨fun hzero => hne (List.length_eq_zero_iff.mp (Nat.eq_zero_of_add_eq_zero_right hzero)), ?_⟩
      rw [hsorted]
      exact List.isEmpty_eq_false_iff.mpr hne
    rw [hempty, List.nil_append, mergeSort_elementNames hlen]

/-- **Names after a run**: an object's own properties are listed with the indexes in ascending order, and then strings
and symbols in the order in which they were added, whatever shapes the object has had. -/
theorem runs_names {ops : List (Op V)} {results : List (Result V)} (hops : Heap.empty.Permitted ops)
    (hrun : Runtime.init.run ops = some (results, rt)) (ho : (Heap.empty.run ops).2.obj p = some o)
    (hfast : ∀ n, fast = some n → n ≤ 2 ^ 31) :
    rt.getOwnPropertyNames atoms gpn p fast = some (o.names atoms gpn fast) := by
  obtain ⟨rt', hrun', hsound, hheap⟩ := runs_sound hops
  rw [hrun, Option.some.injEq, Prod.mk.injEq] at hrun'
  rw [← hrun'.2] at hsound hheap
  exact getOwnPropertyNames_eq hsound (hheap ▸ ho) hfast

/-- Atoms of two strings, the second an array index, and of a symbol. -/
def sampleAtoms (atom : Nat) : AtomStruct :=
  if atom = 60 then ⟨.string, [0x62]⟩
  else if atom = 61 then ⟨.string, [0x34, 0x30, 0x30, 0x30, 0x30, 0x30, 0x30, 0x30, 0x30, 0x30]⟩
  else ⟨.symbol, []⟩

/-- A symbol, a string, a large index and a small one are added to an object; the string is deleted and added again. -/
def sampleNames : List (Op Nat) :=
  [.create 1 none, .add 1 62 7 0, .add 1 60 7 1, .add 1 61 7 2, .add 1 (atomFromUInt32 5) 7 3, .delete 1 60, .add 1 60 7 4]

theorem permitted_sampleNames : Heap.empty.Permitted sampleNames := by
  refine ⟨⟨rfl, fun q hq => by cases hq⟩, ⟨_, rfl, by decide, rfl, by decide, by decide⟩,
    ⟨_, rfl, by decide, rfl, by decide, by decide⟩, ⟨_, rfl, by decide, rfl, by decide, by decide⟩,
    ⟨_, rfl, by decide, rfl, by decide, by decide⟩, ⟨⟨_, rfl⟩, by decide⟩,
    ⟨_, rfl, by decide, rfl, by decide, by decide⟩, trivial⟩

theorem runs_names_sample : ∃ results rt o, Runtime.init.run sampleNames = some (results, rt) ∧
    (Heap.empty.run sampleNames).2.obj 1 = some o ∧
    rt.getOwnPropertyNames sampleAtoms 3 1 none = some (o.names sampleAtoms 3 none) := by
  obtain ⟨rt, hrun, -, -⟩ := runs_sound permitted_sampleNames
  exact ⟨_, rt, _, hrun, rfl, runs_names permitted_sampleNames hrun rfl fun n hn => by cases hn⟩

end QuickJSBridge.Shapes
