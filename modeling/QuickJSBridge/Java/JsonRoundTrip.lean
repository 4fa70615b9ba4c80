import QuickJSBridge.Java.ArrayPositions

/-!
# JSON objects through JS and back

`new JSObject(context, jsonObject).toJSONObject()`. The first half assigns every member, the second reads the
names of the object's own properties.

* `builtGraph` — the objects that the first half has built, as the second half reads them;
* `Document`, `Same` — the documents in question, and equality of documents up to the order of the members and
  the classes of numbers;
* `Assignable` — no object has the key `__proto__`, and the prototypes leave the indices of the arrays alone;
* `clean_of_represents`, `same_of_image` — a built object is clean, and its image is the document it
  represents;
* `roundTrips_iff` — a document comes back iff it is assignable.
-/

namespace QuickJSBridge.JsonRoundTrip

open Arrays JsonExport JsonImport ArrayPositions
open StringTrips (Plain report_of_plain)

/-! ## Reading what was built -/

/-- The order of `JS_GetOwnPropertyNames`: array indices first, by their values. -/
def ownNames (names : List Text) : List Text :=
  (names.filter fun n => (arrayIndex? n).isSome).mergeSort
      (fun n n' => decide ((arrayIndex? n).getD 0 ≤ (arrayIndex? n').getD 0)) ++
    names.filter fun n => !(arrayIndex? n).isSome

/-- The index as a name. -/
def indexName (i : Nat) : Text := (Nat.toDigits 10 i).map fun c => UInt16.ofNat c.toNat

/-- The objects of an import as `toJSONObject` reads them; `elsewhere` is what a read finds that is neither an
own member nor an element. -/
def builtGraph (J : Jni) (elsewhere : Node → Text → Val Node) : Graph Node where
  kind
    | .array _ => .array
    | .object _ _ => .object
  length
    | .array items => items.length
    | .object _ _ => 0
  element
    | .array items, i => items[i]?.getD .undefined
    | .object _ _, _ => .undefined
  keys
    | .array items => (List.range items.length).map fun i => J.text (indexName i)
    | .object props _ => (ownNames (props.map Prod.fst)).map J.text
  get
    | .array items, key =>
      ((arrayIndex? (nameOf key)).bind fun i => items[i]?).getD (elsewhere (.array items) (nameOf key))
    | .object props protos, key =>
      ((props.find? fun p => p.1 = nameOf key).map Prod.snd).getD (elsewhere (.object props protos) (nameOf key))

/-! ## Documents -/

/-- No nulls, texts that the bridge passes on, distinct keys, finite numbers. The length of a `JSONArray` is an
`int`. -/
inductive Document : Json → Prop where
  | string {s : Text} (hplain : Plain s) : Document (.string s)
  | boolean (b : Bool) : Document (.boolean b)
  | integer (i : BitVec 32) : Document (.integer i)
  | number {bits : BitVec 64} (hfinite : isFinite bits = true) : Document (.number bits)
  | array {items : List Json} (hlength : items.length < 2 ^ 31) (hitem : ∀ x ∈ items, Document x) :
      Document (.array items)
  | object {members : List (Text × Json)} (hkeys : (members.map Prod.fst).Nodup)
      (hplain : ∀ m ∈ members, Plain m.1) (hmember : ∀ m ∈ members, Document m.2) : Document (.object members)

/-- The double that a number is. -/
def double? : Json → Option (BitVec 64)
  | .integer i => some (float64OfInt32 i)
  | .number bits => some bits
  | _ => none

/-- The same keys and the same structure at every level, and equal leaves, numbers by value. -/
inductive Same : Json → Json → Prop where
  | string (s : Text) : Same (.string s) (.string s)
  | boolean (b : Bool) : Same (.boolean b) (.boolean b)
  | number {x y : Json} {bits : BitVec 64} (hx : double? x = some bits) (hy : double? y = some bits) :
      Same x y
  | array {items items' : List Json} (hlength : items'.length = items.length)
      (hitem : ∀ (i : Nat) x y, items[i]? = some x → items'[i]? = some y → Same x y) :
      Same (.array items) (.array items')
  | object {members members' : List (Text × Json)} (hkeys : (members'.map Prod.fst).Perm (members.map Prod.fst))
      (hvalue : ∀ m ∈ members, ∀ y, (m.1, y) ∈ members' → Same m.2 y) : Same (.object members) (.object members')

section

variable (R : Realm)

/-- `Object.prototype` is the engine's. -/
def Unmodified : Prop := ∀ name, R.object name = if name = protoName then .protoAccessor else .free

/-- No object has the key `__proto__`, and no array an index that the prototypes do not leave to it. -/
inductive Assignable : Json → Prop where
  | string (s : Text) : Assignable (.string s)
  | boolean (b : Bool) : Assignable (.boolean b)
  | integer (i : BitVec 32) : Assignable (.integer i)
  | number (bits : BitVec 64) : Assignable (.number bits)
  | array {items : List Json} (hfree : FreeIndices R items) (hitem : ∀ x ∈ items, Assignable x) :
      Assignable (.array items)
  | object {members : List (Text × Json)} (hproto : protoName ∉ members.map Prod.fst)
      (hmember : ∀ m ∈ members, Assignable m.2) : Assignable (.object members)

/-- `new JSObject(context, jsonObject).toJSONObject()` is the document. -/
def RoundTrips (J : Jni) (elsewhere : Node → Text → Val Node) (members : List (Text × Json)) : Prop :=
  ∃ depth json, (builtGraph J elsewhere).toJSON J depth (.object (newJSObject R members)) = some json ∧
    Same (.object members) json

end

/-! ## Names -/

variable {R : Realm} {J : Jni} {elsewhere : Node → Text → Val Node}

theorem nameOf_plain {s : Text} (h : Plain s) : nameOf s = s := newString_getStringUTFChars h.1

theorem text_plain (J : Jni) {s : Text} (h : Plain s) : J.text s = s := J.text_eq s s (report_of_plain h)

theorem mem_ownNames {names : List Text} {n : Text} : n ∈ ownNames names ↔ n ∈ names := by
  unfold ownNames
  rw [List.mem_append, List.mem_mergeSort, List.mem_filter, List.mem_filter]
  cases (arrayIndex? n).isSome <;> simp

theorem names_plain {members : List (Text × Json)} (h : ∀ m ∈ members, Plain m.1) :
    (members.map fun m => nameOf m.1) = members.map Prod.fst :=
  List.map_congr_left fun m hm => nameOf_plain (h m hm)

theorem freeNames_iff (hR : Unmodified R) {members : List (Text × Json)} (hkeys : (members.map Prod.fst).Nodup)
    (hplain : ∀ m ∈ members, Plain m.1) : FreeNames R members ↔ protoName ∉ members.map Prod.fst := by
  constructor
  · rintro ⟨_, hfree⟩ hproto
    obtain ⟨m, hm, heq⟩ := List.mem_map.mp hproto
    have hname := hfree m hm
    rw [nameOf_plain (hplain m hm), heq, hR, if_pos rfl] at hname
    cases hname
  · intro hproto
    refine ⟨by rw [names_plain hplain]; exact hkeys, fun m hm => ?_⟩
    rw [nameOf_plain (hplain m hm), hR]
    refine if_neg fun heq => hproto ?_
    rw [← heq]
    exact List.mem_map_of_mem hm

theorem storable_iff_assignable (hR : Unmodified R) {j : Json} (hdoc : Document j) : Storable R j ↔ Assignable R j := by
  induction hdoc with
  | string _ => exact ⟨fun _ => .string _, fun _ => .string _⟩
  | boolean b => exact ⟨fun _ => .boolean b, fun _ => .boolean b⟩
  | integer i => exact ⟨fun _ => .integer i, fun _ => .integer i⟩
  | number _ => exact ⟨fun _ => .number _, fun _ => .number _⟩
  | array _ _ ih =>
    constructor
    · intro h
      cases h with
      | array hfree hitem => exact .array hfree fun x hx => (ih x hx).mp (hitem x hx)
    · intro h
      cases h with
      | array hfree hitem => exact .array hfree fun x hx => (ih x hx).mpr (hitem x hx)
  | object hkeys hplain _ ih =>
    constructor
    · intro h
      cases h with
      | object hfree hmember =>
        exact .object ((freeNames_iff hR hkeys hplain).mp hfree) fun m hm => (ih m hm).mp (hmember m hm)
    · intro h
      cases h with
      | object hproto hmember =>
        exact .object ((freeNames_iff hR hkeys hplain).mpr hproto) fun m hm => (ih m hm).mpr (hmember m hm)

/-! ## What is read of a built object -/

theorem element_built {items : List (Val Node)} {i : Nat} {v : Val Node} (h : items[i]? = some v) :
    (builtGraph J elsewhere).element (.array items) i = v := by
  show items[i]?.getD .undefined = v
  rw [h]
  rfl

/-- The keys are the names of the properties, as `NewStringUTF` passes them. -/
theorem mem_keys_built {props : List (Text × Val Node)} {protos : Text → Inherited} {key : Text} :
    key ∈ (builtGraph J elsewhere).keys (.object props protos) ↔ ∃ n ∈ props.map Prod.fst, J.text n = key := by
  show key ∈ (ownNames (props.map Prod.fst)).map J.text ↔ _
  rw [List.mem_map]
  exact ⟨fun ⟨n, hn, heq⟩ => ⟨n, mem_ownNames.mp hn, heq⟩, fun ⟨n, hn, heq⟩ => ⟨n, mem_ownNames.mpr hn, heq⟩⟩

theorem get_built (J : Jni) (elsewhere : Node → Text → Val Node) {props : List (Text × Val Node)}
    (protos : Text → Inherited) {key : Text} (h : nameOf key ∈ props.map Prod.fst) :
    ∃ v, (nameOf key, v) ∈ props ∧ (builtGraph J elsewhere).get (.object props protos) key = v := by
  show ∃ v, _ ∧ ((props.find? fun p => p.1 = nameOf key).map Prod.snd).getD
    (elsewhere (.object props protos) (nameOf key)) = v
  obtain ⟨p, hp, heq⟩ := List.mem_map.mp h
  have hsome : (props.find? fun p => p.1 = nameOf key).isSome :=
    List.find?_isSome.mpr ⟨p, hp, decide_eq_true heq⟩
  obtain ⟨q, hq⟩ := Option.isSome_iff_exists.mp hsome
  have hname : q.1 = nameOf key := by simpa using List.find?_some hq
  refine ⟨q.2, ?_, by rw [hq]; rfl⟩
  rw [← hname]
  exact List.mem_of_find?_eq_some hq

/-- The keys of an object whose property names are plain are those names. -/
theorem key_of_names {members : List (Text × Json)} (hplain : ∀ m ∈ members, Plain m.1)
    {props : List (Text × Val Node)} {protos : Text → Inherited}
    (hnames : ∀ n ∈ props.map Prod.fst, ∃ m ∈ members, nameOf m.1 = n) {key : Text}
    (h : key ∈ (builtGraph J elsewhere).keys (.object props protos)) :
    nameOf key ∈ props.map Prod.fst ∧ ∃ m ∈ members, m.1 = key := by
  obtain ⟨n, hn, rfl⟩ := mem_keys_built.mp h
  obtain ⟨m, hm, rfl⟩ := hnames n hn
  rw [nameOf_plain (hplain m hm)] at hn ⊢
  rw [text_plain J (hplain m hm), nameOf_plain (hplain m hm)]
  exact ⟨hn, m, hm, rfl⟩

theorem key_of_member {members : List (Text × Json)} (hplain : ∀ m ∈ members, Plain m.1)
    {props : List (Text × Val Node)} {protos : Text → Inherited} {m : Text × Json} (hm : m ∈ members)
    (h : nameOf m.1 ∈ props.map Prod.fst) : m.1 ∈ (builtGraph J elsewhere).keys (.object props protos) :=
  mem_keys_built.mpr ⟨nameOf m.1, h, by rw [nameOf_plain (hplain m hm), text_plain J (hplain m hm)]⟩

/-! ## A built document comes back -/

/-- A value that represents a document is clean, and no branch leaves it out. -/
structure Sound (g : Graph Node) (J : Jni) (v : Val Node) : Prop where
  image : ¬ Imageless g v
  clean : ∀ d, (g.toObj J v).call? = some d → Clean g J d

theorem sound_leaf {g : Graph Node} {v : Val Node} (himage : ¬ Imageless g v)
    (hcall : (g.toObj J v).call? = none) : Sound g J v :=
  ⟨himage, fun d hd => by rw [hcall] at hd; cases hd⟩

theorem sound_of_represents (J : Jni) (elsewhere : Node → Text → Val Node) {j : Json} (hdoc : Document j)
    {v : Val Node} (h : Represents j v) : Sound (builtGraph J elsewhere) J v := by
  induction hdoc generalizing v with
  | string _ =>
    cases h
    exact sound_leaf (fun h => h) rfl
  | boolean b =>
    cases h
    exact sound_leaf (fun h => h) rfl
  | integer i =>
    cases h
    exact sound_leaf (fun h => h) rfl
  | @number bits hfinite =>
    cases h
    unfold newDouble
    split
    · exact sound_leaf (fun h => h) rfl
    · refine sound_leaf (fun h => ?_) rfl
      have hinfinite : isFinite bits = false := h
      rw [hfinite] at hinfinite
      cases hinfinite
  | @array items hlt _ ih =>
    cases h with
    | @array _ elements hlength hitem =>
      refine ⟨fun h => (by cases h), fun d hd => ?_⟩
      rw [← Option.some.inj hd]
      have hat : ∀ i < elements.length,
          Sound (builtGraph J elsewhere) J ((builtGraph J elsewhere).element (.array elements) i) := by
        intro i hi
        have hx : items[i]? = some items[i] := List.getElem?_eq_getElem (by omega)
        have hv : elements[i]? = some elements[i] := List.getElem?_eq_getElem hi
        rw [element_built hv]
        exact ih items[i] (List.getElem_mem _) (hitem i _ _ hx hv)
      have hlt' : elements.length < 2 ^ 31 := by
        rw [hlength]
        exact hlt
      exact .array hlt' (fun i hi => (hat i hi).image) fun i hi => (hat i hi).clean
  | @object members hkeys hplain _ ih =>
    cases h with
    | @object _ props protos hnames hvalue =>
      refine ⟨fun h => (by cases h), fun d hd => ?_⟩
      rw [← Option.some.inj hd]
      have hat : ∀ key ∈ (builtGraph J elsewhere).keys (.object props protos),
          Sound (builtGraph J elsewhere) J ((builtGraph J elsewhere).get (.object props protos) key) := by
        intro key hkey
        obtain ⟨hname, m, hm, rfl⟩ := key_of_names hplain
          (fun n hn => List.mem_map.mp (hnames.mem_iff.mp hn)) hkey
        obtain ⟨v, hv, hget⟩ := get_built J elsewhere protos hname
        rw [hget]
        exact ih m hm (hvalue m hm v hv)
      refine .object (fun key hkey low hlow => ?_) fun key hkey => (hat key hkey).clean
      have himage := (hat key hkey).image
      rw [hlow] at himage
      exact himage trivial

theorem same_newDouble {bits : BitVec 64} {out : Json} (h : Image (builtGraph J elsewhere) J (newDouble bits) out) :
    Same (.number bits) out := by
  unfold newDouble at h
  split at h
  · rename_i hint
    cases h
    exact .number rfl (congrArg some hint)
  · cases h
    exact .number rfl rfl

/-- The image of a value that represents a document is that document. -/
theorem same_of_image {j : Json} (hdoc : Document j) {v : Val Node} (h : Represents j v) {out : Json}
    (himage : Image (builtGraph J elsewhere) J v out) : Same j out := by
  induction hdoc generalizing v out with
  | @string s hplain =>
    cases h
    cases himage
    rw [nameOf_plain hplain, text_plain J hplain]
    exact .string s
  | boolean b =>
    cases h
    cases himage
    exact .boolean b
  | integer i =>
    cases h
    cases himage
    exact .number rfl rfl
  | number _ =>
    cases h
    exact same_newDouble himage
  | @array items _ hitems ih =>
    cases h with
    | @array _ elements hlength hitem =>
      cases himage with
      | object hkind _ _ _ => cases hkind
      | @array _ items' _ hlength' _ hitem' =>
        have hlen : items'.length = elements.length := hlength'
        refine .array (hlen.trans hlength) fun i x y hx hy => ?_
        have hi : i < elements.length := by
          rw [← hlen]
          exact (List.getElem?_eq_some_iff.mp hy).1
        have hv : elements[i]? = some elements[i] := List.getElem?_eq_getElem hi
        have hmem := List.mem_of_getElem? hx
        have hrep := hitem i x _ hx hv
        have himg := hitem' i y hy
        rw [element_built hv] at himg
        exact ih x hmem hrep (himg (sound_of_represents J elsewhere (hitems x hmem) hrep).image)
  | @object members hkeys hplain hmembers ih =>
    cases h with
    | @object _ props protos hnames hvalue =>
      cases himage with
      | array hkind _ _ _ => cases hkind
      | @object _ members' _ hnodup hkeys' hmember' =>
        have hname : ∀ m ∈ members, nameOf m.1 ∈ props.map Prod.fst :=
          fun m hm => hnames.mem_iff.mpr (List.mem_map_of_mem hm)
        have hget : ∀ m ∈ members, ∃ v, Represents m.2 v ∧
            (builtGraph J elsewhere).get (.object props protos) m.1 = v := by
          intro m hm
          obtain ⟨v, hv, hget⟩ := get_built J elsewhere protos (hname m hm)
          exact ⟨v, hvalue m hm v hv, hget⟩
        refine .object ((List.perm_ext_iff_of_nodup hnodup hkeys).mpr fun key => ?_) fun m hm y hy => ?_
        · rw [hkeys']
          constructor
          · rintro ⟨hkey, _⟩
            obtain ⟨_, m, hm, rfl⟩ := key_of_names hplain (fun n hn => List.mem_map.mp (hnames.mem_iff.mp hn)) hkey
            exact List.mem_map_of_mem hm
          · intro hkey
            obtain ⟨m, hm, rfl⟩ := List.mem_map.mp hkey
            obtain ⟨v, hrep, hget⟩ := hget m hm
            refine ⟨key_of_member hplain hm (hname m hm), ?_⟩
            rw [hget]
            exact (sound_of_represents J elsewhere (hmembers m hm) hrep).image
        · obtain ⟨v, hrep, hget⟩ := hget m hm
          have himg := hmember' (m.1, y) hy
          rw [hget] at himg
          exact ih m hm hrep himg

/-! ## A document that comes back is storable -/

/-- The array that a branch converts, where the result has as many elements as the document. -/
theorem converts_of_same {depth : Nat} {items : List Json} {out : Json} (hlt : items.length < 2 ^ 31)
    (h : (builtGraph J elsewhere).toJSON J depth (.array (.array (newJSArray R items))) = some out)
    (hsame : Same (.array items) out) :
    FreeIndices R items ∧ ∀ x ∈ items, ∃ v depth y, toVal R x = some v ∧ Same x y ∧
      convert ((builtGraph J elsewhere).toJSON J depth) ((builtGraph J elsewhere).toObj J v) = some (some y) := by
  cases depth with
  | zero => cases h
  | succ depth =>
    obtain ⟨items', hloop, rfl⟩ := toJSON_array.mp h
    cases hsame with
    | number hx _ => cases hx
    | array hlength hitem =>
      have hle : (newJSArray R items).length ≤ items.length := by
        have hbound := length_appendArray_le (R := R) [] items
        rw [List.length_nil, Nat.zero_add] at hbound
        exact hbound
      have hjava : (javaLength (newJSArray R items).length).toNat = (newJSArray R items).length :=
        javaLength_of_lt (by omega)
      have hloop : arrayLoop (fun i => convert ((builtGraph J elsewhere).toJSON J depth)
          ((builtGraph J elsewhere).toObj J ((builtGraph J elsewhere).element (.array (newJSArray R items)) i)))
          (javaLength (newJSArray R items).length).toNat = some items' := hloop
      rw [hjava] at hloop
      have hput := length_arrayLoop_le hloop
      obtain ⟨hfree, hval⟩ := @freeIndices_of_length R items (by omega)
      obtain ⟨_, hget⟩ := getElem?_arrayLoop hloop (ne_none_of_length hloop (by omega))
      refine ⟨hfree, fun x hx => ?_⟩
      obtain ⟨i, hi⟩ := List.getElem?_of_mem hx
      obtain ⟨v, hv, hat⟩ := get_of_converts (newJSArray_of_free hfree hval) hi
      have hi' : i < (newJSArray R items).length := (List.getElem?_eq_some_iff.mp hat).1
      have hy : items'[i]? = some items'[i] := List.getElem?_eq_getElem (by omega)
      refine ⟨v, depth, items'[i], hv, hitem i x _ hi hy, ?_⟩
      have hconvert := hget i hi'
      rw [element_built hat, hy] at hconvert
      exact hconvert

/-- The object that a branch converts, where the result has all the keys of the document. -/
theorem stores_of_same {depth : Nat} {members : List (Text × Json)} {out : Json}
    (hkeys : (members.map Prod.fst).Nodup) (hplain : ∀ m ∈ members, Plain m.1)
    (h : (builtGraph J elsewhere).toJSON J depth (.object (newJSObject R members)) = some out)
    (hsame : Same (.object members) out) :
    FreeNames R members ∧ ∀ m ∈ members, ∃ v depth y, toVal R m.2 = some v ∧ Same m.2 y ∧
      convert ((builtGraph J elsewhere).toJSON J depth) ((builtGraph J elsewhere).toObj J v) = some (some y) := by
  cases depth with
  | zero => cases h
  | succ depth =>
    obtain ⟨members', hloop, rfl⟩ := toJSON_object.mp h
    obtain ⟨_, hmem⟩ := mem_members hloop
    cases hsame with
    | number hx _ => cases hx
    | object hkeys' hvalue =>
      have hout : ∀ m ∈ members, ∃ y, (m.1, y) ∈ members' := by
        intro m hm
        obtain ⟨m', hm', heq⟩ := List.mem_map.mp (hkeys'.mem_iff.mpr (List.mem_map_of_mem hm))
        exact ⟨m'.2, heq ▸ hm'⟩
      have hnames : ∀ n ∈ (appendObject R ⟨[], R.object⟩ members).names, ∃ m ∈ members, nameOf m.1 = n := by
        intro n hn
        rcases mem_names_appendObject hn with hn | hn
        · exact absurd hn List.not_mem_nil
        · exact hn
      have hname : ∀ m ∈ members, nameOf m.1 ∈ (appendObject R ⟨[], R.object⟩ members).names := by
        intro m hm
        obtain ⟨y, hy⟩ := hout m hm
        exact (key_of_names hplain hnames ((hmem m.1 y).mp hy).1).1
      have hnodup : (members.map fun m => nameOf m.1).Nodup := by
        rw [names_plain hplain]
        exact hkeys
      obtain ⟨hfree, hval⟩ := freeNames_of_names hnodup hname
      obtain ⟨props, hbuilt, hprops⟩ := newJSObject_of_free hfree hval
      refine ⟨hfree, fun m hm => ?_⟩
      obtain ⟨y, hy⟩ := hout m hm
      have hstored : nameOf m.1 ∈ props.map Prod.fst := by
        rw [names_of_stores hprops]
        exact List.mem_map_of_mem hm
      obtain ⟨v, hv, hget⟩ := get_built J elsewhere R.object hstored
      have hconvert := ((hmem m.1 y).mp hy).2.1
      rw [hbuilt, hget] at hconvert
      exact ⟨v, depth, y, value_of_stores hprops hnodup hm hv, hvalue m hm y hy, hconvert⟩

theorem storable_of_same {j : Json} (hdoc : Document j) {v : Val Node} (hv : toVal R j = some v) {depth : Nat}
    {out : Json}
    (h : convert ((builtGraph J elsewhere).toJSON J depth) ((builtGraph J elsewhere).toObj J v) = some (some out))
    (hsame : Same j out) : Storable R j := by
  induction hdoc generalizing v depth out with
  | string _ => exact .string _
  | boolean b => exact .boolean b
  | integer i => exact .integer i
  | number _ => exact .number _
  | @array items hlt _ ih =>
    rw [toVal_array] at hv
    rw [← Option.some.inj hv] at h
    obtain ⟨json, hjson, heq⟩ := Option.map_eq_some_iff.mp h
    rw [Option.some.inj heq] at hjson
    obtain ⟨hfree, hitems⟩ := converts_of_same hlt hjson hsame
    refine .array hfree fun x hx => ?_
    obtain ⟨w, depth', y, hw, hsame', hconvert⟩ := hitems x hx
    exact ih x hx hw hconvert hsame'
  | @object members hkeys hplain _ ih =>
    rw [toVal_object] at hv
    rw [← Option.some.inj hv] at h
    obtain ⟨json, hjson, heq⟩ := Option.map_eq_some_iff.mp h
    rw [Option.some.inj heq] at hjson
    obtain ⟨hfree, hmembers⟩ := stores_of_same hkeys hplain hjson hsame
    refine .object hfree fun m hm => ?_
    obtain ⟨w, depth', y, hw, hsame', hconvert⟩ := hmembers m hm
    exact ih m hm hw hconvert hsame'

/-! ## The round trip -/

/-- **Round trip.** Where `Object.prototype` is the engine's, a document comes back iff none of its objects has
the key `__proto__` and the prototypes leave the indices of its arrays to them. -/
theorem roundTrips_iff (hR : Unmodified R) {members : List (Text × Json)} (hdoc : Document (.object members)) :
    RoundTrips R J elsewhere members ↔ Assignable R (.object members) := by
  rw [← storable_iff_assignable hR hdoc]
  constructor
  · rintro ⟨depth, json, h, hsame⟩
    exact storable_of_same hdoc (toVal_object members) (Option.map_eq_some_iff.mpr ⟨json, h, rfl⟩) hsame
  · intro hstorable
    obtain ⟨v, hv, hrep⟩ := represents_of_storable hstorable
    rw [toVal_object] at hv
    rw [← Option.some.inj hv] at hrep
    have hfits : Fits (builtGraph J elsewhere) (.object (newJSObject R members)) := rfl
    have hclean := (sound_of_represents J elsewhere hdoc hrep).clean _ rfl
    obtain ⟨depth, json, h, himage⟩ := (image_iff_clean hfits).mpr hclean
    exact ⟨depth, json, h, same_of_image hdoc hrep himage⟩

/-- `{"a": 5, "0": [0.5]}` -/
theorem roundTrips_iff_sample :
    RoundTrips plainRealm sampleJni (fun _ _ => .undefined)
      [([0x61], .integer 5), ([0x30], .array [.number 0x3fe0000000000000])] := by
  refine (roundTrips_iff (fun _ => rfl) ?_).mpr ?_
  · have hplain : ∀ m ∈ [([0x61], Json.integer 5), ([0x30], .array [.number 0x3fe0000000000000])], Plain m.1 := by
      intro m hm
      rcases List.mem_cons.mp hm with rfl | hm
      · exact StringTrips.plain_of_all (by decide) (by decide)
      · rw [List.mem_singleton.mp hm]
        exact StringTrips.plain_of_all (by decide) (by decide)
    refine .object (by decide) hplain fun m hm => ?_
    rcases List.mem_cons.mp hm with rfl | hm
    · exact .integer 5
    · rw [List.mem_singleton.mp hm]
      refine .array (by decide) fun x hx => ?_
      rw [List.mem_singleton.mp hx]
      exact .number (by decide)
  · refine .object (by decide) fun m hm => ?_
    rcases List.mem_cons.mp hm with rfl | hm
    · exact .integer 5
    · rw [List.mem_singleton.mp hm]
      refine .array (fun _ _ => rfl) fun x hx => ?_
      rw [List.mem_singleton.mp hx]
      exact .number _

/-- The member of `{"__proto__": 1}` is lost. -/
theorem not_roundTrips_proto :
    ¬ ∀ (R : Realm) (J : Jni) (elsewhere : Node → Text → Val Node) (members : List (Text × Json)),
      Unmodified R → Document (.object members) → RoundTrips R J elsewhere members := by
  intro hall
  have hkeys : (([(protoName, Json.integer 1)] : List (Text × Json)).map Prod.fst).Nodup := List.nodup_singleton _
  have hplain : ∀ m ∈ [(protoName, Json.integer 1)], Plain m.1 := by
    intro m hm
    rw [List.mem_singleton.mp hm]
    exact StringTrips.plain_of_all (by decide) (by decide)
  have hdoc : Document (.object [(protoName, .integer 1)]) := by
    refine .object hkeys hplain fun m hm => ?_
    rw [List.mem_singleton.mp hm]
    exact .integer 1
  obtain ⟨depth, json, h, hsame⟩ := hall plainRealm sampleJni (fun _ _ => .undefined) _ (fun _ => rfl) hdoc
  have hfree := (stores_of_same hkeys hplain h hsame).1
  exact (freeNames_iff (fun _ => rfl) hkeys hplain).mp hfree List.mem_cons_self

end QuickJSBridge.JsonRoundTrip
