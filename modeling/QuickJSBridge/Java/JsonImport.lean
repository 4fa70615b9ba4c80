import QuickJSBridge.Java.JsonExport
import QuickJSBridge.Jni.ArgumentVectors

/-!
# JS objects out of JSON

`JSObject.append` and `JSArray.append` go through a JSON object or array and assign what they find to a fresh
JS object, or push it onto a fresh array. They have no branch for JSON null, and an assignment is not the
definition of a property.

* `Realm` — what the prototypes say of an assignment; `Node` — the objects that are built;
* `Target.set`, `push` — `_set` on a plain object, and `_arrayAdd`, which `dense_push` derives from the array model;
* `appendObject`, `appendArray`, `toVal` — the two loops and the branches that they share;
* `Represents` — a JS value with everything that the JSON value has in it;
* `Storable` — no null, and nothing that the prototypes or another key of the object keep from being stored;
* `represents_iff_storable` — what is built represents the JSON value iff that is storable.
-/

namespace QuickJSBridge.JsonImport

open Arrays ArgumentVectors JsonExport

/-! ## Objects that are built -/

/-- What a chain of prototypes says of an assignment. -/
inductive Inherited where
  -- nothing, or a writable property: the object gets a property of its own
  | free
  -- a read-only property, or an accessor that a script has made: the object gets none
  | blocked
  -- the accessor `__proto__` of `Object.prototype`
  | protoAccessor
  deriving DecidableEq

structure Realm where
  -- `Object.prototype`
  object : Text → Inherited
  -- `Array.prototype`, and `Object.prototype` behind it
  array : Text → Inherited
  -- these two leave an element at the index to the array
  index : Nat → Bool

/-- A JS object that only the conversion has seen so far, so that it is given by what is in it. -/
inductive Node where
  -- the elements
  | array (items : List (Val Node))
  -- the properties in the order they were made, and the prototypes
  | object (props : List (Text × Val Node)) (protos : Text → Inherited)

/-- A plain object that the loop is working on. -/
structure Target where
  props : List (Text × Val Node)
  protos : Text → Inherited

def Target.names (o : Target) : List Text := o.props.map Prod.fst

/-- The name that a Java string is as a property, and its text as a value. -/
def nameOf (key : Text) : Text := newString (getStringUTFChars key)

/-- `length` -/
def lengthName : Text := [0x6c, 0x65, 0x6e, 0x67, 0x74, 0x68]

/-- `__proto__` -/
def protoName : Text := [0x5f, 0x5f, 0x70, 0x72, 0x6f, 0x74, 0x6f, 0x5f, 0x5f]

/-- `JS_AtomIsArrayIndex` -/
def arrayIndex? (name : Text) : Option Nat :=
  let n := name.foldl (fun n c => 10 * n + (c.toNat - 0x30)) 0
  if name ≠ [] ∧ (name.all fun c => StringTrips.isDigit c.toNat) ∧ (name.head? = some 0x30 → name.length = 1) ∧
    n < 2 ^ 32 - 1 then some n else none

section

variable (R : Realm)

/-- `find_own_property` -/
def owns (props : List (Text × Val Node)) (name : Text) : Bool := props.any fun p => p.1 = name

/-- What the prototypes say of an object whose prototype is this one. -/
def Node.protos : Node → Text → Inherited
  | .array items, name =>
    if name = lengthName ∨ (arrayIndex? name).any (· < items.length) then .free else R.array name
  | .object props protos, name => if owns props name then .free else protos name

/-- `JS_SetPropertyStr` on a plain object -/
def Target.set (o : Target) (name : Text) (v : Val Node) : Target :=
  if owns o.props name then { o with props := o.props.map fun p => if p.1 = name then (name, v) else p }
  else
    match o.protos name with
    | .free => { o with props := o.props ++ [(name, v)] }
    | .blocked => o
    | .protoAccessor =>
      match v with
      | .object p => { o with protos := p.protos R }
      | .null => { o with protos := fun _ => .free }
      | _ => o

/-- `_arrayAdd` -/
def push (items : List (Val Node)) (v : Val Node) : List (Val Node) :=
  if R.index items.length then items ++ [v] else items

/-- `JS_NewFloat64` -/
def newDouble {ν : Type} (bits : BitVec 64) : Val ν :=
  if float64OfInt32 (int32OfFloat64 bits) = bits then .int (int32OfFloat64 bits) else .float64 bits

/-- The JS value that a conversion to JS hands over. -/
def viewHanded {L : Layout} (E : Engine L) : Handed L → Val (Addr L)
  | .value v => view E v
  | .newString s => .string s

/-- **Leaves.** What `JobjectToJSValue` makes of a String, an Integer, a Boolean and a Double. -/
theorem view_jobjectToJSValue {L : Layout} (E : Engine L) (s : Text) (i : BitVec 32) (b : Bool) {bits : BitVec 64}
    (hnan : isNaNBits bits = false) :
    (jobjectToJSValue E (.string s)).map (viewHanded E) = some (.string (nameOf s)) ∧
      (jobjectToJSValue E (.integer i)).map (viewHanded E) = some (.int i) ∧
      (jobjectToJSValue E (.boolean b)).map (viewHanded E) = some (.bool b) ∧
      (jobjectToJSValue E (.double bits)).map (viewHanded E) = some (newDouble bits) := by
  refine ⟨rfl, rfl, rfl, ?_⟩
  show some (view E (newFloat64 bits)) = some (newDouble bits)
  unfold newFloat64 newDouble
  split
  · rfl
  · cases L with
    | struct64 => rfl
    | nanBox =>
      show some (Val.float64 (if isNaNBits bits then canonicalNaN else bits)) = _
      rw [hnan]
      rfl

/-! ## The loops -/

mutual

/-- The branches of the loops: what is set or pushed, if anything. -/
def toVal : Json → Option (Val Node)
  | .string s => some (.string (nameOf s))
  | .integer i => some (.int i)
  | .boolean b => some (.bool b)
  | .number bits => some (newDouble bits)
  | .object members =>
    let o := appendObject ⟨[], R.object⟩ members
    some (.object (.object o.props o.protos))
  | .array items => some (.object (.array (appendArray [] items)))
  -- no branch
  | .null => none

/-- `JSObject.append` -/
def appendObject : Target → List (Text × Json) → Target
  | o, [] => o
  | o, (key, x) :: members =>
    appendObject (match toVal x with
      | some v => o.set R (nameOf key) v
      | none => o) members

/-- `JSArray.append` -/
def appendArray : List (Val Node) → List Json → List (Val Node)
  | a, [] => a
  | a, x :: items =>
    appendArray (match toVal x with
      | some v => push R a v
      | none => a) items

end

/-- `new JSObject(context, jsonObject)` -/
def newJSObject (members : List (Text × Json)) : Node :=
  let o := appendObject R ⟨[], R.object⟩ members
  .object o.props o.protos

/-- `new JSArray(context, jsonArray)` -/
def newJSArray (items : List Json) : List (Val Node) := appendArray R [] items

/-! ## The property and the condition -/

/-- The JS value has everything that the JSON value has: every element at its index, and every member as a
property of its own. -/
inductive Represents : Json → Val Node → Prop where
  | null : Represents .null .null
  | string (s : Text) : Represents (.string s) (.string (nameOf s))
  | boolean (b : Bool) : Represents (.boolean b) (.bool b)
  | integer (i : BitVec 32) : Represents (.integer i) (.int i)
  | number (bits : BitVec 64) : Represents (.number bits) (newDouble bits)
  | array {items : List Json} {elements : List (Val Node)} (hlength : elements.length = items.length)
      (hitem : ∀ (i : Nat) x v, items[i]? = some x → elements[i]? = some v → Represents x v) :
      Represents (.array items) (.object (.array elements))
  | object {members : List (Text × Json)} {props : List (Text × Val Node)} {protos : Text → Inherited}
      (hnames : (props.map Prod.fst).Perm (members.map fun m => nameOf m.1))
      (hvalue : ∀ m ∈ members, ∀ v, (nameOf m.1, v) ∈ props → Represents m.2 v) :
      Represents (.object members) (.object (.object props protos))

/-- The names are distinct, and an assignment of each makes a property. -/
def FreeNames (members : List (Text × Json)) : Prop :=
  (members.map fun m => nameOf m.1).Nodup ∧ ∀ m ∈ members, R.object (nameOf m.1) = .free

/-- The prototypes leave the indices of the array to it. -/
def FreeIndices (items : List Json) : Prop := ∀ i < items.length, R.index i = true

inductive Storable : Json → Prop where
  | string (s : Text) : Storable (.string s)
  | boolean (b : Bool) : Storable (.boolean b)
  | integer (i : BitVec 32) : Storable (.integer i)
  | number (bits : BitVec 64) : Storable (.number bits)
  | array {items : List Json} (hfree : FreeIndices R items) (hitem : ∀ x ∈ items, Storable x) :
      Storable (.array items)
  | object {members : List (Text × Json)} (hfree : FreeNames R members)
      (hmember : ∀ m ∈ members, Storable m.2) : Storable (.object members)

end

/-! ## Arrays -/

variable {R : Realm}

theorem length_push_le (a : List (Val Node)) (v : Val Node) : (push R a v).length ≤ a.length + 1 := by
  unfold push
  split
  · simp
  · exact Nat.le_succ _

theorem length_appendArray_le (a : List (Val Node)) (items : List Json) :
    (appendArray R a items).length ≤ a.length + items.length := by
  induction items generalizing a with
  | nil => simp [appendArray]
  | cons x items ih =>
    simp only [appendArray, List.length_cons]
    cases toVal R x with
    | none =>
      have hrest := ih a
      show (appendArray R a items).length ≤ _
      omega
    | some v =>
      have hrest := ih (push R a v)
      have hpush := length_push_le (R := R) a v
      show (appendArray R (push R a v) items).length ≤ _
      omega

/-- A loop that pushes every element met no null and no index that is not free. -/
theorem free_of_length {a : List (Val Node)} {items : List Json}
    (h : (appendArray R a items).length = a.length + items.length) :
    (∀ i < items.length, R.index (a.length + i) = true) ∧ ∀ x ∈ items, (toVal R x).isSome := by
  induction items generalizing a with
  | nil => exact ⟨fun i hi => absurd hi (Nat.not_lt_zero i), fun x hx => absurd hx List.not_mem_nil⟩
  | cons x items ih =>
    simp only [appendArray, List.length_cons] at h
    cases hx : toVal R x with
    | none =>
      rw [hx] at h
      have hle : (appendArray R a items).length ≤ a.length + items.length := length_appendArray_le a items
      have heq : (appendArray R a items).length = a.length + (items.length + 1) := h
      omega
    | some v =>
      rw [hx] at h
      have heq : (appendArray R (push R a v) items).length = a.length + (items.length + 1) := h
      cases hindex : R.index a.length with
      | false =>
        have hpush : push R a v = a := by
          unfold push
          rw [hindex]
          rfl
        have hle := length_appendArray_le (R := R) a items
        rw [hpush] at heq
        omega
      | true =>
        have hpush : push R a v = a ++ [v] := if_pos hindex
        have hlength : (a ++ [v]).length = a.length + 1 := by simp
        rw [hpush] at heq
        obtain ⟨hfree, hval⟩ := ih (a := a ++ [v]) (by omega)
        rw [hlength] at hfree
        refine ⟨fun i hi => ?_, fun y hy => ?_⟩
        · cases i with
          | zero => exact hindex
          | succ i =>
            rw [List.length_cons] at hi
            have hi' := hfree i (by omega)
            rwa [Nat.add_right_comm] at hi'
        · rcases List.mem_cons.mp hy with rfl | hy
          · rw [hx]
            rfl
          · exact hval y hy

/-- The values that the loop finds, one for one. -/
def Converts (R : Realm) : List Json → List (Val Node) → Prop := List.Forall₂ fun x v => toVal R x = some v

theorem appendArray_of_free {a : List (Val Node)} {items : List Json}
    (hfree : ∀ i < items.length, R.index (a.length + i) = true) (hval : ∀ x ∈ items, (toVal R x).isSome) :
    ∃ vs, appendArray R a items = a ++ vs ∧ Converts R items vs := by
  induction items generalizing a with
  | nil => exact ⟨[], (List.append_nil a).symm, .nil⟩
  | cons x items ih =>
    obtain ⟨v, hx⟩ := Option.isSome_iff_exists.mp (hval x List.mem_cons_self)
    have hpush : push R a v = a ++ [v] := if_pos (hfree 0 (Nat.succ_pos _))
    have hlength : (a ++ [v]).length = a.length + 1 := by simp
    obtain ⟨vs, heq, hvs⟩ := ih (a := a ++ [v])
      (by
        intro i hi
        rw [hlength, Nat.add_right_comm]
        exact hfree (i + 1) (Nat.succ_lt_succ hi))
      (fun y hy => hval y (List.mem_cons_of_mem x hy))
    refine ⟨v :: vs, ?_, .cons hx hvs⟩
    simp only [appendArray, hx]
    rw [hpush, heq, List.append_assoc]
    rfl

/-- **Pushing.** Where a setter stores nothing in the array, `push` is what `JS_SetPropertyUint32` does at its
end. -/
theorem dense_push {L : Layout} {S : Setting L (Val Node)} {a : ArrayObj L (Val Node)} {items : List (Val Node)}
    (hindex : ∀ i, free S i = R.index i) (hsetter : ∀ f a v, S.setter f a v = a) (h : Dense a items)
    (hlt : items.length + 1 < 2 ^ 31) (v : Val Node) :
    Dense (setPropertyUint32 S a items.length v) (push R items v) := by
  unfold push
  split
  · rename_i hfree
    exact dense_set h ((hindex _).trans hfree) hlt v
  · rename_i hblocked
    have hfree : free S items.length = false := by
      rw [hindex]
      simpa using hblocked
    have hown : a.own items.length = none := h.valid.bounded _ (Nat.le_refl _)
    have hsame : setPropertyUint32 S a items.length v = a := by
      unfold free at hfree
      unfold setPropertyUint32
      simp only [hown]
      split at hfree
      · cases hfree
      · cases hfree
      · rename_i hnot hnone
        split
        · exact hsetter _ _ _
        · rfl
        · rfl
        · rename_i w hw
          exact absurd hw (hnot w)
        · rename_i hw
          exact absurd hw hnone
    rw [hsame]
    exact h

/-! ## Objects -/

theorem owns_iff {o : Target} {name : Text} : owns o.props name = true ↔ name ∈ o.names := by
  simp [owns, Target.names]

theorem set_of_free {o : Target} {name : Text} (hnew : name ∉ o.names) (hfree : o.protos name = .free)
    (v : Val Node) : o.set R name v = { o with props := o.props ++ [(name, v)] } := by
  unfold Target.set
  rw [if_neg (owns_iff.not.mpr hnew), hfree]

/-- An assignment makes at most the one property, and only where the prototypes leave it to the object. -/
theorem names_set (o : Target) (name : Text) (v : Val Node) :
    (o.set R name v).names = o.names ∨
      o.protos name = .free ∧ name ∉ o.names ∧ (o.set R name v).names = o.names ++ [name] := by
  by_cases hmem : name ∈ o.names
  · refine .inl ?_
    unfold Target.set
    rw [if_pos (owns_iff.mpr hmem)]
    show (o.props.map fun p => if p.1 = name then (name, v) else p).map Prod.fst = o.props.map Prod.fst
    rw [List.map_map]
    refine List.map_congr_left fun p _ => ?_
    show (if p.1 = name then (name, v) else p).1 = p.1
    split
    · rename_i h
      exact h.symm
    · rfl
  · cases hfree : o.protos name with
    | free =>
      refine .inr ⟨rfl, hmem, ?_⟩
      rw [set_of_free hmem hfree]
      exact List.map_append
    | blocked =>
      refine .inl ?_
      unfold Target.set
      rw [if_neg (owns_iff.not.mpr hmem), hfree]
    | protoAccessor =>
      refine .inl ?_
      unfold Target.set
      rw [if_neg (owns_iff.not.mpr hmem), hfree]
      cases v <;> rfl

/-- What the loop does for one member. -/
def setMember (R : Realm) (o : Target) (m : Text × Json) : Target :=
  match toVal R m.2 with
  | some v => o.set R (nameOf m.1) v
  | none => o

theorem appendObject_cons (o : Target) (m : Text × Json) (members : List (Text × Json)) :
    appendObject R o (m :: members) = appendObject R (setMember R o m) members := by
  simp only [appendObject, setMember]

theorem names_setMember (o : Target) (m : Text × Json) :
    (setMember R o m).names = o.names ∨
      o.protos (nameOf m.1) = .free ∧ (toVal R m.2).isSome ∧ nameOf m.1 ∉ o.names ∧
        (setMember R o m).names = o.names ++ [nameOf m.1] := by
  unfold setMember
  cases toVal R m.2 with
  | none => exact .inl rfl
  | some v =>
    rcases names_set (R := R) o (nameOf m.1) v with h | ⟨hfree, hnew, h⟩
    · exact .inl h
    · exact .inr ⟨hfree, rfl, hnew, h⟩

theorem mem_names_appendObject {o : Target} {members : List (Text × Json)} {name : Text}
    (h : name ∈ (appendObject R o members).names) : name ∈ o.names ∨ ∃ m ∈ members, nameOf m.1 = name := by
  induction members generalizing o with
  | nil => exact .inl h
  | cons m members ih =>
    rw [appendObject_cons] at h
    rcases ih h with hset | ⟨m', hm', heq⟩
    · rcases names_setMember (R := R) o m with hsame | ⟨_, _, _, hmore⟩
      · exact .inl (hsame ▸ hset)
      · rw [hmore, List.mem_append, List.mem_singleton] at hset
        rcases hset with hset | rfl
        · exact .inl hset
        · exact .inr ⟨m, List.mem_cons_self, rfl⟩
    · exact .inr ⟨m', List.mem_cons_of_mem m hm', heq⟩

theorem nodup_names_appendObject {o : Target} (members : List (Text × Json)) (h : o.names.Nodup) :
    (appendObject R o members).names.Nodup := by
  induction members generalizing o with
  | nil => exact h
  | cons m members ih =>
    rw [appendObject_cons]
    apply ih
    rcases names_setMember (R := R) o m with hsame | ⟨_, _, hnew, hmore⟩
    · rw [hsame]
      exact h
    · rw [hmore]
      exact List.nodup_append'.mpr ⟨h, List.nodup_singleton _, List.disjoint_singleton.mpr hnew⟩

/-- The properties that the loop makes, one for one. -/
def Stores (R : Realm) : List (Text × Json) → List (Text × Val Node) → Prop :=
  List.Forall₂ fun m p => p.1 = nameOf m.1 ∧ toVal R m.2 = some p.2

/-- New names that are distinct, as the loop needs them. -/
structure NewNames (o : Target) (members : List (Text × Json)) : Prop where
  nodup : (members.map fun m => nameOf m.1).Nodup
  new : ∀ m ∈ members, nameOf m.1 ∉ o.names

theorem NewNames.tail {o o' : Target} {m : Text × Json} {members : List (Text × Json)}
    (h : NewNames o (m :: members)) (hnames : o'.names = o.names ++ [nameOf m.1]) : NewNames o' members := by
  have hnodup := List.nodup_cons.mp h.nodup
  refine ⟨hnodup.2, fun m' hm' hmem => ?_⟩
  rw [hnames, List.mem_append, List.mem_singleton] at hmem
  rcases hmem with hmem | heq
  · exact h.new m' (List.mem_cons_of_mem m hm') hmem
  · exact hnodup.1 (List.mem_map.mpr ⟨m', hm', heq⟩)

/-- A loop that makes a property for every member met no null and no name that is not free. -/
theorem free_of_names {o : Target} {members : List (Text × Json)} (hnew : NewNames o members)
    (hall : ∀ m ∈ members, nameOf m.1 ∈ (appendObject R o members).names) :
    (∀ m ∈ members, o.protos (nameOf m.1) = .free) ∧ ∀ m ∈ members, (toVal R m.2).isSome := by
  induction members generalizing o with
  | nil => exact ⟨fun m hm => absurd hm List.not_mem_nil, fun m hm => absurd hm List.not_mem_nil⟩
  | cons m members ih =>
    rw [appendObject_cons] at hall
    rcases names_setMember (R := R) o m with hsame | ⟨hfree, hval, _, hmore⟩
    · -- no later member has the name
      rcases mem_names_appendObject (hall m List.mem_cons_self) with hmem | ⟨m', hm', heq⟩
      · rw [hsame] at hmem
        exact absurd hmem (hnew.new m List.mem_cons_self)
      · exact absurd (List.mem_map.mpr ⟨m', hm', heq⟩) (List.nodup_cons.mp hnew.nodup).1
    · obtain ⟨v, hv⟩ := Option.isSome_iff_exists.mp hval
      have hprotos : (setMember R o m).protos = o.protos := by
        unfold setMember
        rw [hv]
        show (o.set R (nameOf m.1) v).protos = _
        rw [set_of_free (hnew.new m List.mem_cons_self) hfree]
      obtain ⟨hfrees, hvals⟩ := ih (hnew.tail hmore) fun m' hm' => hall m' (List.mem_cons_of_mem m hm')
      rw [hprotos] at hfrees
      refine ⟨fun m' hm' => ?_, fun m' hm' => ?_⟩
      · rcases List.mem_cons.mp hm' with rfl | hm'
        · exact hfree
        · exact hfrees m' hm'
      · rcases List.mem_cons.mp hm' with rfl | hm'
        · exact hval
        · exact hvals m' hm'

theorem appendObject_of_free {o : Target} {members : List (Text × Json)} (hnew : NewNames o members)
    (hfree : ∀ m ∈ members, o.protos (nameOf m.1) = .free) (hval : ∀ m ∈ members, (toVal R m.2).isSome) :
    ∃ props, appendObject R o members = { o with props := o.props ++ props } ∧ Stores R members props := by
  induction members generalizing o with
  | nil =>
    refine ⟨[], ?_, .nil⟩
    rw [List.append_nil]
    rfl
  | cons m members ih =>
    obtain ⟨v, hv⟩ := Option.isSome_iff_exists.mp (hval m List.mem_cons_self)
    have hset : setMember R o m = { o with props := o.props ++ [(nameOf m.1, v)] } := by
      unfold setMember
      rw [hv]
      exact set_of_free (hnew.new m List.mem_cons_self) (hfree m List.mem_cons_self) v
    obtain ⟨props, heq, hprops⟩ := ih (o := { o with props := o.props ++ [(nameOf m.1, v)] })
      (hnew.tail List.map_append) (fun m' hm' => hfree m' (List.mem_cons_of_mem m hm'))
      (fun m' hm' => hval m' (List.mem_cons_of_mem m hm'))
    refine ⟨(nameOf m.1, v) :: props, ?_, .cons ⟨rfl, hv⟩ hprops⟩
    rw [appendObject_cons, hset, heq, List.append_assoc]
    rfl

theorem names_of_stores {members : List (Text × Json)} {props : List (Text × Val Node)} (h : Stores R members props) :
    props.map Prod.fst = members.map fun m => nameOf m.1 := by
  induction h with
  | nil => rfl
  | cons hhead _ ih => rw [List.map_cons, List.map_cons, hhead.1, ih]

/-! ## What is built -/

theorem toVal_object (members : List (Text × Json)) : toVal R (.object members) = some (.object (newJSObject R members)) := by
  simp only [toVal, newJSObject]

theorem toVal_array (items : List Json) : toVal R (.array items) = some (.object (.array (newJSArray R items))) := by
  simp only [toVal, newJSArray]

theorem nodup_names_newJSObject (members : List (Text × Json)) :
    (appendObject R ⟨[], R.object⟩ members).names.Nodup := nodup_names_appendObject members List.nodup_nil

theorem mem_of_stores {members : List (Text × Json)} {props : List (Text × Val Node)} (h : Stores R members props)
    {m : Text × Json} (hm : m ∈ members) : ∃ v, toVal R m.2 = some v ∧ (nameOf m.1, v) ∈ props := by
  induction h with
  | nil => exact absurd hm List.not_mem_nil
  | @cons m' p members props hhead _ ih =>
    rcases List.mem_cons.mp hm with rfl | hm
    · refine ⟨p.2, hhead.2, ?_⟩
      rw [← hhead.1]
      exact List.mem_cons_self
    · obtain ⟨v, hv, hmem⟩ := ih hm
      exact ⟨v, hv, List.mem_cons_of_mem p hmem⟩

theorem value_of_stores {members : List (Text × Json)} {props : List (Text × Val Node)} (h : Stores R members props)
    (hnodup : (members.map fun m => nameOf m.1).Nodup) {m : Text × Json} (hm : m ∈ members) {v : Val Node}
    (hv : (nameOf m.1, v) ∈ props) : toVal R m.2 = some v := by
  obtain ⟨w, hw, hmem⟩ := mem_of_stores h hm
  rw [← names_of_stores h] at hnodup
  have heq := List.inj_on_of_nodup_map hnodup hmem hv rfl
  rw [hw, (Prod.mk.inj heq).2]

/-- The built object, where every member is stored. -/
theorem newJSObject_of_free {members : List (Text × Json)} (hfree : FreeNames R members)
    (hval : ∀ m ∈ members, (toVal R m.2).isSome) :
    ∃ props, newJSObject R members = .object props R.object ∧ Stores R members props := by
  obtain ⟨props, heq, hprops⟩ := appendObject_of_free (o := ⟨[], R.object⟩)
    ⟨hfree.1, fun _ _ => List.not_mem_nil⟩ hfree.2 hval
  rw [List.nil_append] at heq
  refine ⟨props, ?_, hprops⟩
  unfold newJSObject
  rw [heq]

/-- An object that has a property for every member met no null and no name that is not free. -/
theorem freeNames_of_names {members : List (Text × Json)} (hnodup : (members.map fun m => nameOf m.1).Nodup)
    (hall : ∀ m ∈ members, nameOf m.1 ∈ (appendObject R ⟨[], R.object⟩ members).names) :
    FreeNames R members ∧ ∀ m ∈ members, (toVal R m.2).isSome := by
  have hnew : NewNames ⟨[], R.object⟩ members := ⟨hnodup, fun _ _ => List.not_mem_nil⟩
  obtain ⟨hfree, hval⟩ := free_of_names hnew hall
  exact ⟨⟨hnodup, hfree⟩, hval⟩

/-- The same of an array. -/
theorem freeIndices_of_length {items : List Json} (h : (newJSArray R items).length = items.length) :
    FreeIndices R items ∧ ∀ x ∈ items, (toVal R x).isSome := by
  have hlength : (appendArray R [] items).length = ([] : List (Val Node)).length + items.length := by
    rw [List.length_nil, Nat.zero_add]
    exact h
  obtain ⟨hfree, hval⟩ := free_of_length hlength
  refine ⟨fun i hi => ?_, hval⟩
  have hi' := hfree i hi
  rwa [List.length_nil, Nat.zero_add] at hi'

theorem newJSArray_of_free {items : List Json} (hfree : FreeIndices R items)
    (hval : ∀ x ∈ items, (toVal R x).isSome) : Converts R items (newJSArray R items) := by
  obtain ⟨vs, heq, hvs⟩ := @appendArray_of_free R [] items
    (fun i hi => by rw [List.length_nil, Nat.zero_add]; exact hfree i hi) hval
  unfold newJSArray
  rw [heq]
  exact hvs

theorem get_of_converts {items : List Json} {vs : List (Val Node)} (h : Converts R items vs) {i : Nat} {x : Json}
    (hx : items[i]? = some x) : ∃ v, toVal R x = some v ∧ vs[i]? = some v := by
  obtain ⟨hi, rfl⟩ := List.getElem?_eq_some_iff.mp hx
  have hi' : i < vs.length := h.length_eq ▸ hi
  exact ⟨vs[i], (List.forall₂_iff_get.mp h).2 i hi hi', List.getElem?_eq_getElem hi'⟩

/-! ## What is built represents the JSON value -/

theorem represents_of_storable {j : Json} (h : Storable R j) : ∃ v, toVal R j = some v ∧ Represents j v := by
  induction h with
  | string s => exact ⟨_, by simp only [toVal], .string s⟩
  | boolean b => exact ⟨_, by simp only [toVal], .boolean b⟩
  | integer i => exact ⟨_, by simp only [toVal], .integer i⟩
  | number bits => exact ⟨_, by simp only [toVal], .number bits⟩
  | @array items hfree _ ih =>
    have hval : ∀ x ∈ items, (toVal R x).isSome := by
      intro x hx
      obtain ⟨v, hv, _⟩ := ih x hx
      rw [hv]
      rfl
    have hconv := newJSArray_of_free hfree hval
    refine ⟨_, toVal_array items, .array hconv.length_eq.symm fun i x v hx hv => ?_⟩
    obtain ⟨v', hv', hget⟩ := get_of_converts hconv hx
    obtain ⟨w, hw, hrep⟩ := ih x (List.mem_of_getElem? hx)
    rw [hv] at hget
    rw [hv'] at hw
    rw [Option.some.inj hget, Option.some.inj hw]
    exact hrep
  | @object members hfree _ ih =>
    have hval : ∀ m ∈ members, (toVal R m.2).isSome := by
      intro m hm
      obtain ⟨v, hv, _⟩ := ih m hm
      rw [hv]
      rfl
    obtain ⟨props, hbuilt, hprops⟩ := newJSObject_of_free hfree hval
    refine ⟨_, toVal_object members, ?_⟩
    rw [hbuilt]
    refine .object (names_of_stores hprops ▸ List.Perm.refl _) fun m hm v hv => ?_
    obtain ⟨w, hw, hrep⟩ := ih m hm
    rw [value_of_stores hprops hfree.1 hm hv] at hw
    rw [Option.some.inj hw]
    exact hrep

theorem storable_of_represents {j : Json} {v : Val Node} (hv : toVal R j = some v) (h : Represents j v) :
    Storable R j := by
  induction j generalizing v with
  | null =>
    simp only [toVal] at hv
    cases hv
  | string s => exact .string s
  | boolean b => exact .boolean b
  | integer i => exact .integer i
  | number bits => exact .number bits
  | array items ih =>
    rw [toVal_array] at hv
    rw [← Option.some.inj hv] at h
    cases h with
    | array hlength hitem =>
      obtain ⟨hfree, hval⟩ := freeIndices_of_length hlength
      refine .array hfree fun x hx => ?_
      obtain ⟨i, hi⟩ := List.getElem?_of_mem hx
      obtain ⟨w, hw, hget⟩ := get_of_converts (newJSArray_of_free hfree hval) hi
      exact ih x hx hw (hitem i x w hi hget)
  | object members ih =>
    rw [toVal_object] at hv
    rw [← Option.some.inj hv] at h
    unfold newJSObject at h
    cases h with
    | object hnames hvalue =>
      have hnodup := hnames.nodup_iff.mp (nodup_names_newJSObject (R := R) members)
      obtain ⟨hfree, hval⟩ := freeNames_of_names hnodup fun m hm =>
        hnames.mem_iff.mpr (List.mem_map_of_mem hm)
      obtain ⟨props, hbuilt, hprops⟩ := newJSObject_of_free hfree hval
      have heq : (appendObject R ⟨[], R.object⟩ members).props = props := by
        have hnode := hbuilt
        unfold newJSObject at hnode
        exact (Node.object.inj hnode).1
      refine .object hfree fun m hm => ?_
      obtain ⟨w, hw, hmem⟩ := mem_of_stores hprops hm
      exact ih m hm hw (hvalue m hm w (heq ▸ hmem))

/-- **Import.** What is built of a JSON value represents it iff the value is storable. -/
theorem represents_iff_storable (R : Realm) (j : Json) : (∃ v, toVal R j = some v ∧ Represents j v) ↔ Storable R j :=
  ⟨fun ⟨_, hv, hrep⟩ => storable_of_represents hv hrep, represents_of_storable⟩

end QuickJSBridge.JsonImport
