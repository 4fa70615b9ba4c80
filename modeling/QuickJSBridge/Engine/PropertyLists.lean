import QuickJSBridge.Engine.Shapes
import Mathlib.Data.List.Basic
import Mathlib.Data.List.Nodup

/-!
# Property lists

What an object is to its users: its properties in the order in which they were added, each with name, flags and
value. A shape and an array of values are one way to keep such a list.

* `properties` — the list that names, flags and values make;
* `find_properties`, `properties_push`, `properties_remove`, `properties_setFlags`, `properties_setValue`,
  `properties_realloc`, `properties_compact` — what changes of the two arrays do to the list.
-/

namespace QuickJSBridge.Shapes

variable {V : Type}

/-- Name, flags and value. -/
abbrev Property (V : Type) := Nat × Nat × V

/-- An entry of a shape with the value beside it. -/
abbrev Slot (V : Type) := (Nat × Nat) × Option V

def Slot.property (s : Slot V) : Option (Property V) := if s.1.1 = 0 then none else s.2.map fun v => (s.1.1, s.1.2, v)

def properties (keys : List (Nat × Nat)) (values : List (Option V)) : List (Property V) :=
  (keys.zip values).filterMap Slot.property

/-- Names of properties differ. -/
def KeysNodup (keys : List (Nat × Nat)) : Prop := ((keys.map Prod.fst).filter (· ≠ 0)).Nodup

/-- Every property has a value. -/
def Filled (keys : List (Nat × Nat)) (values : List (Option V)) : Prop :=
  keys.length ≤ values.length ∧ ∀ (i : Nat) (k : Nat × Nat), keys[i]? = some k → k.1 ≠ 0 → ∃ v, values[i]? = some (some v)

variable {keys : List (Nat × Nat)} {values : List (Option V)} {i atom flags : Nat} {v : V}

/-! ## One property -/

theorem KeysNodup.unique (h : KeysNodup keys) (hatom : atom ≠ 0) {j f g : Nat} (hi : keys[i]? = some (atom, f))
    (hj : keys[j]? = some (atom, g)) : i = j := by
  induction keys generalizing i j with
  | nil => cases hi
  | cons k keys ih =>
    have hrest : KeysNodup keys := by
      unfold KeysNodup at h ⊢
      rw [List.map_cons, List.filter_cons] at h
      split at h
      · exact (List.nodup_cons.mp h).2
      · exact h
    have hnot : ∀ n f : Nat, keys[n]? = some (atom, f) → k.1 ≠ atom := by
      intro n f hn heq
      unfold KeysNodup at h
      rw [List.map_cons, List.filter_cons_of_pos (by simpa [heq] using hatom), List.nodup_cons] at h
      refine h.1 (List.mem_filter.mpr ⟨?_, by simpa [heq] using hatom⟩)
      rw [heq]
      exact List.mem_map.mpr ⟨_, List.mem_of_getElem? hn, rfl⟩
    cases i with
    | zero =>
      cases j with
      | zero => rfl
      | succ j =>
        rw [List.getElem?_cons_zero, Option.some.injEq] at hi
        exact absurd (by rw [hi]) (hnot j g hj)
    | succ i =>
      cases j with
      | zero =>
        rw [List.getElem?_cons_zero, Option.some.injEq] at hj
        exact absurd (by rw [hj]) (hnot i f hi)
      | succ j => exact congrArg Nat.succ (ih hrest hi hj)

/-- To change the one entry of a name is to change all entries of that name. -/
theorem modify_eq_map {α : Type} {l : List α} {P : α → Prop} [DecidablePred P] {f : α → α}
    (h : ∀ j e, l[j]? = some e → (P e ↔ j = i)) : l.modify i f = l.map fun e => if P e then f e else e := by
  refine List.ext_getElem? fun j => ?_
  rw [List.getElem?_modify, List.getElem?_map]
  cases hget : l[j]? with
  | none => rfl
  | some e =>
    have hiff := h j e hget
    show some (if i = j then f e else e) = some (if P e then f e else e)
    by_cases hij : i = j
    · rw [if_pos hij, if_pos (hiff.mpr hij.symm)]
    · rw [if_neg hij, if_neg fun hP => hij (hiff.mp hP).symm]

theorem zip_modify {α β : Type} (l : List α) (r : List β) (f : α → α) (g : β → β) (i : Nat) :
    (l.modify i f).zip (r.modify i g) = (l.zip r).modify i fun e => (f e.1, g e.2) := by
  induction l generalizing r i with
  | nil => simp
  | cons a l ih =>
    cases r with
    | nil => simp
    | cons b r =>
      cases i with
      | zero => rfl
      | succ i => simp [ih]

/-- Entry `i` of `atom` is changed: what becomes of the property. -/
theorem properties_modify (values : List (Option V)) (hnodup : KeysNodup keys) (hatom : atom ≠ 0) {f : Nat} (hi : keys[i]? = some (atom, f))
    (g : Nat × Nat → Nat × Nat) (u : Option V → Option V) (G : Property V → Option (Property V))
    (hG : ∀ e ∈ keys.zip values, e.1.1 = atom → Slot.property (g e.1, u e.2) = (Slot.property e).bind G) :
    properties (keys.modify i g) (values.modify i u) =
      (properties keys values).filterMap fun x => if x.1 = atom then G x else some x := by
  have hentry : ∀ j (e : Slot V), (keys.zip values)[j]? = some e → (e.1.1 = atom ↔ j = i) := by
    intro j e hget
    have hkey := (List.getElem?_zip_eq_some.mp hget).1
    refine ⟨fun heq => ?_, fun hji => ?_⟩
    · refine hnodup.unique hatom (f := e.1.2) (g := f) ?_ hi
      rw [hkey, ← heq]
    · rw [hji, hi] at hkey
      rw [← Option.some.inj hkey]
  unfold properties
  rw [zip_modify, modify_eq_map hentry, List.filterMap_map, List.filterMap_filterMap]
  refine List.filterMap_congr fun e he => ?_
  show Slot.property (if e.1.1 = atom then (g e.1, u e.2) else e) = _
  have hname : ∀ x, Slot.property e = some x → x.1 = e.1.1 := by
    intro x hx
    unfold Slot.property at hx
    split at hx
    · cases hx
    · obtain ⟨v, -, rfl⟩ := Option.map_eq_some_iff.mp hx
      rfl
  by_cases heq : e.1.1 = atom
  · rw [if_pos heq, hG e he heq]
    cases hx : Slot.property e with
    | none => rfl
    | some x =>
      show G x = if x.1 = atom then G x else some x
      rw [if_pos ((hname x hx).trans heq)]
  · rw [if_neg heq]
    cases hx : Slot.property e with
    | none => rfl
    | some x =>
      show some x = if x.1 = atom then G x else some x
      rw [if_neg fun h => heq ((hname x hx).symm.trans h)]

theorem properties_remove (hnodup : KeysNodup keys) (hatom : atom ≠ 0) {f : Nat} (hi : keys[i]? = some (atom, f)) :
    properties (keys.modify i fun _ => (0, 0)) (values.set i none) =
      (properties keys values).filter fun x => x.1 ≠ atom := by
  rw [List.set_eq_modify, properties_modify values hnodup hatom hi (fun _ => (0, 0)) (fun _ => none) (fun _ => none)
    (fun e _ _ => ?_), ← List.filterMap_eq_filter]
  · refine List.filterMap_congr fun x _ => ?_
    by_cases hx : x.1 = atom
    · simp [hx, Option.guard]
    · simp [hx, Option.guard]
  · rw [Option.bind_fun_none]
    exact if_pos rfl

theorem properties_setFlags (hnodup : KeysNodup keys) (hatom : atom ≠ 0) {f : Nat} (hi : keys[i]? = some (atom, f)) :
    properties (keys.modify i fun k => (k.1, flags)) values =
      (properties keys values).map fun x => if x.1 = atom then (x.1, flags, x.2.2) else x := by
  have hid : values.modify i id = values := by rw [List.modify_id]
  have hmodify := properties_modify values hnodup hatom hi (fun k => (k.1, flags)) id
    (fun x => some (x.1, flags, x.2.2)) (fun e _ heq => by
      unfold Slot.property
      rw [if_neg (heq ▸ hatom), if_neg (heq ▸ hatom)]
      cases e.2 with
      | none => rfl
      | some v => rfl)
  rw [hid] at hmodify
  rw [hmodify, ← List.filterMap_eq_map]
  refine List.filterMap_congr fun x _ => ?_
  show _ = some (if x.1 = atom then (x.1, flags, x.2.2) else x)
  split
  · rfl
  · rfl

theorem properties_setValue (hnodup : KeysNodup keys) (hfilled : Filled keys values) (hatom : atom ≠ 0) {f : Nat}
    (hi : keys[i]? = some (atom, f)) :
    properties keys (values.set i (some v)) =
      (properties keys values).map fun x => if x.1 = atom then (x.1, x.2.1, v) else x := by
  have hid : keys.modify i id = keys := by rw [List.modify_id]
  have hmodify := properties_modify values hnodup hatom hi id (fun _ => some v)
    (fun x => some (x.1, x.2.1, v)) (fun e he heq => by
      obtain ⟨j, hj⟩ : ∃ j, (keys.zip values)[j]? = some e := List.mem_iff_getElem?.mp he
      obtain ⟨hkey, hvalue⟩ := List.getElem?_zip_eq_some.mp hj
      obtain ⟨w, hw⟩ := hfilled.2 j e.1 hkey (heq ▸ hatom)
      rw [hvalue] at hw
      unfold Slot.property
      have hne : e.1.1 ≠ 0 := heq ▸ hatom
      show (if e.1.1 = 0 then none else _) = Option.bind (if e.1.1 = 0 then none else _) _
      rw [if_neg hne, if_neg hne, Option.some.inj hw]
      rfl)
  rw [hid] at hmodify
  rw [List.set_eq_modify, hmodify, ← List.filterMap_eq_map]
  refine List.filterMap_congr fun x _ => ?_
  show _ = some (if x.1 = atom then (x.1, x.2.1, v) else x)
  split
  · rfl
  · rfl

/-! ## The whole list -/

theorem zip_take_length {α β : Type} (l : List α) (r : List β) : l.zip (r.take l.length) = l.zip r := by
  induction l generalizing r with
  | nil => rfl
  | cons a l ih =>
    cases r with
    | nil => rfl
    | cons b r =>
      show (a, b) :: l.zip (r.take l.length) = (a, b) :: l.zip r
      rw [ih]

/-- Only the values beside entries matter. -/
theorem properties_congr {values' : List (Option V)} (h : values'.take keys.length = values.take keys.length) :
    properties keys values' = properties keys values := by
  unfold properties
  rw [← zip_take_length keys values', h, zip_take_length]

theorem filled_congr {values' : List (Option V)} (hlength : keys.length ≤ values'.length)
    (h : values'.take keys.length = values.take keys.length) (hfilled : Filled keys values) : Filled keys values' := by
  refine ⟨hlength, fun i k hi hk => ?_⟩
  obtain ⟨v, hv⟩ := hfilled.2 i k hi hk
  have hlt : i < keys.length := (List.getElem?_eq_some_iff.mp hi).1
  refine ⟨v, ?_⟩
  rw [← List.getElem?_take_of_lt hlt, h, List.getElem?_take_of_lt hlt]
  exact hv

theorem length_realloc (values : List (Option V)) (n : Nat) : (realloc values n).length = n := by
  unfold realloc
  rw [List.length_append, List.length_take, List.length_replicate]
  omega

theorem take_realloc {k n : Nat} (hk : k ≤ values.length) (hn : k ≤ n) : (realloc values n).take k = values.take k := by
  unfold realloc
  rw [List.take_append_of_le_length (by rw [List.length_take]; omega), List.take_take, Nat.min_eq_left hn]

/-- A property is added, and gets its value. -/
theorem properties_push (hatom : atom ≠ 0) (hroom : keys.length < values.length) :
    properties (keys ++ [(atom, flags)]) (values.set keys.length (some v)) =
      properties keys values ++ [(atom, flags, v)] := by
  have hsplit : values.set keys.length (some v) =
      values.take keys.length ++ some v :: values.drop (keys.length + 1) := List.set_eq_take_append_cons_drop.trans
        (if_pos hroom)
  unfold properties
  rw [hsplit, List.zip_append (by rw [List.length_take]; omega), List.filterMap_append, zip_take_length]
  have hlast : Slot.property ((atom, flags), some v) = some (atom, flags, v) := if_neg hatom
  show _ ++ List.filterMap Slot.property [((atom, flags), some v)] = _
  rw [List.filterMap_cons, hlast]
  rfl

theorem filled_push (hfilled : Filled keys values) (hroom : keys.length < values.length) :
    Filled (keys ++ [(atom, flags)]) (values.set keys.length (some v)) := by
  refine ⟨by rw [List.length_append, List.length_set, List.length_singleton]; omega, fun i k hi hk => ?_⟩
  by_cases hlt : i < keys.length
  · rw [List.getElem?_append_left hlt] at hi
    rw [List.getElem?_set_ne (by omega)]
    exact hfilled.2 i k hi hk
  · have hi' := (List.getElem?_eq_some_iff.mp hi).1
    rw [List.length_append, List.length_singleton] at hi'
    obtain rfl : i = keys.length := by omega
    exact ⟨v, List.getElem?_set_self hroom⟩

/-- The values of free entries are left out together with them. -/
theorem properties_compact (keys : List (Nat × Nat)) (values : List (Option V)) :
    properties (keys.filter fun k => k.1 ≠ 0) (((keys.zip values).filter fun kv => kv.1.1 ≠ 0).map Prod.snd) =
      properties keys values := by
  unfold properties
  induction keys generalizing values with
  | nil => rfl
  | cons k keys ih =>
    cases values with
    | nil => simp
    | cons v values =>
      by_cases hk : k.1 = 0
      · have hnone : Slot.property (k, v) = none := if_pos hk
        rw [List.filter_cons_of_neg (by simpa using hk), List.zip_cons_cons,
          List.filter_cons_of_neg (by simpa using hk), List.filterMap_cons, hnone]
        exact ih values
      · rw [List.filter_cons_of_pos (by simpa using hk), List.zip_cons_cons,
          List.filter_cons_of_pos (by simpa using hk), List.map_cons, List.zip_cons_cons, List.filterMap_cons,
          List.filterMap_cons, ih values]

/-! ## Values stay beside their names -/

theorem filled_modify (hfilled : Filled keys values) {g : Nat × Nat → Nat × Nat} (hg : ∀ k, (g k).1 = k.1) :
    Filled (keys.modify i g) values := by
  refine ⟨by rw [List.length_modify]; exact hfilled.1, fun j k hj hk => ?_⟩
  rw [List.getElem?_modify] at hj
  obtain ⟨k', hk', heq⟩ := Option.map_eq_some_iff.mp hj
  refine hfilled.2 j k' hk' ?_
  rw [← heq] at hk
  split at hk
  · rw [hg] at hk
    exact hk
  · exact hk

theorem filled_remove (hfilled : Filled keys values) : Filled (keys.modify i fun _ => (0, 0)) (values.set i none) := by
  refine ⟨by rw [List.length_modify, List.length_set]; exact hfilled.1, fun j k hj hk => ?_⟩
  rw [List.getElem?_modify] at hj
  obtain ⟨k', hk', heq⟩ := Option.map_eq_some_iff.mp hj
  by_cases hij : i = j
  · rw [if_pos hij] at heq
    rw [← heq] at hk
    exact absurd rfl hk
  · rw [if_neg hij] at heq
    rw [List.getElem?_set_ne hij]
    exact hfilled.2 j k' hk' (heq ▸ hk)

theorem filled_setValue (hfilled : Filled keys values) (v : V) : Filled keys (values.set i (some v)) := by
  refine ⟨by rw [List.length_set]; exact hfilled.1, fun j k hj hk => ?_⟩
  obtain ⟨w, hw⟩ := hfilled.2 j k hj hk
  by_cases hij : i = j
  · have hlt := (List.getElem?_eq_some_iff.mp hw).1
    exact ⟨v, by rw [hij]; exact List.getElem?_set_self hlt⟩
  · exact ⟨w, by rw [List.getElem?_set_ne hij]; exact hw⟩

/-- The values that `compact_properties` keeps. -/
theorem filled_compact (hfilled : Filled keys values) :
    (keys.filter fun k => k.1 ≠ 0).length = (((keys.zip values).filter fun kv => kv.1.1 ≠ 0).map Prod.snd).length ∧
      Filled (keys.filter fun k => k.1 ≠ 0) (((keys.zip values).filter fun kv => kv.1.1 ≠ 0).map Prod.snd) := by
  have hfst : keys.filter (fun k => k.1 ≠ 0) = ((keys.zip values).filter fun kv => kv.1.1 ≠ 0).map Prod.fst := by
    have hkeys : keys = (keys.zip values).map Prod.fst := (List.map_fst_zip hfilled.1).symm
    conv_lhs => rw [hkeys, List.filter_map]
    rfl
  have hlength : (keys.filter fun k => k.1 ≠ 0).length =
      (((keys.zip values).filter fun kv => kv.1.1 ≠ 0).map Prod.snd).length := by
    rw [hfst, List.length_map, List.length_map]
  refine ⟨hlength, Nat.le_of_eq hlength, fun j k hj hk => ?_⟩
  rw [hfst, List.getElem?_map] at hj
  obtain ⟨kv, hkv, rfl⟩ := Option.map_eq_some_iff.mp hj
  -- the pair stood beside each other before
  obtain ⟨j', hj'⟩ := List.mem_iff_getElem?.mp (List.mem_of_mem_filter (List.mem_of_getElem? hkv))
  obtain ⟨hkey, hvalue⟩ := List.getElem?_zip_eq_some.mp hj'
  obtain ⟨v, hv⟩ := hfilled.2 j' kv.1 hkey hk
  rw [hvalue] at hv
  refine ⟨v, ?_⟩
  rw [List.getElem?_map, hkv, Option.map_some, Option.some.inj hv]

/-- The properties have the names that are in use, in their order. -/
theorem names_properties (hfilled : Filled keys values) :
    ((properties keys values).map fun x => (x.1, x.2.1)) = keys.filter fun k => k.1 ≠ 0 := by
  induction keys generalizing values with
  | nil => rfl
  | cons k keys ih =>
    cases values with
    | nil => exact absurd hfilled.1 (Nat.not_succ_le_zero _)
    | cons w values =>
      have hrest : Filled keys values := ⟨Nat.le_of_succ_le_succ hfilled.1, fun i => hfilled.2 (i + 1)⟩
      have ihrest := ih hrest
      unfold properties at ihrest ⊢
      rw [List.zip_cons_cons, List.filterMap_cons, List.filter_cons]
      by_cases hzero : k.1 = 0
      · simpa [Slot.property, hzero] using ihrest
      · obtain ⟨v, hv⟩ := hfilled.2 0 k rfl hzero
        have hw : w = some v := Option.some.inj hv
        simpa [Slot.property, hzero, hw] using ihrest

/-- There are as many properties as names. -/
theorem length_properties (hfilled : Filled keys values) : (properties keys values).length = keys.countP fun k => k.1 ≠ 0 := by
  rw [List.countP_eq_length_filter, ← names_properties hfilled, List.length_map]

/-! ## Searching -/

theorem mem_properties {x : Property V} (h : x ∈ properties keys values) :
    x.1 ≠ 0 ∧ ∃ i : Nat, keys[i]? = some (x.1, x.2.1) ∧ values[i]? = some (some x.2.2) := by
  obtain ⟨e, he, hx⟩ := List.mem_filterMap.mp h
  obtain ⟨i, hi⟩ := List.mem_iff_getElem?.mp he
  obtain ⟨hkey, hvalue⟩ := List.getElem?_zip_eq_some.mp hi
  unfold Slot.property at hx
  by_cases hzero : e.1.1 = 0
  · rw [if_pos hzero] at hx
    cases hx
  · rw [if_neg hzero] at hx
    obtain ⟨v, hv, rfl⟩ := Option.map_eq_some_iff.mp hx
    exact ⟨hzero, i, hkey, by rw [hvalue, hv]⟩

theorem properties_mem {f : Nat} (hatom : atom ≠ 0) (hkey : keys[i]? = some (atom, f))
    (hvalue : values[i]? = some (some v)) : (atom, f, v) ∈ properties keys values := by
  refine List.mem_filterMap.mpr ⟨((atom, f), some v), ?_, if_neg hatom⟩
  exact List.mem_of_getElem? (List.getElem?_zip_eq_some.mpr ⟨hkey, hvalue⟩)

/-- The one property of a name. -/
theorem find_properties (hnodup : KeysNodup keys) {f : Nat} (hatom : atom ≠ 0) (hkey : keys[i]? = some (atom, f))
    (hvalue : values[i]? = some (some v)) :
    (properties keys values).find? (fun x => x.1 = atom) = some (atom, f, v) := by
  cases hfind : (properties keys values).find? (fun x => x.1 = atom) with
  | none =>
    have hmem := properties_mem hatom hkey hvalue
    exact absurd (decide_eq_true rfl) (List.find?_eq_none.mp hfind _ hmem)
  | some x =>
    have hname : x.1 = atom := by simpa using List.find?_some hfind
    obtain ⟨-, j, hj, hx⟩ := mem_properties (List.mem_of_find?_eq_some hfind)
    rw [hname] at hj
    obtain rfl := hnodup.unique hatom hkey hj
    rw [hkey, Option.some.injEq, Prod.mk.injEq] at hj
    rw [hvalue, Option.some.injEq, Option.some.injEq] at hx
    rw [hj.2, hx, ← hname]

theorem find_properties_none (h : ∀ k ∈ keys, k.1 ≠ atom) :
    (properties keys values).find? (fun x => x.1 = atom) = none := by
  refine List.find?_eq_none.mpr fun x hx heq => ?_
  obtain ⟨-, i, hi, -⟩ := mem_properties hx
  exact h _ (List.mem_of_getElem? hi) (of_decide_eq_true heq)

end QuickJSBridge.Shapes
