import QuickJSBridge.Java.JsonImport

/-!
# Positions of array elements

A JSON array becomes a JS array, and a JS array a JSON array, by appending one image after the other. The
branches that append nothing move what comes after them.

* `Imageless`, `Image` — the JS values that no JSON value stands for, and the images of the others: an array
  has one element for each of its own, an object the members that have an image;
* `Clean` — the arrays below have only elements with an image and fewer than `2 ^ 31` of them, no object
  has a BigInt, and no cycle is reached;
* `image_iff_clean` — `toJSONArray` and `toJSONObject` give the image iff what they start from is clean;
* `positions_iff` — both directions.
-/

namespace QuickJSBridge.ArrayPositions

open Arrays JsonExport JsonImport

variable {ν : Type}

/-! ## Images -/

/-- No JSON value stands for it. -/
def Imageless (g : Graph ν) : Val ν → Prop
  | .undefined | .null | .symbol | .bigInt _ | .bigFloat | .bigDecimal => True
  | .float64 bits => isFinite bits = false
  | .object o => g.kind o = .function
  | .bool _ | .int _ | .string _ => False

/-- An element without an image is JSON null, a property without one is left out. -/
inductive Image (g : Graph ν) (J : Jni) : Val ν → Json → Prop where
  | bool (b : Bool) : Image g J (.bool b) (.boolean b)
  | int (i : BitVec 32) : Image g J (.int i) (.integer i)
  | float64 {bits : BitVec 64} (hfinite : isFinite bits = true) : Image g J (.float64 bits) (.number bits)
  | string (t : Text) : Image g J (.string t) (.string (J.text t))
  | array {a : ν} {items : List Json} (hkind : g.kind a = .array) (hlength : items.length = g.length a)
      (hnull : ∀ (i : Nat) x, items[i]? = some x → Imageless g (g.element a i) → x = .null)
      (hitem : ∀ (i : Nat) x, items[i]? = some x → ¬ Imageless g (g.element a i) → Image g J (g.element a i) x) :
      Image g J (.object a) (.array items)
  | object {o : ν} {members : List (Text × Json)} (hkind : g.kind o = .object)
      (hnodup : (members.map Prod.fst).Nodup)
      (hkeys : ∀ key, key ∈ members.map Prod.fst ↔ key ∈ g.keys o ∧ ¬ Imageless g (g.get o key))
      (hmember : ∀ m ∈ members, Image g J (g.get o m.1) m.2) :
      Image g J (.object o) (.object members)

/-- The call is the one that the object's class asks for. -/
def Fits (g : Graph ν) : Conversion ν → Prop
  | .array a => g.kind a = .array
  | .object o => g.kind o = .object

/-- Every element has an image, there are not too many, and no object has a BigInt, at any depth. -/
inductive Clean (g : Graph ν) (J : Jni) : Conversion ν → Prop where
  | array {a : ν} (hlength : g.length a < 2 ^ 31) (himage : ∀ i < g.length a, ¬ Imageless g (g.element a i))
      (hnested : ∀ i < g.length a, ∀ d, (g.toObj J (g.element a i)).call? = some d → Clean g J d) :
      Clean g J (.array a)
  | object {o : ν} (hbig : ∀ key ∈ g.keys o, ∀ low, g.get o key ≠ .bigInt low)
      (hnested : ∀ key ∈ g.keys o, ∀ d, (g.toObj J (g.get o key)).call? = some d → Clean g J d) :
      Clean g J (.object o)

/-- The conversion ends with the image. -/
def Exports (g : Graph ν) (J : Jni) (c : Conversion ν) : Prop :=
  ∃ depth json, g.toJSON J depth c = some json ∧ Image g J (.object c.node) json

/-- `new JSArray(context, jsonArray)` has the length of the JSON array and the image of each element at its
index. -/
def Positions (R : Realm) (items : List Json) : Prop :=
  (newJSArray R items).length = items.length ∧
    ∀ (i : Nat) x v, items[i]? = some x → (newJSArray R items)[i]? = some v → Represents x v

/-! ## Members -/

theorem mem_names_putMember {members : List (Text × Json)} {key k : Text} {x : Json} :
    k ∈ (putMember members key x).map Prod.fst ↔ k = key ∨ k ∈ members.map Prod.fst := by
  induction members with
  | nil => simp [putMember]
  | cons m members ih =>
    obtain ⟨k', y⟩ := m
    simp only [putMember]
    split
    · rename_i h
      rw [h]
      simp
    · simp only [List.map_cons, List.mem_cons, ih]
      tauto

theorem nodup_names_putMember {members : List (Text × Json)} (h : (members.map Prod.fst).Nodup) (key : Text)
    (x : Json) : ((putMember members key x).map Prod.fst).Nodup := by
  induction members with
  | nil => simp [putMember]
  | cons m members ih =>
    obtain ⟨k', y⟩ := m
    have hnodup := List.nodup_cons.mp h
    simp only [putMember]
    split
    · rename_i heq
      rw [← heq]
      exact h
    · rename_i hne
      refine List.nodup_cons.mpr ⟨fun hmem => ?_, ih hnodup.2⟩
      rcases mem_names_putMember.mp hmem with heq | hmem
      · exact hne heq
      · exact hnodup.1 hmem

theorem mem_putMember {members : List (Text × Json)} (h : (members.map Prod.fst).Nodup) {key k : Text} {x y : Json} :
    (k, y) ∈ putMember members key x ↔ k = key ∧ y = x ∨ k ≠ key ∧ (k, y) ∈ members := by
  induction members with
  | nil => simp [putMember]
  | cons m members ih =>
    obtain ⟨k', y'⟩ := m
    have hnodup := List.nodup_cons.mp h
    simp only [putMember]
    split
    · rename_i heq
      rw [← heq, List.mem_cons, List.mem_cons]
      constructor
      · rintro (hhead | hmem)
        · exact .inl (Prod.mk.inj hhead)
        · refine .inr ⟨?_, .inr hmem⟩
          rintro rfl
          exact hnodup.1 (List.mem_map.mpr ⟨(k, y), hmem, rfl⟩)
      · rintro (⟨rfl, rfl⟩ | ⟨hne, hmem⟩)
        · exact .inl rfl
        · rcases hmem with hhead | hmem
          · exact absurd (Prod.mk.inj hhead).1 hne
          · exact .inr hmem
    · rename_i hne
      rw [List.mem_cons, ih hnodup.2, List.mem_cons]
      constructor
      · rintro (hhead | ⟨rfl, rfl⟩ | ⟨hk, hmem⟩)
        · have hk := (Prod.mk.inj hhead).1
          exact .inr ⟨hk ▸ hne, .inl hhead⟩
        · exact .inl ⟨rfl, rfl⟩
        · exact .inr ⟨hk, .inr hmem⟩
      · rintro (⟨rfl, rfl⟩ | ⟨hk, hhead | hmem⟩)
        · exact .inr (.inl ⟨rfl, rfl⟩)
        · exact .inl hhead
        · exact .inr (.inr ⟨hk, hmem⟩)

/-! ## The loops -/

theorem length_arrayLoop_le {item : Nat → Option (Option Json)} {n : Nat} {items : List Json}
    (h : arrayLoop item n = some items) : items.length ≤ n := by
  induction n generalizing items with
  | zero =>
    rw [← Option.some.inj h]
    exact Nat.zero_le _
  | succ n ih =>
    obtain ⟨before, x, hbefore, _, rfl⟩ := arrayLoop_succ.mp h
    have hle := ih hbefore
    cases x with
    | none => simpa using Nat.le_succ_of_le hle
    | some x => simpa using hle

/-- **The invariant of `toJSONArray`**: as long as every branch puts something, element `i` is put at index `i`. -/
theorem getElem?_arrayLoop {item : Nat → Option (Option Json)} {n : Nat} {items : List Json}
    (h : arrayLoop item n = some items) (hall : ∀ i < n, item i ≠ some none) :
    items.length = n ∧ ∀ i < n, item i = some items[i]? := by
  induction n generalizing items with
  | zero =>
    rw [← Option.some.inj h]
    exact ⟨rfl, fun i hi => absurd hi (Nat.not_lt_zero i)⟩
  | succ n ih =>
    obtain ⟨before, x, hbefore, hx, rfl⟩ := arrayLoop_succ.mp h
    obtain ⟨hlength, hget⟩ := ih hbefore fun i hi => hall i (by omega)
    cases x with
    | none => exact absurd hx (hall n (by omega))
    | some x =>
      refine ⟨by simp [hlength], fun i hi => ?_⟩
      rcases Nat.lt_succ_iff_lt_or_eq.mp hi with hlt | rfl
      · rw [hget i hlt, List.getElem?_append_left (by omega)]
      · rw [hx, ← hlength]
        simp

/-- A loop that puts as many elements as it has turns puts one in each. -/
theorem ne_none_of_length {item : Nat → Option (Option Json)} {n : Nat} {items : List Json}
    (h : arrayLoop item n = some items) (hlength : items.length = n) : ∀ i < n, item i ≠ some none := by
  induction n generalizing items with
  | zero => exact fun i hi => absurd hi (Nat.not_lt_zero i)
  | succ n ih =>
    obtain ⟨before, x, hbefore, hx, rfl⟩ := arrayLoop_succ.mp h
    have hle := length_arrayLoop_le hbefore
    intro i hi
    cases x with
    | none =>
      simp at hlength
      omega
    | some x =>
      have hbeforelen : before.length = n := by simpa using hlength
      rcases Nat.lt_succ_iff_lt_or_eq.mp hi with hlt | rfl
      · exact ih hbefore hbeforelen i hlt
      · rw [hx]
        simp

/-- What `toJSONObject` puts under a key. -/
def Puts (member : Text → Option (Option Json)) (key : Text) (x : Json) : Prop :=
  member key = some (some x) ∧ x.checked = true

theorem putCaught_eq (members : List (Text × Json)) (key : Text) (r : Option Json) :
    (∃ x, r = some x ∧ x.checked = true ∧ putCaught members key r = putMember members key x) ∨
      (∀ x, r = some x → x.checked = false) ∧ putCaught members key r = members := by
  cases r with
  | none => exact .inr ⟨fun x hx => (by cases hx), rfl⟩
  | some x =>
    cases hx : x.checked with
    | true => exact .inl ⟨x, rfl, hx, by simp [putCaught, put, hx]⟩
    | false =>
      refine .inr ⟨fun y hy => ?_, by simp [putCaught, put, hx]⟩
      rw [← Option.some.inj hy]
      exact hx

/-- **The invariant of `toJSONObject`**: a member is the last one put under its key. -/
theorem mem_objectLoop {member : Text → Option (Option Json)} {keys : List Text} {members result : List (Text × Json)}
    (h : objectLoop member keys members = some result) (hnodup : (members.map Prod.fst).Nodup) :
    (result.map Prod.fst).Nodup ∧ ∀ key x, (key, x) ∈ result ↔
      key ∈ keys ∧ Puts member key x ∨ (key, x) ∈ members ∧ ¬ (key ∈ keys ∧ ∃ y, Puts member key y) := by
  induction keys generalizing members with
  | nil =>
    rw [← Option.some.inj h]
    exact ⟨hnodup, fun key x => by simp⟩
  | cons k keys ih =>
    obtain ⟨r, hr, hrest⟩ := objectLoop_cons.mp h
    rcases putCaught_eq members k r with ⟨x₀, rfl, hchecked, hput⟩ | ⟨hunchecked, hput⟩
    · rw [hput] at hrest
      obtain ⟨hnodup', hmem⟩ := ih hrest (nodup_names_putMember hnodup k x₀)
      have hputs : ∀ y, Puts member k y ↔ y = x₀ := by
        intro y
        unfold Puts
        rw [hr]
        constructor
        · rintro ⟨heq, _⟩
          exact (Option.some.inj (Option.some.inj heq)).symm
        · rintro rfl
          exact ⟨rfl, hchecked⟩
      refine ⟨hnodup', fun key x => ?_⟩
      rw [hmem, mem_putMember hnodup]
      by_cases heq : key = k
      · subst heq
        simp [hputs]
        tauto
      · simp [heq]
    · rw [hput] at hrest
      obtain ⟨hnodup', hmem⟩ := ih hrest hnodup
      have hputs : ∀ y, ¬ Puts member k y := by
        rintro y ⟨heq, hchecked⟩
        rw [hr] at heq
        rw [hunchecked y (Option.some.inj heq)] at hchecked
        cases hchecked
      refine ⟨hnodup', fun key x => ?_⟩
      rw [hmem]
      by_cases heq : key = k
      · subst heq
        simp [hputs]
      · simp [heq]

/-! ## One value -/

theorem javaLength_of_lt {n : Nat} (h : n < 2 ^ 31) : (javaLength n).toNat = n := by
  unfold javaLength lengthIndex
  rw [if_pos h, BitVec.toInt_eq_toNat_of_lt (by simp; omega), BitVec.toNat_ofNat]
  omega

theorem javaLength_lt (n : Nat) : (javaLength n).toNat < 2 ^ 31 := by
  have hlt := BitVec.toInt_lt (x := BitVec.ofNat 32 (lengthIndex n))
  unfold javaLength
  omega

variable {g : Graph ν} {J : Jni}

/-- A branch converts what it is at only where that is an array or a plain object. -/
theorem call?_eq_some_iff {v : Val ν} {d : Conversion ν} :
    (g.toObj J v).call? = some d ↔ v = .object d.node ∧ Fits g d := by
  cases v with
  | object o => cases hkind : g.kind o <;> cases d <;> grind [Graph.toObj, Obj.call?, Conversion.node, Fits]
  | _ => simp [Graph.toObj, Obj.call?]

theorem not_imageless_of_call {v : Val ν} {d : Conversion ν} (h : (g.toObj J v).call? = some d) : ¬ Imageless g v := by
  obtain ⟨rfl, hfits⟩ := call?_eq_some_iff.mp h
  intro himageless
  have hfunction : g.kind d.node = .function := himageless
  cases d with
  | array a => cases hfunction.symm.trans hfits
  | object o => cases hfunction.symm.trans hfits

theorem not_imageless_of_image {v : Val ν} {x : Json} (h : Image g J v x) : ¬ Imageless g v := by
  cases h with
  | float64 hfinite => simp [Imageless, hfinite]
  | array hkind _ _ _ => simp [Imageless, hkind]
  | object hkind _ _ _ => simp [Imageless, hkind]
  | _ => exact fun h => h

/-- What the branch for a value puts. -/
inductive Branch (g : Graph ν) (J : Jni) (nested : Conversion ν → Option Json) : Val ν → Option Json → Prop where
  | nothing {v : Val ν} (himageless : Imageless g v) (hbig : ∀ low, v ≠ .bigInt low) : Branch g J nested v none
  | leaf {v : Val ν} {x : Json} (himage : Image g J v x) (hchecked : x.checked = true) : Branch g J nested v (some x)
  | infinite {v : Val ν} {bits : BitVec 64} (himageless : Imageless g v) (hinfinite : isFinite bits = false) :
      Branch g J nested v (some (.number bits))
  | bigInt (low : BitVec 32) : Branch g J nested (.bigInt low) (some (.integer low))
  | nested {v : Val ν} {d : Conversion ν} {x : Json} (hcall : (g.toObj J v).call? = some d)
      (hnested : nested d = some x) : Branch g J nested v (some x)

theorem convert_of_call {nested : Conversion ν → Option Json} {x : Obj ν} {d : Conversion ν} (h : x.call? = some d) :
    convert nested x = (nested d).map some := by
  cases x with
  | array a => rw [← Option.some.inj h]; rfl
  | object o => rw [← Option.some.inj h]; rfl
  | _ => cases h

theorem branch_of_convert {nested : Conversion ν → Option Json} {v : Val ν} {r : Option Json}
    (h : convert nested (g.toObj J v) = some r) : Branch g J nested v r := by
  cases hcall : (g.toObj J v).call? with
  | some d =>
    rw [convert_of_call hcall] at h
    obtain ⟨x, hx, rfl⟩ := Option.map_eq_some_iff.mp h
    exact .nested hcall hx
  | none =>
    cases v with
    | object o =>
      simp only [Graph.toObj] at h hcall
      cases hkind : g.kind o with
      | function =>
        rw [hkind] at h
        rw [← Option.some.inj h]
        exact .nothing hkind fun low hlow => by cases hlow
      | array =>
        rw [hkind] at hcall
        cases hcall
      | object =>
        rw [hkind] at hcall
        cases hcall
    | float64 bits =>
      rw [← Option.some.inj h]
      cases hfinite : isFinite bits with
      | true => exact .leaf (.float64 hfinite) hfinite
      | false => exact .infinite hfinite hfinite
    | bool b =>
      rw [← Option.some.inj h]
      exact .leaf (.bool b) rfl
    | int i =>
      rw [← Option.some.inj h]
      exact .leaf (.int i) rfl
    | string t =>
      rw [← Option.some.inj h]
      exact .leaf (.string t) rfl
    | bigInt low =>
      rw [← Option.some.inj h]
      exact .bigInt low
    | bigFloat =>
      rw [← Option.some.inj h]
      exact .infinite trivial (by decide)
    | undefined | null | symbol | bigDecimal =>
      rw [← Option.some.inj h]
      exact .nothing trivial fun low hlow => by cases hlow

/-- No branch puts JSON null for a value without an image. -/
theorem not_imageless_of_null {nested : Conversion ν → Option Json} {v : Val ν}
    (h : Branch g J nested v (some .null)) : ¬ Imageless g v := by
  cases h with
  | leaf himage _ => exact not_imageless_of_image himage
  | nested hcall _ => exact not_imageless_of_call hcall

theorem checked_toJSON {depth : Nat} {c : Conversion ν} {x : Json} (h : g.toJSON J depth c = some x) :
    x.checked = true := by
  cases depth with
  | zero => cases h
  | succ depth =>
    cases c with
    | array a =>
      obtain ⟨_, _, rfl⟩ := toJSON_array.mp h
      rfl
    | object o =>
      obtain ⟨_, _, rfl⟩ := toJSON_object.mp h
      rfl

/-! ## The image -/

/-- The members of a result. -/
theorem mem_members {depth : Nat} {o : ν} {members : List (Text × Json)}
    (h : objectLoop (fun key => convert (g.toJSON J depth) (g.toObj J (g.get o key))) (g.keys o) [] = some members) :
    (members.map Prod.fst).Nodup ∧ ∀ key x, (key, x) ∈ members ↔
      key ∈ g.keys o ∧ convert (g.toJSON J depth) (g.toObj J (g.get o key)) = some (some x) ∧ x.checked = true := by
  obtain ⟨hnodup, hmem⟩ := mem_objectLoop h List.nodup_nil
  exact ⟨hnodup, fun key x => by rw [hmem]; simp [Puts]⟩

theorem clean_of_image {depth : Nat} {c : Conversion ν} {json : Json} (h : g.toJSON J depth c = some json)
    (himage : Image g J (.object c.node) json) : Clean g J c := by
  induction depth generalizing c json with
  | zero => cases h
  | succ depth ih =>
    cases c with
    | array a =>
      obtain ⟨items, hloop, rfl⟩ := toJSON_array.mp h
      have himage : Image g J (.object a) (.array items) := himage
      cases himage with
      | array hkind hlength hnull hitem =>
        have hle := length_arrayLoop_le hloop
        have hbound := javaLength_lt (g.length a)
        have hlt : g.length a < 2 ^ 31 := by
          rw [← hlength]
          exact Nat.lt_of_le_of_lt hle hbound
        rw [javaLength_of_lt hlt] at hloop
        obtain ⟨_, hget⟩ := getElem?_arrayLoop hloop (ne_none_of_length hloop hlength)
        have hat : ∀ i < g.length a, ∃ x, items[i]? = some x ∧
            convert (g.toJSON J depth) (g.toObj J (g.element a i)) = some (some x) := by
          intro i hi
          have hx : items[i]? = some items[i] := List.getElem?_eq_getElem (by omega)
          exact ⟨items[i], hx, hx ▸ hget i hi⟩
        refine .array hlt (fun i hi himageless => ?_) fun i hi d hd => ?_
        · obtain ⟨x, hx, hconvert⟩ := hat i hi
          have hxnull := hnull i x hx himageless
          rw [hxnull] at hconvert
          exact not_imageless_of_null (branch_of_convert hconvert) himageless
        · obtain ⟨x, hx, hconvert⟩ := hat i hi
          rw [convert_of_call hd] at hconvert
          obtain ⟨y, hy, heq⟩ := Option.map_eq_some_iff.mp hconvert
          have himage := hitem i x hx (not_imageless_of_call hd)
          rw [(call?_eq_some_iff.mp hd).1, ← Option.some.inj heq] at himage
          exact ih hy himage
    | object o =>
      obtain ⟨members, hloop, rfl⟩ := toJSON_object.mp h
      obtain ⟨_, hmem⟩ := mem_members hloop
      have himage : Image g J (.object o) (.object members) := himage
      cases himage with
      | object hkind hnodup hkeys hmember =>
        refine .object (fun key hkey low hlow => ?_) fun key hkey d hd => ?_
        · have hput : (key, Json.integer low) ∈ members := (hmem key _).mpr ⟨hkey, by rw [hlow]; rfl, rfl⟩
          have himage := hmember _ hput
          rw [hlow] at himage
          cases himage
        · obtain ⟨r, hr⟩ := objectLoop_eq_some_iff.mp ⟨members, hloop⟩ key hkey
          have hconvert := hr
          rw [convert_of_call hd] at hr
          obtain ⟨x, hx, rfl⟩ := Option.map_eq_some_iff.mp hr
          have himage := hmember _ ((hmem key x).mpr ⟨hkey, hconvert, checked_toJSON hx⟩)
          rw [(call?_eq_some_iff.mp hd).1] at himage
          exact ih hx himage

/-- A branch of a clean conversion puts the image of its value, or it has none and nothing is put under its key. -/
theorem image_of_branch {depth : Nat} {v : Val ν} {r : Option Json} (h : Branch g J (g.toJSON J depth) v r)
    (hbig : ∀ low, v ≠ .bigInt low)
    (hnested : ∀ d x, (g.toObj J v).call? = some d → g.toJSON J depth d = some x → Image g J v x) :
    (∃ x, r = some x ∧ x.checked = true ∧ Image g J v x) ∨
      Imageless g v ∧ ∀ x, r = some x → x.checked = false := by
  cases h with
  | nothing himageless _ => exact .inr ⟨himageless, fun x hx => (by cases hx)⟩
  | @leaf _ x himage hchecked => exact .inl ⟨x, rfl, hchecked, himage⟩
  | infinite himageless hinfinite =>
    refine .inr ⟨himageless, fun x hx => ?_⟩
    rw [← Option.some.inj hx]
    exact hinfinite
  | bigInt low => exact absurd rfl (hbig low)
  | @nested _ d x hcall hx => exact .inl ⟨x, rfl, checked_toJSON hx, hnested d x hcall hx⟩

theorem image_of_clean {depth : Nat} {c : Conversion ν} {json : Json} (h : g.toJSON J depth c = some json)
    (hfits : Fits g c) (hclean : Clean g J c) : Image g J (.object c.node) json := by
  induction depth generalizing c json with
  | zero => cases h
  | succ depth ih =>
    have hcalled : ∀ (v : Val ν) d x, (g.toObj J v).call? = some d → Clean g J d → g.toJSON J depth d = some x →
        Image g J v x := by
      intro v d x hd hcleand hx
      obtain ⟨rfl, hfitsd⟩ := call?_eq_some_iff.mp hd
      exact ih hx hfitsd hcleand
    cases hclean with
    | @array a hlt himage hnested =>
      obtain ⟨items, hloop, rfl⟩ := toJSON_array.mp h
      rw [javaLength_of_lt hlt] at hloop
      have hat : ∀ i < g.length a, ∀ r, convert (g.toJSON J depth) (g.toObj J (g.element a i)) = some r →
          ∃ x, r = some x ∧ Image g J (g.element a i) x := by
        intro i hi r hr
        have hbig : ∀ low, g.element a i ≠ .bigInt low := by
          intro low hlow
          have hnot := himage i hi
          rw [hlow] at hnot
          exact hnot trivial
        rcases image_of_branch (branch_of_convert hr) hbig
            (fun d x hd hx => hcalled _ d x hd (hnested i hi d hd) hx) with ⟨x, hrx, _, hx⟩ | ⟨himageless, _⟩
        · exact ⟨x, hrx, hx⟩
        · exact absurd himageless (himage i hi)
      obtain ⟨hlength, hget⟩ := getElem?_arrayLoop hloop fun i hi hnone => by
        obtain ⟨x, hx, _⟩ := hat i hi none hnone
        cases hx
      have hindex : ∀ (i : Nat) x, items[i]? = some x → i < g.length a := by
        intro i x hx
        rw [← hlength]
        exact (List.getElem?_eq_some_iff.mp hx).1
      refine .array hfits hlength (fun i x hx himageless => ?_) fun i x hx _ => ?_
      · exact absurd himageless (himage i (hindex i x hx))
      · obtain ⟨y, hy, himg⟩ := hat i (hindex i x hx) _ (hget i (hindex i x hx))
        rw [hx] at hy
        rw [Option.some.inj hy]
        exact himg
    | @object o hbig hnested =>
      obtain ⟨members, hloop, rfl⟩ := toJSON_object.mp h
      obtain ⟨hnodup, hmem⟩ := mem_members hloop
      have hat : ∀ key ∈ g.keys o, ∀ r, convert (g.toJSON J depth) (g.toObj J (g.get o key)) = some r →
          (∃ x, r = some x ∧ x.checked = true ∧ Image g J (g.get o key) x) ∨
            Imageless g (g.get o key) ∧ ∀ x, r = some x → x.checked = false := by
        intro key hkey r hr
        exact image_of_branch (branch_of_convert hr) (hbig key hkey)
          fun d x hd hx => hcalled _ d x hd (hnested key hkey d hd) hx
      have himg : ∀ key x, (key, x) ∈ members → key ∈ g.keys o ∧ Image g J (g.get o key) x := by
        intro key x hx
        obtain ⟨hkey, hconvert, hchecked⟩ := (hmem key x).mp hx
        rcases hat key hkey _ hconvert with ⟨y, hy, _, himage⟩ | ⟨_, hunchecked⟩
        · rw [Option.some.inj hy]
          exact ⟨hkey, himage⟩
        · rw [hunchecked x rfl] at hchecked
          cases hchecked
      refine .object hfits hnodup (fun key => ⟨fun hkey => ?_, fun ⟨hkey, himage⟩ => ?_⟩) fun m hm => (himg m.1 m.2 hm).2
      · obtain ⟨m, hm, rfl⟩ := List.mem_map.mp hkey
        obtain ⟨hkey, himage⟩ := himg m.1 m.2 hm
        exact ⟨hkey, not_imageless_of_image himage⟩
      · obtain ⟨r, hr⟩ := objectLoop_eq_some_iff.mp ⟨members, hloop⟩ key hkey
        rcases hat key hkey r hr with ⟨x, rfl, hchecked, _⟩ | ⟨himageless, _⟩
        · exact List.mem_map.mpr ⟨(key, x), (hmem key x).mpr ⟨hkey, hr, hchecked⟩, rfl⟩
        · exact absurd himageless himage

theorem acc_of_clean {c : Conversion ν} (h : Clean g J c) : Acc (Edge g J) c := by
  induction h with
  | @array a hlt _ _ ih =>
    refine ⟨_, fun d hd => ?_⟩
    obtain ⟨i, hi, hcall⟩ := edge_array.mp hd
    rw [javaLength_of_lt hlt] at hi
    exact ih i hi d hcall
  | @object o _ _ ih =>
    refine ⟨_, fun d hd => ?_⟩
    obtain ⟨key, hkey, hcall⟩ := edge_object.mp hd
    exact ih key hkey d hcall

/-- **Export.** A conversion gives the image iff what it starts from is clean. -/
theorem image_iff_clean {c : Conversion ν} (hfits : Fits g c) : Exports g J c ↔ Clean g J c := by
  constructor
  · rintro ⟨depth, json, h, himage⟩
    exact clean_of_image h himage
  · intro hclean
    obtain ⟨depth, json, h⟩ := ends_iff_acc.mpr (acc_of_clean hclean)
    exact ⟨depth, json, h, image_of_clean h hfits hclean⟩

/-! ## Both directions -/

/-- **Positions.** A JSON array becomes the JS array with the image of each element at its index iff it is
storable, and a JS array the JSON array with these images iff it is clean. -/
theorem positions_iff (R : Realm) (items : List Json) (g : Graph ν) (J : Jni) {a : ν} (hkind : g.kind a = .array) :
    (Positions R items ↔ Storable R (.array items)) ∧ (Exports g J (.array a) ↔ Clean g J (.array a)) := by
  refine ⟨?_, image_iff_clean hkind⟩
  rw [← represents_iff_storable, toVal_array]
  constructor
  · rintro ⟨hlength, hitem⟩
    exact ⟨_, rfl, .array hlength hitem⟩
  · rintro ⟨v, hv, hrep⟩
    rw [← Option.some.inj hv] at hrep
    cases hrep with
    | array hlength hitem => exact ⟨hlength, hitem⟩

/-- Prototypes that leave everything to the object, but for `__proto__`. -/
def plainRealm : Realm where
  object name := if name = protoName then .protoAccessor else .free
  array name := if name = protoName then .protoAccessor else .free
  index _ := true

theorem positions_iff_sample :
    Positions plainRealm [.integer 1, .array [.boolean true]] ∧ Exports sharedGraph sampleJni (.array true) := by
  have hstorable : Storable plainRealm (.array [.integer 1, .array [.boolean true]]) := by
    refine .array (fun _ _ => rfl) fun x hx => ?_
    rcases List.mem_cons.mp hx with rfl | hx
    · exact .integer 1
    · rw [List.mem_singleton.mp hx]
      refine .array (fun _ _ => rfl) fun y hy => ?_
      rw [List.mem_singleton.mp hy]
      exact .boolean true
  have hclean : Clean sharedGraph sampleJni (.array true) := by
    refine .array (by decide) (fun i _ => ?_) fun i _ d hd => ?_
    · show ¬ Kind.object = Kind.function
      decide
    · have heq : d = .object false := (Option.some.inj hd).symm
      rw [heq]
      exact .object (fun key _ low hlow => by cases hlow) fun key _ d' hd' => by cases hd'
  have hboth := positions_iff plainRealm [.integer 1, .array [.boolean true]] sharedGraph sampleJni
    (show sharedGraph.kind true = .array from rfl)
  exact ⟨hboth.1.mpr hstorable, hboth.2.mpr hclean⟩

/-- The array `[undefined, 1]`. -/
def undefinedGraph : Graph Unit where
  kind := fun _ => .array
  length := fun _ => 2
  element := fun _ i => if i = 0 then .undefined else .int 1
  keys := fun _ => []
  get := fun _ _ => .undefined

/-- `[null, 1]` becomes an array of one element, and `[undefined, 1]` a JSON array that does not have 1 at index
1. -/
theorem not_positions_null :
    (¬ ∀ R items, Positions R items) ∧
      ¬ ∀ (ν : Type) (g : Graph ν) (J : Jni) (a : ν), g.kind a = .array → Exports g J (.array a) := by
  constructor
  · intro hall
    have hlength := (hall plainRealm [.null, .integer 1]).1
    simp [newJSArray, appendArray, toVal, push, plainRealm] at hlength
  · intro hall
    have hfits : Fits undefinedGraph (.array ()) := rfl
    have hclean := (image_iff_clean hfits).mp (hall Unit undefinedGraph sampleJni () rfl)
    cases hclean with
    | array _ himage _ => exact himage 0 Nat.zero_lt_two trivial

end QuickJSBridge.ArrayPositions
