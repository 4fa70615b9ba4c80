import QuickJSBridge.Engine.PropertyLists
import QuickJSBridge.Engine.ShapeTables

/-!
# Changes of one shape

* `ShapeOk` — the index of a shape is right, names differ, and the counts and the flag of the shape are true;
* `ShapeOk.add`, `ShapeOk.resize`, `ShapeOk.remove`, `ShapeOk.compact`, `ShapeOk.setFlags` — each change keeps this,
  and what it does to names and flags.
-/

namespace QuickJSBridge.Shapes

open ChainIndex

variable {sh : Shape} {atom flags i : Nat} {pr : ShapeProperty}

structure ShapeOk (sh : Shape) : Prop where
  index : IndexOk sh.prop sh.propHash
  nodup : KeysNodup (keys sh.prop)
  size : sh.prop.length ≤ sh.propSize
  -- what `hash_next` can count
  limit : sh.prop.length ≤ 2 ^ 26
  deleted : sh.deletedPropCount = sh.prop.countP fun pr => pr.atom = 0
  -- what the comment at the declaration guarantees
  small : sh.hasSmallArrayIndex = false → ∀ pr ∈ sh.prop, pr.atom ≠ 0 → atomIsTaggedInt pr.atom = false

/-- At most about half of the entries are free. -/
def Roomy (sh : Shape) : Prop := sh.prop.length ≤ 2 * (sh.prop.length - sh.deletedPropCount) + 7

theorem length_keys (prop : List ShapeProperty) : (keys prop).length = prop.length := List.length_map _

theorem keys_get {prop : List ShapeProperty} : (keys prop)[i]? = prop[i]?.map fun pr => (pr.atom, pr.flags) :=
  List.getElem?_map

theorem keys_modify (prop : List ShapeProperty) (f : ShapeProperty → ShapeProperty) (g : Nat × Nat → Nat × Nat)
    (hfg : ∀ pr, ((f pr).atom, (f pr).flags) = g (pr.atom, pr.flags)) :
    keys (prop.modify i f) = (keys prop).modify i g := by
  unfold keys
  induction prop generalizing i with
  | nil => simp
  | cons pr prop ih =>
    cases i with
    | zero => exact congrArg (· :: _) (hfg pr)
    | succ i => exact congrArg (_ :: ·) ih

/-! ## Names -/

variable {ks : List (Nat × Nat)}

theorem KeysNodup.of_names {ks' : List (Nat × Nat)} (h : KeysNodup ks)
    (hnames : (ks'.map Prod.fst).filter (· ≠ 0) = (ks.map Prod.fst).filter (· ≠ 0)) : KeysNodup ks' := by
  unfold KeysNodup
  rw [hnames]
  exact h

theorem KeysNodup.push (h : KeysNodup ks) (hnew : ∀ k ∈ ks, k.1 ≠ atom) : KeysNodup (ks ++ [(atom, flags)]) := by
  unfold KeysNodup
  rw [List.map_append, List.filter_append]
  refine List.nodup_append.mpr ⟨h, List.Nodup.filter _ (List.nodup_singleton atom), fun a ha b hb heq => ?_⟩
  obtain ⟨k, hk, rfl⟩ := List.mem_map.mp (List.mem_filter.mp ha).1
  exact hnew k hk (heq.trans (List.mem_singleton.mp (List.mem_filter.mp hb).1))

theorem KeysNodup.remove (h : KeysNodup ks) (i : Nat) : KeysNodup (ks.modify i fun _ => (0, 0)) := by
  have hsub : (((ks.modify i fun _ => (0, 0)).map Prod.fst).filter (· ≠ 0)).Sublist
      ((ks.map Prod.fst).filter (· ≠ 0)) := by
    clear h
    induction ks generalizing i with
    | nil => simp
    | cons k ks ih =>
      cases i with
      | zero =>
        show ((0 :: ks.map Prod.fst).filter _).Sublist ((k.1 :: ks.map Prod.fst).filter _)
        rw [List.filter_cons_of_neg (by decide), List.filter_cons]
        split
        · exact List.sublist_cons_self _ _
        · exact List.Sublist.refl _
      | succ i =>
        show ((k.1 :: (ks.modify i fun _ => (0, 0)).map Prod.fst).filter _).Sublist ((k.1 :: ks.map Prod.fst).filter _)
        rw [List.filter_cons, List.filter_cons]
        split
        · exact (ih i).cons_cons _
        · exact ih i
  exact hsub.nodup h

theorem names_modify (ks : List (Nat × Nat)) (i f : Nat) :
    (ks.modify i fun k => (k.1, f)).map Prod.fst = ks.map Prod.fst := by
  induction ks generalizing i with
  | nil => simp
  | cons k ks ih =>
    cases i with
    | zero => rfl
    | succ i => exact congrArg (k.1 :: ·) (ih i)

theorem names_filter (ks : List (Nat × Nat)) :
    ((ks.filter fun k => k.1 ≠ 0).map Prod.fst).filter (· ≠ 0) = (ks.map Prod.fst).filter (· ≠ 0) := by
  induction ks with
  | nil => rfl
  | cons k ks ih =>
    by_cases hk : k.1 = 0
    · rw [List.filter_cons_of_neg (by simpa using hk), List.map_cons, List.filter_cons_of_neg (by simpa using hk)]
      exact ih
    · rw [List.filter_cons_of_pos (by simpa using hk), List.map_cons, List.map_cons,
        List.filter_cons_of_pos (by simpa using hk), List.filter_cons_of_pos (by simpa using hk), ih]

/-! ## Adding and resizing -/

/-- `add_shape_property`, where there is room. -/
theorem ShapeOk.add (h : ShapeOk sh) (hatom : atom ≠ 0) (hnew : ∀ pr ∈ sh.prop, pr.atom ≠ atom)
    (hflags : flags < 2 ^ 6) (hsize : sh.prop.length < sh.propSize) (hroom : sh.prop.length < 2 ^ 26) :
    ShapeOk (sh.add atom flags) ∧ keys (sh.add atom flags).prop = keys sh.prop ++ [(atom, flags)] := by
  have hmod : flags % 2 ^ 6 = flags := Nat.mod_eq_of_lt hflags
  have hkeys : keys (sh.add atom flags).prop = keys sh.prop ++ [(atom, flags)] := by
    show keys (linkProperty sh.prop sh.propHash ⟨0, flags % 2 ^ 6, atom⟩).1 = _
    rw [keys_linkProperty, hmod]
  refine ⟨⟨linkProperty_ok h.index hatom hroom, ?_, ?_, ?_, ?_, ?_⟩, hkeys⟩
  · rw [hkeys]
    refine h.nodup.push fun k hk => ?_
    obtain ⟨pr, hpr, rfl⟩ := List.mem_map.mp hk
    exact hnew pr hpr
  · show (linkProperty sh.prop sh.propHash _).1.length ≤ sh.propSize
    rw [length_linkProperty]
    omega
  · show (linkProperty sh.prop sh.propHash _).1.length ≤ 2 ^ 26
    rw [length_linkProperty]
    omega
  · show sh.deletedPropCount = List.countP _ (sh.prop ++ [_])
    rw [List.countP_append, ← h.deleted]
    show _ = _ + List.countP _ [(_ : ShapeProperty)]
    rw [List.countP_singleton, if_neg (by simpa using hatom), Nat.add_zero]
  · intro hsmall pr hpr hne
    obtain ⟨hold, htagged⟩ : sh.hasSmallArrayIndex = false ∧ atomIsTaggedInt atom = false :=
      Bool.or_eq_false_iff.mp hsmall
    rcases List.mem_append.mp hpr with hpr | hpr
    · exact h.small hold pr hpr hne
    · rw [List.mem_singleton.mp hpr]
      exact htagged

theorem Roomy.add (h : Roomy sh) (hle : sh.deletedPropCount ≤ sh.prop.length) : Roomy (sh.add atom flags) := by
  have hlength : (sh.add atom flags).prop.length = sh.prop.length + 1 := length_linkProperty
  unfold Roomy at h ⊢
  rw [hlength]
  show _ ≤ 2 * (_ - sh.deletedPropCount) + 7
  omega

theorem keys_eq_countP (prop : List ShapeProperty) :
    (prop.countP fun pr => pr.atom = 0) = (keys prop).countP fun k => k.1 = 0 := by
  unfold keys
  rw [List.countP_map]
  rfl

theorem mem_keys_of_mem {prop prop' : List ShapeProperty} (hkeys : keys prop' = keys prop) {pr : ShapeProperty}
    (hpr : pr ∈ prop') : ∃ pr' ∈ prop, pr'.atom = pr.atom := by
  have hmem : (pr.atom, pr.flags) ∈ keys prop := hkeys ▸ List.mem_map_of_mem hpr
  obtain ⟨pr', hpr', heq⟩ := List.mem_map.mp hmem
  exact ⟨pr', hpr', (Prod.mk.inj heq).1⟩

/-- Entries are linked anew, or there is more room: names and flags stay. -/
theorem ShapeOk.relinked {sh' : Shape} (h : ShapeOk sh) (hindex : IndexOk sh'.prop sh'.propHash)
    (hkeys : keys sh'.prop = keys sh.prop) (hsize : sh.prop.length ≤ sh'.propSize)
    (hdeleted : sh'.deletedPropCount = sh.deletedPropCount)
    (hsmall : sh'.hasSmallArrayIndex = sh.hasSmallArrayIndex) : ShapeOk sh' where
  index := hindex
  nodup := hkeys ▸ h.nodup
  size := by rw [← length_keys sh'.prop, hkeys, length_keys]; exact hsize
  limit := by rw [← length_keys sh'.prop, hkeys, length_keys]; exact h.limit
  deleted := by rw [hdeleted, h.deleted, keys_eq_countP, keys_eq_countP, hkeys]
  small := fun hs pr hpr hne => by
    obtain ⟨pr', hpr', hatom⟩ := mem_keys_of_mem hkeys hpr
    rw [hsmall] at hs
    rw [← hatom] at hne ⊢
    exact h.small hs pr' hpr' hne

theorem pos_growHashSize (newSize n : Nat) {hashSize : Nat} (h : 0 < hashSize) :
    0 < growHashSize newSize n hashSize := by
  induction n generalizing hashSize with
  | zero => exact h
  | succ n ih =>
    unfold growHashSize
    split
    · exact ih (by omega)
    · exact h

theorem ShapeOk.resize (h : ShapeOk sh) {count : Nat}
    (hcount : sh.prop.length ≤ count) :
    ShapeOk (sh.resize count) ∧ keys (sh.resize count).prop = keys sh.prop ∧ count ≤ (sh.resize count).propSize ∧
      (sh.resize count).deletedPropCount = sh.deletedPropCount := by
  have hlarge : count ≤ max count (sh.propSize * 3 / 2) := Nat.le_max_left _ _
  unfold Shape.resize
  simp only
  split
  · have hpos := pos_growHashSize (max count (sh.propSize * 3 / 2)) (max count (sh.propSize * 3 / 2)) h.index.pos
    have hlength : ([] : List ShapeProperty).length + sh.prop.length ≤ 2 ^ 26 := by
      rw [List.length_nil, Nat.zero_add]
      exact h.limit
    obtain ⟨hindex, hkeys⟩ := relink_ok (indexOk_replicate hpos) hlength
    exact ⟨h.relinked hindex hkeys (by show _ ≤ max count _; omega) rfl rfl, hkeys, hlarge, rfl⟩
  · exact ⟨h.relinked h.index rfl (by show _ ≤ max count _; omega) rfl rfl, rfl, hlarge, rfl⟩

/-! ## Removing -/

theorem bucketAt_modify {prop : List ShapeProperty} {size : Nat} (f : ShapeProperty → ShapeProperty)
    (hf : ∀ pr, (f pr).atom = pr.atom) (i j : Nat) : bucketAt size (prop.modify i f) j = bucketAt size prop j := by
  unfold bucketAt
  rw [List.getElem?_modify]
  cases prop[j]? with
  | none => rfl
  | some pr =>
    show (if (if i = j then f pr else pr).atom = 0 then none else some ((if i = j then f pr else pr).atom &&& _)) = _
    split
    · rw [hf]
      rfl
    · rfl

theorem bucketAt_modify_ne {prop : List ShapeProperty} {size j : Nat} {f : ShapeProperty → ShapeProperty}
    (hij : j ≠ i) : bucketAt size (prop.modify i f) j = bucketAt size prop j := by
  unfold bucketAt
  rw [List.getElem?_modify_ne _ _ (Ne.symm hij)]

theorem nextAt_modify {prop : List ShapeProperty} (f : ShapeProperty → ShapeProperty)
    (hf : ∀ pr, (f pr).hashNext = pr.hashNext) (i j : Nat) : nextAt (prop.modify i f) j = nextAt prop j := by
  unfold nextAt
  rw [List.getElem?_modify]
  cases prop[j]? with
  | none => rfl
  | some pr =>
    show (if i = j then f pr else pr).hashNext = pr.hashNext
    split
    · exact hf pr
    · rfl

theorem nextAt_modify_ne {prop : List ShapeProperty} {j : Nat} {f : ShapeProperty → ShapeProperty} (hij : j ≠ i) :
    nextAt (prop.modify i f) j = nextAt prop j := by
  unfold nextAt
  rw [List.getElem?_modify_ne _ _ (Ne.symm hij)]

theorem nextAt_of_get {prop : List ShapeProperty} (hget : prop[i]? = some pr) : nextAt prop i = pr.hashNext := by
  unfold nextAt
  rw [hget]
  rfl

/-- The entry as `delete_property` leaves it. -/
theorem nextAt_removed (prop : List ShapeProperty) (i j : Nat) :
    nextAt (prop.modify i fun pr => { pr with flags := 0, atom := 0 }) j = nextAt prop j :=
  nextAt_modify (fun pr => { pr with flags := 0, atom := 0 }) (fun _ => rfl) i j

theorem bucketAt_removed {prop : List ShapeProperty} {size : Nat} (hget : prop[i]? = some pr) :
    bucketAt size (prop.modify i fun pr => { pr with flags := 0, atom := 0 }) i = none := by
  have hfree : (prop.modify i fun pr => { pr with flags := 0, atom := 0 })[i]? = some { pr with flags := 0, atom := 0 } := by
    rw [List.getElem?_modify_eq, hget]
    rfl
  exact bucketAt_free hfree rfl

theorem remove_index (h : IndexOk sh.prop sh.propHash) {lpr : Option Nat} (hget : sh.prop[i]? = some pr)
    (hbucket : bucketAt sh.propHash.length sh.prop i = some (sh.bucket atom))
    (hleads : Leads sh.prop sh.propHash (sh.bucket atom) lpr (i + 1)) :
    IndexOk (sh.remove atom lpr i pr.hashNext).prop (sh.remove atom lpr i pr.hashNext).propHash := by
  have hi : i < sh.prop.length := (List.getElem?_eq_some_iff.mp hget).1
  have hmask : sh.bucket atom < sh.propHash.length := and_mask_lt h.pos atom
  have hnext := nextAt_of_get hget
  cases lpr with
  | none =>
    refine ⟨?_, ?_⟩
    · show 0 < (sh.propHash.set _ _).length
      rw [List.length_set]
      exact h.pos
    · show Indexed (bucketAt (sh.propHash.set _ _).length (sh.prop.modify i _)) (sh.propHash.set _ _).length
        (sh.prop.modify i _).length _ _
      rw [List.length_set, List.length_modify]
      refine h.indexed.erase_head hi hbucket hleads (bucketAt_removed hget) (fun j hj => bucketAt_modify_ne hj) ?_
        (fun k hk => getD_set_ne hk) fun j _ hj => nextAt_modify_ne hj
      rw [hnext]
      exact getD_set_self hmask
  | some l =>
    obtain ⟨hl, hbl, hlead⟩ := hleads
    obtain ⟨prl, hgetl, -, -⟩ := get_of_bucketAt hbl
    have hli : l ≠ i := by
      intro heq
      -- a link leads to an earlier entry
      have hnextl := h.indexed.next l hl _ hbl
      have hle := last_le (bucketAt sh.propHash.length sh.prop) (sh.bucket atom) l
      rw [hlead] at hnextl
      omega
    have hget' : (sh.prop.modify l fun p => { p with hashNext := pr.hashNext })[i]? = some pr := by
      rw [List.getElem?_modify_ne _ _ hli]
      exact hget
    have hsame : ∀ j, bucketAt sh.propHash.length (sh.prop.modify l fun p => { p with hashNext := pr.hashNext }) j =
        bucketAt sh.propHash.length sh.prop j := 
      fun j => bucketAt_modify (fun p => { p with hashNext := pr.hashNext }) (fun _ => rfl) l j
    refine ⟨h.pos, ?_⟩
    show Indexed (bucketAt sh.propHash.length ((sh.prop.modify l _).modify i _)) sh.propHash.length
      ((sh.prop.modify l _).modify i _).length _ _
    rw [List.length_modify, List.length_modify]
    refine h.indexed.erase_link hi hbucket hl hbl hlead (bucketAt_removed hget') (fun j hj => ?_) (fun _ => rfl) ?_
      fun j _ _ hjl => ?_
    · exact (bucketAt_modify_ne hj).trans (hsame j)
    · have hlinked : (sh.prop.modify l fun p => { p with hashNext := pr.hashNext })[l]? =
          some { prl with hashNext := pr.hashNext } := by
        rw [List.getElem?_modify_eq, hgetl]
        rfl
      have hlast : nextAt (sh.prop.modify l fun p => { p with hashNext := pr.hashNext }) l = pr.hashNext :=
        (nextAt_of_get hlinked).trans rfl
      exact (nextAt_removed _ i l).trans (hlast.trans hnext.symm)
    · exact (nextAt_removed _ i j).trans (nextAt_modify_ne hjl)

theorem keys_remove {lpr : Option Nat} {hashNext : Nat} :
    keys (sh.remove atom lpr i hashNext).prop = (keys sh.prop).modify i fun _ => (0, 0) := by
  cases lpr with
  | none => exact keys_modify sh.prop _ _ fun _ => rfl
  | some l =>
    have hlink : keys (sh.prop.modify l fun pr => { pr with hashNext := hashNext }) = keys sh.prop := by
      rw [keys_modify sh.prop (fun pr => { pr with hashNext := hashNext }) id fun _ => rfl, List.modify_id]
    show keys ((sh.prop.modify l _).modify i _) = _
    rw [keys_modify _ (fun pr => { pr with flags := 0, atom := 0 }) (fun _ => (0, 0)) fun _ => rfl, hlink]

theorem countP_remove {ks : List (Nat × Nat)} {k : Nat × Nat} (hget : ks[i]? = some k) (hk : k.1 ≠ 0) :
    ((ks.modify i fun _ => (0, 0)).countP fun k => k.1 = 0) = (ks.countP fun k => k.1 = 0) + 1 := by
  induction ks generalizing i with
  | nil => cases hget
  | cons k' ks ih =>
    cases i with
    | zero =>
      cases hget
      rw [List.modify_zero_cons, List.countP_cons_of_pos (by decide), List.countP_cons_of_neg (by simpa using hk)]
    | succ i =>
      rw [List.modify_succ_cons, List.countP_cons, List.countP_cons, ih hget]
      omega

/-- The removal in `delete_property`. -/
theorem ShapeOk.remove (h : ShapeOk sh) {lpr : Option Nat} (hget : sh.prop[i]? = some pr) (hne : pr.atom ≠ 0)
    (hbucket : bucketAt sh.propHash.length sh.prop i = some (sh.bucket atom))
    (hleads : Leads sh.prop sh.propHash (sh.bucket atom) lpr (i + 1)) :
    ShapeOk (sh.remove atom lpr i pr.hashNext) := by
  have hkeys : keys (sh.remove atom lpr i pr.hashNext).prop = (keys sh.prop).modify i fun _ => (0, 0) := keys_remove
  have hlength : (sh.remove atom lpr i pr.hashNext).prop.length = sh.prop.length := by
    rw [← length_keys, hkeys, List.length_modify, length_keys]
  have hsize : (sh.remove atom lpr i pr.hashNext).propSize = sh.propSize := by
    cases lpr with
    | none => rfl
    | some l => rfl
  have hdeleted : (sh.remove atom lpr i pr.hashNext).deletedPropCount = sh.deletedPropCount + 1 := by
    cases lpr with
    | none => rfl
    | some l => rfl
  have hflag : (sh.remove atom lpr i pr.hashNext).hasSmallArrayIndex = sh.hasSmallArrayIndex := by
    cases lpr with
    | none => rfl
    | some l => rfl
  refine ⟨remove_index h.index hget hbucket hleads, hkeys ▸ h.nodup.remove i, ?_, ?_, ?_, fun hsmall e he hatom => ?_⟩
  · rw [hlength, hsize]
    exact h.size
  · rw [hlength]
    exact h.limit
  · rw [hdeleted, h.deleted, keys_eq_countP, keys_eq_countP, hkeys,
      countP_remove (by rw [keys_get, hget]; rfl) hne]
  · rw [hflag] at hsmall
    have hmem : (e.atom, e.flags) ∈ (keys sh.prop).modify i fun _ => (0, 0) := hkeys ▸ List.mem_map_of_mem he
    obtain ⟨j, hj⟩ := List.mem_iff_getElem?.mp hmem
    rw [List.getElem?_modify] at hj
    obtain ⟨k, hk, hkj⟩ := Option.map_eq_some_iff.mp hj
    by_cases hij : i = j
    · rw [if_pos hij] at hkj
      exact absurd (congrArg Prod.fst hkj).symm hatom
    · rw [if_neg hij] at hkj
      obtain ⟨pr', hpr', heq⟩ := List.mem_map.mp (List.mem_of_getElem? hk)
      have hname : pr'.atom = e.atom := congrArg Prod.fst (heq.trans hkj)
      rw [← hname] at hatom ⊢
      exact h.small hsmall pr' hpr' hatom

/-! ## Compacting and flags -/

theorem pos_shrinkHashSize {newSize : Nat} (hpos : 0 < newSize) (n : Nat) {hashSize : Nat} (h : 0 < hashSize) :
    0 < shrinkHashSize newSize n hashSize := by
  induction n generalizing hashSize with
  | zero => exact h
  | succ n ih =>
    unfold shrinkHashSize
    split
    · exact ih (by omega)
    · exact h

theorem keys_filter (prop : List ShapeProperty) :
    keys (prop.filter fun pr => pr.atom ≠ 0) = (keys prop).filter fun k => k.1 ≠ 0 := by
  unfold keys
  rw [List.filter_map]
  rfl

/-- `compact_properties` -/
theorem ShapeOk.compact (h : ShapeOk sh) :
    ShapeOk sh.compact ∧ keys sh.compact.prop = (keys sh.prop).filter (fun k => k.1 ≠ 0) ∧ Roomy sh.compact ∧
      sh.compact.prop.length = sh.prop.length - sh.deletedPropCount := by
  have hpos := pos_shrinkHashSize (show 0 < max 2 (sh.prop.length - sh.deletedPropCount) by omega)
    sh.propHash.length h.index.pos
  have hlength : ([] : List ShapeProperty).length + (sh.prop.filter fun pr => pr.atom ≠ 0).length ≤ 2 ^ 26 := by
    have hle := List.length_filter_le (fun pr : ShapeProperty => decide (pr.atom ≠ 0)) sh.prop
    rw [List.length_nil, Nat.zero_add]
    exact Nat.le_trans hle h.limit
  obtain ⟨hindex, hlinked⟩ := relink_ok (indexOk_replicate hpos) hlength
  have hkeys : keys sh.compact.prop = (keys sh.prop).filter fun k => k.1 ≠ 0 := by
    rw [← keys_filter]
    exact hlinked
  have hcount : sh.compact.prop.length = sh.prop.length - sh.deletedPropCount := by
    have hparts := List.length_eq_countP_add_countP (fun pr : ShapeProperty => decide (pr.atom = 0)) (l := sh.prop)
    rw [← length_keys, hkeys, ← keys_filter, length_keys, h.deleted, ← List.countP_eq_length_filter]
    have hnot : (sh.prop.countP fun pr => decide (pr.atom ≠ 0)) =
        sh.prop.countP fun pr => !decide (pr.atom = 0) := List.countP_congr fun pr _ => by simp
    have hsame : (sh.prop.countP fun pr => !decide (pr.atom = 0)) =
        sh.prop.countP fun pr => decide ¬ (decide (pr.atom = 0) = true) := List.countP_congr fun pr _ => by simp
    rw [hnot, hsame]
    omega
  have hlive : ∀ pr ∈ sh.compact.prop, pr.atom ≠ 0 ∧ ∃ pr' ∈ sh.prop, pr'.atom = pr.atom := by
    intro pr hpr
    have hmem : (pr.atom, pr.flags) ∈ (keys sh.prop).filter fun k => k.1 ≠ 0 := hkeys ▸ List.mem_map_of_mem hpr
    obtain ⟨hmem, hne⟩ := List.mem_filter.mp hmem
    obtain ⟨pr', hpr', heq⟩ := List.mem_map.mp hmem
    exact ⟨by simpa using hne, pr', hpr', congrArg Prod.fst heq⟩
  refine ⟨⟨hindex, ?_, ?_, ?_, ?_, fun hsmall pr hpr hne => ?_⟩, hkeys, ?_, hcount⟩
  · rw [hkeys]
    exact h.nodup.of_names (names_filter _)
  · rw [hcount]
    exact Nat.le_max_right _ _
  · rw [hcount]
    exact Nat.le_trans (Nat.sub_le _ _) h.limit
  · symm
    exact List.countP_eq_zero.mpr fun pr hpr => by simpa using (hlive pr hpr).1
  · obtain ⟨-, pr', hpr', hatom⟩ := hlive pr hpr
    rw [← hatom] at hne ⊢
    exact h.small hsmall pr' hpr' hne
  · show sh.compact.prop.length ≤ 2 * (sh.compact.prop.length - 0) + 7
    omega

/-- Flags of one property are written. -/
theorem ShapeOk.setFlags (h : ShapeOk sh) (hflags : flags < 2 ^ 6) :
    ShapeOk (sh.setFlags i flags) ∧ keys (sh.setFlags i flags).prop = (keys sh.prop).modify i fun k => (k.1, flags) := by
  have hmod : flags % 2 ^ 6 = flags := Nat.mod_eq_of_lt hflags
  have hkeys : keys (sh.setFlags i flags).prop = (keys sh.prop).modify i fun k => (k.1, flags) :=
    keys_modify sh.prop _ _ fun pr => by rw [hmod]
  have hnames : (keys (sh.setFlags i flags).prop).map Prod.fst = (keys sh.prop).map Prod.fst := by
    rw [hkeys, names_modify]
  have hatoms : (sh.setFlags i flags).prop.map (·.atom) = sh.prop.map (·.atom) := by
    unfold keys at hnames
    rw [List.map_map, List.map_map] at hnames
    exact hnames
  have hlength : (sh.setFlags i flags).prop.length = sh.prop.length := List.length_modify _ _ _
  refine ⟨⟨⟨h.index.pos, ?_⟩, h.nodup.of_names (by rw [hnames]), ?_, ?_, ?_, fun hsmall pr hpr hne => ?_⟩, hkeys⟩
  · have hbucket : bucketAt sh.propHash.length (sh.setFlags i flags).prop = bucketAt sh.propHash.length sh.prop :=
      funext fun j => bucketAt_modify (fun pr => { pr with flags := flags % 2 ^ 6 }) (fun _ => rfl) i j
    have hnext : nextAt (sh.setFlags i flags).prop = nextAt sh.prop :=
      funext fun j => nextAt_modify (fun pr => { pr with flags := flags % 2 ^ 6 }) (fun _ => rfl) i j
    show Indexed (bucketAt sh.propHash.length (sh.setFlags i flags).prop) sh.propHash.length
      (sh.setFlags i flags).prop.length _ (nextAt (sh.setFlags i flags).prop)
    rw [hbucket, hnext, hlength]
    exact h.index.indexed
  · rw [hlength]
    exact h.size
  · rw [hlength]
    exact h.limit
  · have hcount : ∀ l : List ShapeProperty, (l.countP fun pr => pr.atom = 0) = (l.map (·.atom)).countP fun a => a = 0 := by
      intro l
      rw [List.countP_map]
      rfl
    show sh.deletedPropCount = _
    rw [h.deleted, hcount, hcount, hatoms]
  · have hmem : pr.atom ∈ sh.prop.map (·.atom) := hatoms ▸ List.mem_map_of_mem hpr
    obtain ⟨pr', hpr', hatom⟩ := List.mem_map.mp hmem
    rw [← hatom] at hne ⊢
    exact h.small hsmall pr' hpr' hne

end QuickJSBridge.Shapes
