import QuickJSBridge.Engine.Shapes
import QuickJSBridge.Lib.ChainIndex

/-!
# The hash index of a shape

* `IndexOk` — the lists that start in `prop_hash` have the properties of a shape, each in the list of its atom;
* `linkProperty_ok`, `relink_ok`, `Shape.remove_ok` — a property is entered, all are entered anew, one is removed;
* `Shape.findDelete_spec`, `Shape.find_spec` — the searches end, and find the property of an atom if there is one.
-/

namespace QuickJSBridge.Shapes

open ChainIndex

variable {prop rest : List ShapeProperty} {propHash : List Nat} {pr : ShapeProperty} {atom : Nat} {sh : Shape}

/-! ## The index -/

/-- The list of the property at `i`; a free entry is in none. -/
def bucketAt (size : Nat) (prop : List ShapeProperty) (i : Nat) : Option Nat :=
  prop[i]?.bind fun pr => if pr.atom = 0 then none else some (pr.atom &&& (size - 1))

def nextAt (prop : List ShapeProperty) (i : Nat) : Nat := (prop[i]?.map (·.hashNext)).getD 0

structure IndexOk (prop : List ShapeProperty) (propHash : List Nat) : Prop where
  pos : 0 < propHash.length
  indexed : Indexed (bucketAt propHash.length prop) propHash.length prop.length (fun h => propHash.getD h 0)
    (nextAt prop)

theorem bucketAt_of_get {size i : Nat} (hget : prop[i]? = some pr) (hatom : pr.atom ≠ 0) :
    bucketAt size prop i = some (pr.atom &&& (size - 1)) := by
  unfold bucketAt
  rw [hget]
  exact if_neg hatom

theorem bucketAt_free {size i : Nat} (hget : prop[i]? = some pr) (hatom : pr.atom = 0) :
    bucketAt size prop i = none := by
  unfold bucketAt
  rw [hget]
  exact if_pos hatom

theorem get_of_bucketAt {size i h : Nat} (hbucket : bucketAt size prop i = some h) :
    ∃ pr, prop[i]? = some pr ∧ pr.atom ≠ 0 ∧ pr.atom &&& (size - 1) = h := by
  obtain ⟨pr, hget, hpr⟩ := Option.bind_eq_some_iff.mp hbucket
  by_cases hatom : pr.atom = 0
  · rw [if_pos hatom] at hpr
    cases hpr
  · rw [if_neg hatom] at hpr
    exact ⟨pr, hget, hatom, Option.some.inj hpr⟩

theorem and_mask_lt {size : Nat} (hpos : 0 < size) (a : Nat) : a &&& (size - 1) < size := by
  have hle : a &&& (size - 1) ≤ size - 1 := Nat.and_le_right
  omega

theorem indexOk_replicate {size : Nat} (hpos : 0 < size) : IndexOk [] (List.replicate size 0) := by
  refine ⟨by rw [List.length_replicate]; exact hpos, ?_⟩
  have hzero : (fun h => (List.replicate size 0).getD h 0) = fun _ => 0 := by
    funext h
    rw [List.getD_eq_getElem?_getD, List.getElem?_replicate]
    split
    · rfl
    · rfl
  rw [hzero]
  exact indexed_zero _ _ _

/-! ## Entering properties -/

theorem getD_set_self {l : List Nat} {i x : Nat} (hi : i < l.length) : (l.set i x).getD i 0 = x := by
  rw [List.getD_eq_getElem?_getD, List.getElem?_set_self hi]
  rfl

theorem getD_set_ne {l : List Nat} {i j x : Nat} (hij : j ≠ i) : (l.set i x).getD j 0 = l.getD j 0 := by
  rw [List.getD_eq_getElem?_getD, List.getElem?_set_ne (Ne.symm hij), List.getD_eq_getElem?_getD]

theorem bucketAt_append {size i : Nat} (hi : i < prop.length) :
    bucketAt size (prop ++ rest) i = bucketAt size prop i := by
  unfold bucketAt
  rw [List.getElem?_append_left hi]

theorem nextAt_append {i : Nat} (hi : i < prop.length) : nextAt (prop ++ rest) i = nextAt prop i := by
  unfold nextAt
  rw [List.getElem?_append_left hi]

theorem linkProperty_ok (h : IndexOk prop propHash) (hatom : pr.atom ≠ 0) (hroom : prop.length < 2 ^ 26) :
    IndexOk (linkProperty prop propHash pr).1 (linkProperty prop propHash pr).2 := by
  have hmask := and_mask_lt h.pos pr.atom
  have hlast : ∀ e : ShapeProperty, (prop ++ [e])[prop.length]? = some e := fun e => List.getElem?_concat_length
  have hhead : propHash.getD (pr.atom &&& (propHash.length - 1)) 0 < 2 ^ 26 := by
    have hle := h.indexed.head _ hmask ▸ last_le (bucketAt propHash.length prop) _ prop.length
    omega
  unfold linkProperty
  refine ⟨by rw [List.length_set]; exact h.pos, ?_⟩
  rw [List.length_set, List.length_append]
  refine h.indexed.push (fun j hj => bucketAt_append hj) (bucketAt_of_get (hlast _) hatom) hmask
    (getD_set_self hmask) (fun k hk => getD_set_ne hk) ?_ fun j hj => nextAt_append hj
  unfold nextAt
  rw [hlast]
  exact Nat.mod_eq_of_lt hhead

/-- Names and flags. -/
def keys (prop : List ShapeProperty) : List (Nat × Nat) := prop.map fun pr => (pr.atom, pr.flags)

theorem keys_linkProperty : keys (linkProperty prop propHash pr).1 = keys prop ++ [(pr.atom, pr.flags)] := by
  unfold linkProperty keys
  rw [List.map_append]
  rfl

theorem length_linkProperty : (linkProperty prop propHash pr).1.length = prop.length + 1 := List.length_append

theorem skip_ok (h : IndexOk prop propHash) (hatom : pr.atom = 0) : IndexOk (prop ++ [pr]) propHash := by
  refine ⟨h.pos, ?_⟩
  rw [List.length_append]
  exact h.indexed.skip (fun j hj => bucketAt_append hj) (bucketAt_free List.getElem?_concat_length hatom)
    fun j hj => nextAt_append hj

/-- All properties are entered one after the other. -/
theorem relink_ok (h : IndexOk prop propHash) (hroom : prop.length + rest.length ≤ 2 ^ 26) :
    IndexOk (relink rest prop propHash).1 (relink rest prop propHash).2 ∧
      keys (relink rest prop propHash).1 = keys prop ++ keys rest := by
  induction rest generalizing prop propHash with
  | nil => exact ⟨h, (List.append_nil _).symm⟩
  | cons pr rest ih =>
    rw [List.length_cons] at hroom
    unfold relink
    by_cases hatom : pr.atom = 0
    · rw [if_pos hatom]
      obtain ⟨hok, hkeys⟩ := ih (skip_ok h hatom) (by rw [List.length_append, List.length_singleton]; omega)
      refine ⟨hok, hkeys.trans ?_⟩
      unfold keys
      rw [List.map_append, List.append_assoc]
      rfl
    · rw [if_neg hatom]
      obtain ⟨hok, hkeys⟩ := ih (linkProperty_ok h hatom (by omega)) (by rw [length_linkProperty]; omega)
      refine ⟨hok, hkeys.trans ?_⟩
      rw [keys_linkProperty, List.append_assoc]
      rfl

/-! ## Searching -/

/-- What leads to a place: the head of list `h`, or the property at `l`. -/
def Leads (prop : List ShapeProperty) (propHash : List Nat) (h : Nat) (lpr : Option Nat) (place : Nat) : Prop :=
  match lpr with
  | none => propHash.getD h 0 = place
  | some l => l < prop.length ∧ bucketAt propHash.length prop l = some h ∧ nextAt prop l = place

/-- What the search in list `h` tells about the first `m` properties. -/
def Searched (prop : List ShapeProperty) (propHash : List Nat) (atom h m : Nat) : Option (Option Nat × Nat) → Prop
  | none => ∀ i < m, ∀ pr, prop[i]? = some pr → bucketAt propHash.length prop i = some h → pr.atom ≠ atom
  | some (lpr, i) => i < m ∧ bucketAt propHash.length prop i = some h ∧ Leads prop propHash h lpr (i + 1) ∧
      ∃ pr, prop[i]? = some pr ∧ pr.atom = atom

theorem deleteLoop_spec (hok : IndexOk prop propHash) {h m fuel : Nat} {lpr : Option Nat} (hm : m ≤ prop.length)
    (hfuel : m < fuel) (hleads : Leads prop propHash h lpr (last (bucketAt propHash.length prop) h m)) :
    ∃ r, deleteLoop prop atom fuel (last (bucketAt propHash.length prop) h m) lpr = some r ∧
      Searched prop propHash atom h m r := by
  induction fuel generalizing m lpr with
  | zero => exact absurd hfuel (Nat.not_lt_zero m)
  | succ fuel ih =>
    cases hplace : last (bucketAt propHash.length prop) h m with
    | zero =>
      refine ⟨none, rfl, fun i hi pr _ hbucket => absurd hbucket (ne_of_last_le hi ?_)⟩
      rw [hplace]
      exact Nat.zero_le i
    | succ i =>
      obtain ⟨him, hbucket⟩ := bucket_of_last hplace
      obtain ⟨pr, hget, -, -⟩ := get_of_bucketAt hbucket
      unfold deleteLoop
      rw [hget]
      show ∃ r, (if pr.atom = atom then _ else _) = some r ∧ _
      by_cases hatom : pr.atom = atom
      · rw [if_pos hatom]
        rw [hplace] at hleads
        exact ⟨_, rfl, him, hbucket, hleads, pr, hget, hatom⟩
      · rw [if_neg hatom]
        have hnext : nextAt prop i = pr.hashNext := by
          unfold nextAt
          rw [hget]
          rfl
        have hlast : pr.hashNext = last (bucketAt propHash.length prop) h i := by
          rw [← hnext]
          exact hok.indexed.next i (by omega) h hbucket
        have hlead : Leads prop propHash h (some i) (last (bucketAt propHash.length prop) h i) :=
          ⟨by omega, hbucket, hnext.trans hlast⟩
        obtain ⟨r, hgo, hsearched⟩ := ih (m := i) (by omega) (by omega) hlead
        rw [hlast]
        refine ⟨r, hgo, ?_⟩
        cases r with
        | some found =>
          obtain ⟨hlt, hrest⟩ := hsearched
          exact ⟨by omega, hrest⟩
        | none =>
          intro j hj e hgete hbucketj
          by_cases hji : j = i
          · rw [hji, hget] at hgete
            cases hgete
            exact hatom
          · by_cases hlt : j < i
            · exact hsearched j hlt e hgete hbucketj
            · exact absurd hbucketj (ne_of_last_le hj (by rw [hplace]; omega))

theorem findLoop_eq (prop : List ShapeProperty) (atom : Nat) (fuel h : Nat) (lpr : Option Nat) :
    findLoop prop atom fuel h = (deleteLoop prop atom fuel h lpr).map fun r => r.map Prod.snd := by
  induction fuel generalizing h lpr with
  | zero => rfl
  | succ fuel ih =>
    cases h with
    | zero => rfl
    | succ h =>
      unfold findLoop deleteLoop
      cases hget : prop[h]? with
      | none => rfl
      | some pr =>
        show (if pr.atom = atom then _ else _) = Option.map _ (if pr.atom = atom then _ else _)
        split
        · rfl
        · exact ih pr.hashNext (some h)

namespace Shape

/-- The search of `delete_property` ends. -/
theorem findDelete_spec (hok : IndexOk sh.prop sh.propHash) (hatom : atom ≠ 0) :
    ∃ r, sh.findDelete atom = some r ∧
      match r with
      | none => ∀ pr ∈ sh.prop, pr.atom ≠ atom
      | some (lpr, i) => bucketAt sh.propHash.length sh.prop i = some (sh.bucket atom) ∧
          Leads sh.prop sh.propHash (sh.bucket atom) lpr (i + 1) ∧ ∃ pr, sh.prop[i]? = some pr ∧ pr.atom = atom := by
  have hmask : sh.bucket atom < sh.propHash.length := and_mask_lt hok.pos atom
  have hhead : sh.propHash.getD (sh.bucket atom) 0 =
      last (bucketAt sh.propHash.length sh.prop) (sh.bucket atom) sh.prop.length := hok.indexed.head _ hmask
  have hget : sh.propHash[sh.bucket atom]? = some (sh.propHash.getD (sh.bucket atom) 0) := by
    rw [List.getD_eq_getElem?_getD, List.getElem?_eq_getElem hmask]
    rfl
  have hleads : Leads sh.prop sh.propHash (sh.bucket atom) none
      (last (bucketAt sh.propHash.length sh.prop) (sh.bucket atom) sh.prop.length) := hhead
  have hloop : ∃ r, deleteLoop sh.prop atom (sh.prop.length + 1) _ none = some r ∧
      Searched sh.prop sh.propHash atom (sh.bucket atom) sh.prop.length r :=
    deleteLoop_spec hok (Nat.le_refl sh.prop.length) (Nat.lt_succ_self _) hleads
  obtain ⟨r, hgo, hsearched⟩ := hloop
  refine ⟨r, ?_, ?_⟩
  · unfold findDelete
    rw [hget, hhead]
    exact hgo
  · cases r with
    | none =>
      intro pr hpr heq
      obtain ⟨i, hi, hgeti⟩ := List.mem_iff_getElem.mp hpr
      have hgeti' : sh.prop[i]? = some pr := by
        rw [List.getElem?_eq_getElem hi, hgeti]
      refine hsearched i hi pr hgeti' ?_ heq
      rw [bucketAt_of_get hgeti' (heq ▸ hatom), heq]
      rfl
    | some found => exact hsearched.2

/-- `find_own_property` ends. -/
theorem find_spec (hok : IndexOk sh.prop sh.propHash) (hatom : atom ≠ 0) :
    ∃ r, sh.find atom = some r ∧
      match r with
      | none => ∀ pr ∈ sh.prop, pr.atom ≠ atom
      | some i => ∃ pr, sh.prop[i]? = some pr ∧ pr.atom = atom := by
  obtain ⟨r, hgo, hr⟩ := findDelete_spec hok hatom
  refine ⟨r.map Prod.snd, ?_, ?_⟩
  · have hfind : sh.find atom = (sh.findDelete atom).map fun r => r.map Prod.snd := by
      unfold find findDelete
      cases sh.propHash[sh.bucket atom]? with
      | none => rfl
      | some h => exact findLoop_eq sh.prop atom (sh.prop.length + 1) h none
    rw [hfind, hgo]
    rfl
  · cases r with
    | none => exact hr
    | some found => exact hr.2.2

end Shape

end QuickJSBridge.Shapes
