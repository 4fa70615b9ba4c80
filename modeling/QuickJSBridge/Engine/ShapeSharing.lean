import QuickJSBridge.Engine.ShapeHash
import QuickJSBridge.Engine.ShapeUpdates

/-!
# Shared shapes

References to shapes are held by objects, and by each context for its arrays.

* `ShapesOk` — every shape is right, its count is the number of references to it, the shapes that there are are
  those that references lead to, and the table has the ones that can be shared;
* `Keeps` — the shapes of a list of references are as before, for those who hold them;
* `dupShape_spec`, `freeShape_spec`, `cloneShape_spec`, `hashClone_spec`, `newShape_spec`,
  `addShapeProperty_spec`, `prepareUpdate_spec` — each operation keeps `ShapesOk` for its references, and `Keeps`
  the shapes that other references lead to.
-/

namespace QuickJSBridge.Shapes

variable {V : Type} {rt rt' : Runtime V} {refs refs' : List Nat} {id : Nat} {sh sh' : Shape} {S : Nat → Prop}

/-! ## The invariant -/

/-- The shapes that can be shared. -/
def Hashed (shapes : Nat → Option Shape) (id : Nat) : Prop := ∃ sh, shapes id = some sh ∧ sh.isHashed = true

structure EntryOk (refs : List Nat) (id : Nat) (sh : Shape) : Prop where
  ok : ShapeOk sh
  roomy : Roomy sh
  count : sh.refCount = refs.count id
  unshared : sh.isHashed = false → sh.refCount = 1

structure ShapesOk (refs : List Nat) (rt : Runtime V) : Prop where
  entry : ∀ id sh, rt.shapes id = some sh → EntryOk refs id sh
  alive : ∀ id, (∃ sh, rt.shapes id = some sh) ↔ id ∈ refs
  table : TableOk rt.shapes rt.shapeHash rt.shapeHashBits (Hashed rt.shapes)
  fresh : ∀ id, rt.nextShape ≤ id → rt.shapes id = none

theorem ShapesOk.perm (h : ShapesOk refs rt) (hperm : refs.Perm refs') : ShapesOk refs' rt where
  entry := fun id sh hsh =>
    let e := h.entry id sh hsh
    ⟨e.ok, e.roomy, e.count.trans (hperm.count_eq id), e.unshared⟩
  alive := fun id => (h.alive id).trans hperm.mem_iff
  table := h.table
  fresh := h.fresh

/-- Objects do not matter here. -/
theorem ShapesOk.withObjects (h : ShapesOk refs rt) (hshapes : rt'.shapes = rt.shapes) (htable : rt'.shapeHash = rt.shapeHash)
    (hbits : rt'.shapeHashBits = rt.shapeHashBits) (hnext : rt'.nextShape = rt.nextShape) : ShapesOk refs rt' where
  entry := by rw [hshapes]; exact h.entry
  alive := by rw [hshapes]; exact h.alive
  table := by rw [hshapes, htable, hbits]; exact h.table
  fresh := by rw [hshapes, hnext]; exact h.fresh

theorem ShapesOk.setObj (h : ShapesOk refs rt) (p : Nat) (o : Obj V) : ShapesOk refs (rt.setObj p o) :=
  h.withObjects rfl rfl rfl rfl

theorem shapesOk_init : ShapesOk [] (Runtime.init : Runtime V) where
  entry := fun _ _ hsh => by cases hsh
  alive := fun _ => iff_of_false (fun ⟨_, hsh⟩ => by cases hsh) List.not_mem_nil
  table := (tableOk_empty _ 4).congr (fun _ => iff_of_false (fun ⟨_, hsh, _⟩ => by cases hsh) fun hf => hf) fun _ _ => rfl
  fresh := fun _ _ => rfl

theorem ShapesOk.get (h : ShapesOk refs rt) (hid : id ∈ refs) : ∃ sh, rt.shapes id = some sh := (h.alive id).mpr hid

/-- One shape, or the place of one, is written. -/
theorem ShapesOk.update (h : ShapesOk refs rt) {s : Option Shape} (hshapes : rt'.shapes = Function.update rt.shapes id s)
    (hcount : ∀ x, x ≠ id → refs'.count x = refs.count x) (hentry : ∀ sh, s = some sh → EntryOk refs' id sh)
    (halive : (∃ sh, s = some sh) ↔ id ∈ refs')
    (htable : TableOk rt'.shapes rt'.shapeHash rt'.shapeHashBits (Hashed rt'.shapes))
    (hnext : rt.nextShape ≤ rt'.nextShape) (hid : id < rt'.nextShape) : ShapesOk refs' rt' where
  entry := by
    intro x sh hsh
    rw [hshapes] at hsh
    by_cases hx : x = id
    · rw [hx, Function.update_self] at hsh
      rw [hx]
      exact hentry sh hsh
    · rw [Function.update_of_ne hx] at hsh
      have e := h.entry x sh hsh
      exact ⟨e.ok, e.roomy, e.count.trans (hcount x hx).symm, e.unshared⟩
  alive := by
    intro x
    rw [hshapes]
    by_cases hx : x = id
    · rw [hx, Function.update_self]
      exact halive
    · rw [Function.update_of_ne hx, h.alive, ← List.count_pos_iff, ← List.count_pos_iff, hcount x hx]
  table := htable
  fresh := by
    intro x hx
    rw [hshapes, Function.update_of_ne (by omega)]
    exact h.fresh x (Nat.le_trans hnext hx)

theorem ShapesOk.lt_next (h : ShapesOk refs rt) (hsh : rt.shapes id = some sh) : id < rt.nextShape := by
  by_cases hlt : id < rt.nextShape
  · exact hlt
  · rw [h.fresh id (Nat.le_of_not_lt hlt)] at hsh
    cases hsh

/-! ## What other users see -/

/-- A shape as it is to those who hold it. -/
def body (s : Option Shape) : Option (List ShapeProperty × Nat × Option Nat × Bool) :=
  s.map fun sh => (sh.prop, sh.propSize, sh.proto, sh.isHashed)

def Keeps (refs : List Nat) (rt rt' : Runtime V) : Prop := ∀ id ∈ refs, body (rt'.shapes id) = body (rt.shapes id)

theorem Keeps.refl (refs : List Nat) (rt : Runtime V) : Keeps refs rt rt := fun _ _ => rfl

theorem Keeps.trans {rt₁ rt₂ rt₃ : Runtime V} (h : Keeps refs rt₁ rt₂) (h' : Keeps refs rt₂ rt₃) : Keeps refs rt₁ rt₃ :=
  fun id hid => (h' id hid).trans (h id hid)

theorem Keeps.mono (h : Keeps refs rt rt') (hsub : refs' ⊆ refs) : Keeps refs' rt rt' := fun id hid => h id (hsub hid)

theorem body_of_get (h : body (rt'.shapes id) = body (rt.shapes id)) (hsh : rt.shapes id = some sh) :
    ∃ sh', rt'.shapes id = some sh' ∧ sh'.prop = sh.prop ∧ sh'.propSize = sh.propSize ∧ sh'.proto = sh.proto ∧
      sh'.isHashed = sh.isHashed := by
  rw [hsh] at h
  obtain ⟨sh', hsh', heq⟩ := Option.map_eq_some_iff.mp h
  simp only [Prod.mk.injEq] at heq
  exact ⟨sh', hsh', heq⟩

/-- A shape that no reference of the list leads to is written. -/
theorem keeps_update_of_not_mem {s : Option Shape} (hid : id ∉ refs)
    (hshapes : rt'.shapes = Function.update rt.shapes id s) : Keeps refs rt rt' := by
  intro x hx
  have hne : x ≠ id := fun heq => hid (heq ▸ hx)
  rw [hshapes, Function.update_of_ne hne]

/-- Only the count of a shape is written. -/
theorem keeps_update_of_body {s : Option Shape} (hbody : body s = body (rt.shapes id))
    (hshapes : rt'.shapes = Function.update rt.shapes id s) : Keeps refs rt rt' := by
  intro x _
  rw [hshapes]
  by_cases hx : x = id
  · rw [hx, Function.update_self, hbody]
  · rw [Function.update_of_ne hx]

/-! ## Entering and leaving the table -/

theorem hashLink_spec (rt : Runtime V) (h : TableOk rt.shapes rt.shapeHash rt.shapeHashBits S) (hid : ¬ S id) (hsh : rt.shapes id = some sh) :
    ∃ table n, rt.hashLink id = some { rt with shapeHash := table, shapeHashCount := n } ∧
      TableOk rt.shapes table rt.shapeHashBits fun x => x = id ∨ S x := by
  obtain ⟨chain, hchain⟩ := h.chain sh.hash
  refine ⟨_, rt.shapeHashCount + 1, ?_, h.link hid hsh hchain⟩
  simp [Runtime.hashLink, hsh, hchain]

theorem hashUnlink_spec (rt : Runtime V) (h : TableOk rt.shapes rt.shapeHash rt.shapeHashBits S) (hid : S id) (hsh : rt.shapes id = some sh) :
    ∃ table n, rt.hashUnlink id = some { rt with shapeHash := table, shapeHashCount := n } ∧
      TableOk rt.shapes table rt.shapeHashBits fun x => S x ∧ x ≠ id := by
  obtain ⟨chain, hchain⟩ := h.chain sh.hash
  obtain ⟨hmem, hok⟩ := h.unlink hid hsh hchain
  refine ⟨_, rt.shapeHashCount - 1, ?_, hok⟩
  simp [Runtime.hashUnlink, hsh, hchain, hmem]

/-- The shapes in the table, when one shape is written. -/
theorem hashed_update (shapes : Nat → Option Shape) (id : Nat) (s : Option Shape) (x : Nat) :
    Hashed (Function.update shapes id s) x ↔
      (x = id ∧ ∃ sh, s = some sh ∧ sh.isHashed = true) ∨ (x ≠ id ∧ Hashed shapes x) := by
  unfold Hashed
  by_cases hx : x = id
  · rw [hx, Function.update_self]
    simp
  · rw [Function.update_of_ne hx]
    simp [hx]

/-- A shape that is in the table stays there, with its hash; one that is not stays out. -/
theorem TableOk.same {shapes : Nat → Option Shape} {table : List (List Nat)} {bits : Nat}
    (h : TableOk shapes table bits (Hashed shapes)) (hsh : shapes id = some sh) (hhashed : sh'.isHashed = sh.isHashed)
    (hhash : sh'.hash = sh.hash) :
    TableOk (Function.update shapes id (some sh')) table bits (Hashed (Function.update shapes id (some sh'))) := by
  refine h.congr (fun x => ?_) fun x _ => ?_
  · rw [hashed_update]
    by_cases hx : x = id
    · rw [hx]
      unfold Hashed
      simp [hsh, hhashed]
    · simp [hx]
  · by_cases hx : x = id
    · rw [hx, Function.update_self, hsh, Option.map_some, Option.map_some, hhash]
    · rw [Function.update_of_ne hx]

theorem hashed_iff_ne {shapes : Nat → Option Shape} (hid : ¬ Hashed shapes id) (x : Nat) :
    Hashed shapes x ↔ Hashed shapes x ∧ x ≠ id :=
  ⟨fun hx => ⟨hx, fun heq => hid (heq ▸ hx)⟩, fun hx => hx.1⟩

theorem not_hashed_of_get {shapes : Nat → Option Shape} (hsh : shapes id = some sh) (hflag : sh.isHashed = false) :
    ¬ Hashed shapes id := by
  intro ⟨sh', hsh', hflag'⟩
  rw [hsh] at hsh'
  rw [← Option.some.inj hsh', hflag] at hflag'
  cases hflag'

/-- A shape that has left the table, or was never in it. -/
theorem TableOk.out {shapes : Nat → Option Shape} {table : List (List Nat)} {bits : Nat} {s : Option Shape}
    (h : TableOk shapes table bits S) (hS : ∀ x, S x ↔ Hashed shapes x ∧ x ≠ id)
    (hs : ∀ sh, s = some sh → sh.isHashed = false) :
    TableOk (Function.update shapes id s) table bits (Hashed (Function.update shapes id s)) := by
  refine h.congr (fun x => ?_) fun x hx => ?_
  · rw [hashed_update, hS]
    refine ⟨fun hx => hx.elim (fun ⟨_, sh, hsh, hhashed⟩ => ?_) fun hx => ⟨hx.2, hx.1⟩, fun hx => .inr ⟨hx.2, hx.1⟩⟩
    rw [hs sh hsh] at hhashed
    cases hhashed
  · rw [Function.update_of_ne ((hS x).mp hx).2]

/-- A shape is entered, as it is to be in the end. -/
theorem TableOk.into {shapes : Nat → Option Shape} {table : List (List Nat)} {bits : Nat}
    (h : TableOk (Function.update shapes id (some sh)) table bits fun x => x = id ∨ (Hashed shapes x ∧ x ≠ id))
    (hhashed : sh'.isHashed = true) (hhash : sh'.hash = sh.hash) :
    TableOk (Function.update shapes id (some sh')) table bits (Hashed (Function.update shapes id (some sh'))) := by
  refine h.congr (fun x => ?_) fun x _ => ?_
  · rw [hashed_update]
    by_cases hx : x = id
    · simp [hx, hhashed]
    · simp [hx]
  · by_cases hx : x = id
    · rw [hx, Function.update_self, Function.update_self, Option.map_some, Option.map_some, hhash]
    · rw [Function.update_of_ne hx, Function.update_of_ne hx]

/-! ## Counting references -/

/-- An operation on shapes: the references after it, and the ones whose shapes it keeps. -/
structure Shared (refs' refs : List Nat) (rt rt' : Runtime V) : Prop where
  ok : ShapesOk refs' rt'
  keeps : Keeps refs rt rt'
  objects : rt'.objects = rt.objects
  arrayShapes : rt'.arrayShapes = rt.arrayShapes

theorem Shared.trans {refs₁ refs₂ : List Nat} {rt₁ rt₂ rt₃ : Runtime V} (h : Shared refs₁ refs rt₁ rt₂)
    (h' : Shared refs₂ refs rt₂ rt₃) : Shared refs₂ refs rt₁ rt₃ :=
  ⟨h'.ok, h.keeps.trans h'.keeps, h'.objects.trans h.objects, h'.arrayShapes.trans h.arrayShapes⟩

theorem dupShape_spec (h : ShapesOk refs rt) (hhashed : Hashed rt.shapes id) :
    ∃ rt', rt.dupShape id = some rt' ∧ Shared (id :: refs) refs rt rt' ∧ rt'.objs = rt.objs := by
  obtain ⟨sh, hsh, hflag⟩ := hhashed
  have e := h.entry id sh hsh
  refine ⟨rt.setShape id (some { sh with refCount := sh.refCount + 1 }), ?_, ⟨?_, ?_, rfl, rfl⟩, rfl⟩
  · simp [Runtime.dupShape, hsh]
  · refine h.update rfl (fun x hx => List.count_cons_of_ne (Ne.symm hx)) ?_ ?_ (h.table.same hsh rfl rfl) (Nat.le_refl _)
      (h.lt_next hsh)
    · intro sh' heq
      rw [← Option.some.inj heq]
      refine ⟨e.ok.relinked e.ok.index rfl e.ok.size rfl rfl, e.roomy, ?_, fun hf => ?_⟩
      · rw [List.count_cons_self, ← e.count]
      · rw [hflag] at hf
        cases hf
    · exact iff_of_true ⟨_, rfl⟩ List.mem_cons_self
  · exact keeps_update_of_body (hsh ▸ rfl) rfl

theorem freeShape_spec (h : ShapesOk (id :: refs) rt) :
    ∃ rt', rt.freeShape id = some rt' ∧ Shared refs refs rt rt' ∧ rt'.objs = rt.objs ∧
      ∀ x, x ≠ id → rt'.shapes x = rt.shapes x := by
  obtain ⟨sh, hsh⟩ := h.get List.mem_cons_self
  have e := h.entry id sh hsh
  have hcount : sh.refCount = refs.count id + 1 := e.count.trans List.count_cons_self
  have hothers : ∀ x, x ≠ id → refs.count x = (id :: refs).count x := fun x hx =>
    (List.count_cons_of_ne (Ne.symm hx)).symm
  by_cases hshared : 1 < sh.refCount
  · have hmem : id ∈ refs := List.count_pos_iff.mp (by omega)
    refine ⟨rt.setShape id (some { sh with refCount := sh.refCount - 1 }), ?_, ⟨?_, ?_, rfl, rfl⟩, rfl,
      fun x hx => Function.update_of_ne hx _ _⟩
    · simp [Runtime.freeShape, hsh, hshared]
    · refine h.update rfl hothers ?_ (iff_of_true ⟨_, rfl⟩ hmem) (h.table.same hsh rfl rfl) (Nat.le_refl _)
        (h.lt_next hsh)
      intro sh' heq
      rw [← Option.some.inj heq]
      refine ⟨e.ok.relinked e.ok.index rfl e.ok.size rfl rfl, e.roomy, ?_, fun hf => ?_⟩
      · show sh.refCount - 1 = _
        omega
      · have hone := e.unshared hf
        omega
    · exact keeps_update_of_body (hsh ▸ rfl) rfl
  · have hmem : id ∉ refs := fun hin => by
      have hpos := List.count_pos_iff.mpr hin
      omega
    have halive : (∃ sh, (none : Option Shape) = some sh) ↔ id ∈ refs := iff_of_false (fun ⟨_, hf⟩ => by cases hf) hmem
    have hnone : ∀ sh' : Shape, (none : Option Shape) = some sh' → sh'.isHashed = false := fun _ hf => by cases hf
    by_cases hflag : sh.isHashed = true
    · obtain ⟨table, n, hunlink, htable⟩ := hashUnlink_spec rt h.table ⟨sh, hsh, hflag⟩ hsh
      refine ⟨Runtime.setShape { rt with shapeHash := table, shapeHashCount := n } id none, ?_, ⟨?_, ?_, rfl, rfl⟩, rfl,
        fun x hx => Function.update_of_ne hx _ _⟩
      · simp [Runtime.freeShape, hsh, hshared, hflag, hunlink]
      · exact h.update rfl hothers (fun _ hf => by cases hf) halive (htable.out (fun _ => Iff.rfl) hnone) (Nat.le_refl _)
          (h.lt_next hsh)
      · exact keeps_update_of_not_mem hmem rfl
    · refine ⟨rt.setShape id none, ?_, ⟨?_, ?_, rfl, rfl⟩, rfl, fun x hx => Function.update_of_ne hx _ _⟩
      · simp [Runtime.freeShape, hsh, hshared, hflag]
      · exact h.update rfl hothers (fun _ hf => by cases hf) halive
          (h.table.out (hashed_iff_ne (not_hashed_of_get hsh (Bool.not_eq_true _ ▸ hflag))) hnone) (Nat.le_refl _)
          (h.lt_next hsh)
      · exact keeps_update_of_not_mem hmem rfl

/-! ## New shapes -/

theorem ShapesOk.next_not_mem (h : ShapesOk refs rt) : rt.nextShape ∉ refs := fun hmem => by
  obtain ⟨sh, hsh⟩ := h.get hmem
  exact absurd (h.lt_next hsh) (Nat.lt_irrefl _)

theorem ShapesOk.next_not_hashed (h : ShapesOk refs rt) : ¬ Hashed rt.shapes rt.nextShape := fun ⟨_, hsh, _⟩ =>
  absurd (h.lt_next hsh) (Nat.lt_irrefl _)

theorem cloneShape_spec (h : ShapesOk refs rt) (hsh : rt.shapes id = some sh) :
    ∃ rt', rt.cloneShape id = some (rt.nextShape, rt') ∧ Shared (rt.nextShape :: refs) refs rt rt' ∧ rt'.objs = rt.objs ∧
      rt'.shapes rt.nextShape = some { sh with refCount := 1, isHashed := false } := by
  have e := h.entry id sh hsh
  have hfresh := h.next_not_mem
  have hlt : rt.nextShape < rt.nextShape + 1 := Nat.lt_succ_self _
  have hclone : rt.cloneShape id = some (rt.nextShape, { rt with
      shapes := Function.update rt.shapes rt.nextShape (some { sh with refCount := 1, isHashed := false })
      nextShape := rt.nextShape + 1 }) := by
    simp [Runtime.cloneShape, hsh]
  refine ⟨_, hclone, ⟨?_, ?_, rfl, rfl⟩, rfl, Function.update_self _ _ _⟩
  · refine h.update rfl (fun x hx => List.count_cons_of_ne (Ne.symm hx)) ?_
      (iff_of_true ⟨_, rfl⟩ List.mem_cons_self) ?_ (Nat.le_of_lt hlt) hlt
    · intro sh' heq
      rw [← Option.some.inj heq]
      refine ⟨e.ok.relinked e.ok.index rfl e.ok.size rfl rfl, e.roomy, ?_, fun _ => rfl⟩
      rw [List.count_cons_self, List.count_eq_zero.mpr hfresh]
    · refine h.table.out (hashed_iff_ne h.next_not_hashed) fun sh' heq => ?_
      rw [← Option.some.inj heq]
  · exact keeps_update_of_not_mem hfresh rfl

/-- The clone that `add_property` enters in the table. -/
theorem hashClone_spec (h : ShapesOk (id :: refs) rt) (hid : id ∉ refs) (hsh : rt.shapes id = some sh)
    (hflag : sh.isHashed = false) :
    ∃ rt', (rt.setShape id (some { sh with isHashed := true })).hashLink id = some rt' ∧ Shared (id :: refs) refs rt rt' ∧
      rt'.objs = rt.objs ∧ rt'.shapes id = some { sh with isHashed := true } := by
  have e := h.entry id sh hsh
  have hout : ¬ Hashed rt.shapes id := not_hashed_of_get hsh hflag
  have htable : TableOk (rt.setShape id (some { sh with isHashed := true })).shapes rt.shapeHash rt.shapeHashBits
      (Hashed rt.shapes) := by
    refine h.table.congr (fun _ => Iff.rfl) fun x hx => ?_
    show (Function.update rt.shapes id _ x).map _ = _
    rw [Function.update_of_ne ((hashed_iff_ne hout x).mp hx).2]
  obtain ⟨table, n, hlink, hin⟩ := hashLink_spec (rt.setShape id (some { sh with isHashed := true })) htable hout
    (Function.update_self _ _ _)
  refine ⟨_, hlink, ⟨?_, ?_, rfl, rfl⟩, rfl, Function.update_self _ _ _⟩
  · refine h.update rfl (fun _ _ => rfl) ?_ (iff_of_true ⟨_, rfl⟩ List.mem_cons_self)
      ((hin.congr (fun x => ?_) fun _ _ => rfl).into rfl rfl) (Nat.le_refl _) (h.lt_next hsh)
    · intro sh' heq
      rw [← Option.some.inj heq]
      exact ⟨e.ok.relinked e.ok.index rfl e.ok.size rfl rfl, e.roomy, e.count, fun hf => by cases hf⟩
    · exact or_congr_right (hashed_iff_ne hout x).symm
  · exact keeps_update_of_not_mem hid rfl

theorem resizeShapeHash_spec (h : ShapesOk refs rt) (bits : Nat) :
    ∃ table, rt.resizeShapeHash bits = some { rt with shapeHash := table, shapeHashBits := bits } ∧
      TableOk rt.shapes table bits (Hashed rt.shapes) := by
  obtain ⟨table, hgo, hok⟩ := h.table.resize (fun id ⟨sh, hsh, _⟩ => ⟨sh, hsh⟩) bits
  exact ⟨table, by simp [Runtime.resizeShapeHash, hgo], hok⟩

theorem reserveShape_spec (h : ShapesOk refs rt) :
    ∃ table bits, rt.reserveShape = some { rt with shapeHash := table, shapeHashBits := bits } ∧
      TableOk rt.shapes table bits (Hashed rt.shapes) := by
  unfold Runtime.reserveShape
  split
  · obtain ⟨table, hgo, hok⟩ := resizeShapeHash_spec h (rt.shapeHashBits + 1)
    exact ⟨table, _, hgo, hok⟩
  · exact ⟨rt.shapeHash, rt.shapeHashBits, rfl, h.table⟩

/-- What `js_new_shape2` makes. -/
def emptyShape (proto : Option Nat) (hashSize propSize : Nat) : Shape :=
  ⟨1, true, false, shapeInitialHash proto, List.replicate hashSize 0, propSize, [], 0, proto⟩

theorem emptyShape_ok (proto : Option Nat) {hashSize : Nat} (hpos : 0 < hashSize) (propSize : Nat) :
    ShapeOk (emptyShape proto hashSize propSize) where
  index := indexOk_replicate hpos
  nodup := List.nodup_nil
  size := Nat.zero_le _
  limit := Nat.zero_le _
  deleted := rfl
  small := fun _ _ hpr => absurd hpr List.not_mem_nil

theorem newShape_spec (h : ShapesOk refs rt) (proto : Option Nat) {hashSize : Nat} (hpos : 0 < hashSize) (propSize : Nat) :
    ∃ rt', rt.newShape proto hashSize propSize = some (rt.nextShape, rt') ∧ Shared (rt.nextShape :: refs) refs rt rt' ∧
      rt'.objs = rt.objs ∧ rt'.shapes rt.nextShape = some (emptyShape proto hashSize propSize) := by
  have hfresh := h.next_not_mem
  have hout := h.next_not_hashed
  have hlt : rt.nextShape < rt.nextShape + 1 := Nat.lt_succ_self _
  obtain ⟨table, bits, hreserve, htable⟩ := reserveShape_spec h
  have hnew : TableOk (Function.update rt.shapes rt.nextShape (some (emptyShape proto hashSize propSize))) table bits
      (Hashed rt.shapes) := by
    refine htable.congr (fun _ => Iff.rfl) fun x hx => ?_
    rw [Function.update_of_ne ((hashed_iff_ne hout x).mp hx).2]
  let grown : Runtime V := { rt with
    shapes := Function.update rt.shapes rt.nextShape (some (emptyShape proto hashSize propSize))
    nextShape := rt.nextShape + 1, shapeHash := table, shapeHashBits := bits }
  obtain ⟨table', n, hlink, hin⟩ := hashLink_spec grown hnew hout (Function.update_self _ _ _)
  have hgo : rt.newShape proto hashSize propSize =
      some (rt.nextShape, { grown with shapeHash := table', shapeHashCount := n }) := by
    unfold Runtime.newShape
    rw [hreserve]
    exact congrArg (Option.bind · fun rt' => some (rt.nextShape, rt')) hlink
  refine ⟨_, hgo, ⟨?_, ?_, rfl, rfl⟩, rfl, Function.update_self _ _ _⟩
  · refine h.update rfl (fun x hx => List.count_cons_of_ne (Ne.symm hx)) ?_
      (iff_of_true ⟨_, rfl⟩ List.mem_cons_self) ((hin.congr (fun x => ?_) fun _ _ => rfl).into rfl rfl) (Nat.le_of_lt hlt) hlt
    · intro sh' heq
      rw [← Option.some.inj heq]
      refine ⟨emptyShape_ok proto hpos propSize, Nat.zero_le _, ?_, fun hf => by cases hf⟩
      rw [List.count_cons_self, List.count_eq_zero.mpr hfresh]
      rfl
    · exact or_congr_right (hashed_iff_ne hout x).symm
  · exact keeps_update_of_not_mem hfresh rfl

/-! ## Changing a shape that has one user -/

theorem ShapeOk.grow (h : ShapeOk sh) :
    ShapeOk sh.grow ∧ keys sh.grow.prop = keys sh.prop ∧ sh.prop.length < sh.grow.propSize ∧
      sh.grow.deletedPropCount = sh.deletedPropCount := by
  unfold Shape.grow
  split
  · exact h.resize (Nat.le_succ _)
  · exact ⟨h, rfl, by omega, rfl⟩

/-- What growing leaves as it is. -/
theorem grow_fields (sh : Shape) : sh.grow.refCount = sh.refCount ∧ sh.grow.isHashed = sh.isHashed ∧
    sh.grow.proto = sh.proto := by
  unfold Shape.grow Shape.resize
  simp only
  split
  · split
    · exact ⟨rfl, rfl, rfl⟩
    · exact ⟨rfl, rfl, rfl⟩
  · exact ⟨rfl, rfl, rfl⟩

/-- A property is entered in a shape that has room made for it, whatever the hash is then. -/
theorem EntryOk.grow_add {atom flags : Nat} (e : EntryOk refs id sh) (hatom : atom ≠ 0)
    (hnew : ∀ pr ∈ sh.prop, pr.atom ≠ atom) (hflags : flags < 2 ^ 6) (hroom : sh.prop.length < 2 ^ 26) (hash : UInt32) :
    EntryOk refs id (Shape.add { sh.grow with hash := hash } atom flags) ∧
      keys (Shape.add { sh.grow with hash := hash } atom flags).prop = keys sh.prop ++ [(atom, flags)] := by
  obtain ⟨hok, hkeys, hsize, hdeleted⟩ := e.ok.grow
  obtain ⟨hcount, hflag, -⟩ := grow_fields sh
  have hlength : sh.grow.prop.length = sh.prop.length := by
    rw [← length_keys, hkeys, length_keys]
  have hok' : ShapeOk { sh.grow with hash := hash } := hok.relinked hok.index rfl hok.size rfl rfl
  have hnew' : ∀ pr ∈ sh.grow.prop, pr.atom ≠ atom := fun pr hpr => by
    obtain ⟨pr', hpr', heq⟩ := mem_keys_of_mem hkeys hpr
    rw [← heq]
    exact hnew pr' hpr'
  obtain ⟨hadd, hkeys'⟩ := hok'.add hatom hnew' hflags (hlength ▸ hsize) (hlength ▸ hroom)
  refine ⟨⟨hadd, ?_, ?_, fun hf => ?_⟩, hkeys'.trans (hkeys ▸ rfl)⟩
  · have hdel : sh.deletedPropCount ≤ sh.prop.length := e.ok.deleted ▸ List.countP_le_length
    refine Roomy.add ?_ ?_
    · show sh.grow.prop.length ≤ 2 * (sh.grow.prop.length - sh.grow.deletedPropCount) + 7
      rw [hlength, hdeleted]
      exact e.roomy
    · show sh.grow.deletedPropCount ≤ sh.grow.prop.length
      rw [hlength, hdeleted]
      exact hdel
  · exact hcount.trans e.count
  · exact hcount.trans (e.unshared (hflag ▸ hf))

/-- The values of an object after `add_shape_property` made room for one more. -/
def grownObjs (objs : Nat → Obj V) (p : Option Nat) (sh : Shape) : Nat → Obj V :=
  if sh.propSize ≤ sh.prop.length then
    p.elim objs fun p => Function.update objs p ⟨(objs p).shape, realloc (objs p).prop sh.grow.propSize⟩
  else objs

theorem resizeValues_eq (rt : Runtime V) (p : Option Nat) (sh : Shape) :
    (if sh.propSize ≤ sh.prop.length then rt.resizeValues p sh.grow.propSize else rt) =
      { rt with objs := grownObjs rt.objs p sh } := by
  unfold grownObjs
  split
  · cases p with
    | none => rfl
    | some p => rfl
  · rfl

theorem addShapeProperty_spec {atom flags : Nat} (h : ShapesOk (id :: refs) rt) (hid : id ∉ refs)
    (hsh : rt.shapes id = some sh) (hatom : atom ≠ 0) (hnew : ∀ pr ∈ sh.prop, pr.atom ≠ atom) (hflags : flags < 2 ^ 6)
    (hroom : sh.prop.length < 2 ^ 26) (p : Option Nat) :
    ∃ rt' sh', rt.addShapeProperty id p atom flags = some rt' ∧ Shared (id :: refs) refs rt rt' ∧
      rt'.objs = grownObjs rt.objs p sh ∧ rt'.shapes id = some sh' ∧ keys sh'.prop = keys sh.prop ++ [(atom, flags)] ∧
      sh'.propSize = sh.grow.propSize ∧ sh'.proto = sh.proto ∧ sh'.isHashed = sh.isHashed := by
  have e := h.entry id sh hsh
  have hproto := (grow_fields sh).2.2
  have hflag := (grow_fields sh).2.1
  have halive : ∀ s : Shape, (∃ sh, some s = some sh) ↔ id ∈ id :: refs := fun s =>
    iff_of_true ⟨s, rfl⟩ List.mem_cons_self
  by_cases hhashed : sh.isHashed = true
  · let sh₁ : Shape := { sh.grow with hash := nextHash sh.hash atom flags }
    obtain ⟨hentry, hkeys⟩ := e.grow_add hatom hnew hflags hroom (nextHash sh.hash atom flags)
    -- the shape leaves its list, and is entered in the list of its new hash
    obtain ⟨t₁, n₁, hunlink, hout⟩ := hashUnlink_spec rt h.table ⟨sh, hsh, hhashed⟩ hsh
    let rt₁ : Runtime V := { rt with shapeHash := t₁, shapeHashCount := n₁, objs := grownObjs rt.objs p sh }
    have htable : TableOk (rt₁.setShape id (some sh₁)).shapes t₁ rt.shapeHashBits fun x => Hashed rt.shapes x ∧ x ≠ id := by
      refine hout.congr (fun _ => Iff.rfl) fun x hx => ?_
      show (Function.update rt.shapes id _ x).map _ = _
      rw [Function.update_of_ne hx.2]
    obtain ⟨t₂, n₂, hlink, hin⟩ := hashLink_spec (rt₁.setShape id (some sh₁)) htable (fun hx => hx.2 rfl)
      (Function.update_self _ _ _)
    let rt' : Runtime V := Runtime.setShape { rt₁.setShape id (some sh₁) with shapeHash := t₂, shapeHashCount := n₂ } id
      (some (sh₁.add atom flags))
    have hgo : rt.addShapeProperty id p atom flags = some rt' := by
      unfold Runtime.addShapeProperty
      simp only [Option.bind_eq_bind, hsh, hhashed, if_true, hunlink, Option.bind_some, resizeValues_eq]
      exact congrArg (Option.bind · fun rt => some (rt.setShape id (some (sh₁.add atom flags)))) hlink
    have hshapes : rt'.shapes = Function.update rt.shapes id (some (sh₁.add atom flags)) := Function.update_idem _ _ _
    refine ⟨rt', _, hgo, ⟨?_, keeps_update_of_not_mem hid hshapes, rfl, rfl⟩, rfl, Function.update_self _ _ _, hkeys, rfl,
      hproto, hflag⟩
    refine h.update hshapes (fun _ _ => rfl) ?_ (halive _) ?_ (Nat.le_refl _) (h.lt_next hsh)
    · intro sh' heq
      rw [← Option.some.inj heq]
      exact hentry
    · rw [hshapes]
      exact hin.into (hflag.trans hhashed) rfl
  · obtain ⟨hentry, hkeys⟩ := e.grow_add hatom hnew hflags hroom sh.grow.hash
    have hfalse : sh.isHashed = false := Bool.not_eq_true _ ▸ hhashed
    have hgo : rt.addShapeProperty id p atom flags =
        some (Runtime.setShape { rt with objs := grownObjs rt.objs p sh } id (some (sh.grow.add atom flags))) := by
      unfold Runtime.addShapeProperty
      simp [hsh, hfalse, resizeValues_eq]
    refine ⟨_, _, hgo, ⟨?_, keeps_update_of_not_mem hid rfl, rfl, rfl⟩, rfl, Function.update_self _ _ _, hkeys, rfl, hproto,
      hflag⟩
    refine h.update rfl (fun _ _ => rfl) ?_ (halive _) ?_ (Nat.le_refl _) (h.lt_next hsh)
    · intro sh' heq
      rw [← Option.some.inj heq]
      exact hentry
    · refine h.table.out (hashed_iff_ne (not_hashed_of_get hsh hfalse)) fun sh' heq => ?_
      rw [← Option.some.inj heq]
      exact hflag.trans hfalse

/-- A shape that is not in the table and has one user is written. -/
theorem replace_spec (h : ShapesOk (id :: refs) rt) (hid : id ∉ refs) (hsh : rt.shapes id = some sh)
    (hflag : sh.isHashed = false) (hok : ShapeOk sh') (hroomy : Roomy sh') (hcount : sh'.refCount = sh.refCount)
    (hflag' : sh'.isHashed = false) : Shared (id :: refs) refs rt (rt.setShape id (some sh')) := by
  have e := h.entry id sh hsh
  refine ⟨?_, keeps_update_of_not_mem hid rfl, rfl, rfl⟩
  refine h.update rfl (fun _ _ => rfl) ?_ (iff_of_true ⟨sh', rfl⟩ List.mem_cons_self) ?_ (Nat.le_refl _) (h.lt_next hsh)
  · intro s heq
    rw [← Option.some.inj heq]
    exact ⟨hok, hroomy, hcount.trans e.count, fun _ => hcount.trans (e.unshared hflag)⟩
  · refine h.table.out (hashed_iff_ne (not_hashed_of_get hsh hflag)) fun s heq => ?_
    rw [← Option.some.inj heq]
    exact hflag'

/-- A count of one says that there is no other user. -/
theorem ShapesOk.not_mem_of_refCount (h : ShapesOk (id :: refs) rt) (hsh : rt.shapes id = some sh)
    (hcount : sh.refCount = 1) : id ∉ refs := fun hmem => by
  have hpos := List.count_pos_iff.mpr hmem
  have hone := (h.entry id sh hsh).count
  rw [hcount, List.count_cons_self] at hone
  omega

/-- After `js_shape_prepare_update` the shape of an object may be written. -/
theorem prepareUpdate_spec {p : Nat} (h : ShapesOk ((rt.objs p).shape :: refs) rt) (hsh : rt.shapes (rt.objs p).shape = some sh) :
    ∃ rt' id, rt.prepareUpdate p = some rt' ∧ Shared (id :: refs) refs rt rt' ∧ id ∉ refs ∧
      rt'.objs = Function.update rt.objs p ⟨id, (rt.objs p).prop⟩ ∧
      rt'.shapes id = some { sh with refCount := 1, isHashed := false } := by
  have hsame : rt.objs = Function.update rt.objs p ⟨(rt.objs p).shape, (rt.objs p).prop⟩ :=
    (Function.update_eq_self p rt.objs).symm
  have e := h.entry _ sh hsh
  by_cases hhashed : sh.isHashed = true
  · by_cases hone : sh.refCount = 1
    · have hid := h.not_mem_of_refCount hsh hone
      obtain ⟨table, n, hunlink, hout⟩ := hashUnlink_spec rt h.table ⟨sh, hsh, hhashed⟩ hsh
      refine ⟨Runtime.setShape { rt with shapeHash := table, shapeHashCount := n } (rt.objs p).shape
        (some { sh with isHashed := false }), (rt.objs p).shape, ?_, ⟨?_, keeps_update_of_not_mem hid rfl, rfl, rfl⟩, hid,
        hsame, ?_⟩
      · simp [Runtime.prepareUpdate, hsh, hhashed, hone, hunlink]
      · refine h.update rfl (fun _ _ => rfl) ?_ (iff_of_true ⟨_, rfl⟩ List.mem_cons_self) (hout.out (fun _ => Iff.rfl) ?_)
          (Nat.le_refl _) (h.lt_next hsh)
        · intro s heq
          rw [← Option.some.inj heq]
          exact ⟨e.ok.relinked e.ok.index rfl e.ok.size rfl rfl, e.roomy, e.count, fun _ => hone⟩
        · intro s heq
          rw [← Option.some.inj heq]
      · rw [← hone]
        exact Function.update_self _ _ _
    · obtain ⟨rt₁, hclone, hshared₁, hobjs₁, hget₁⟩ := cloneShape_spec h hsh
      obtain ⟨rt₂, hfree, hshared₂, hobjs₂, hothers⟩ := freeShape_spec
        (hshared₁.ok.perm (List.Perm.swap (rt.objs p).shape rt.nextShape refs))
      have hnext : rt.nextShape ∉ refs := fun hmem => h.next_not_mem (List.mem_cons_of_mem _ hmem)
      have hne : rt.nextShape ≠ (rt.objs p).shape := fun heq => h.next_not_mem (heq ▸ List.mem_cons_self)
      refine ⟨rt₂.setObj p ⟨rt.nextShape, (rt.objs p).prop⟩, rt.nextShape, ?_, ⟨hshared₂.ok.setObj p _, ?_, ?_, ?_⟩, hnext,
        ?_, (hothers _ hne).trans hget₁⟩
      · simp [Runtime.prepareUpdate, hsh, hhashed, hone, hclone, hfree]
      · exact (hshared₁.keeps.mono (List.subset_cons_self _ _)).trans (hshared₂.keeps.mono (List.subset_cons_self _ _))
      · exact hshared₂.objects.trans hshared₁.objects
      · exact hshared₂.arrayShapes.trans hshared₁.arrayShapes
      · show Function.update rt₂.objs p _ = _
        rw [hobjs₂, hobjs₁]
  · have hfalse : sh.isHashed = false := Bool.not_eq_true _ ▸ hhashed
    have hone := e.unshared hfalse
    have hid := h.not_mem_of_refCount hsh hone
    refine ⟨rt, (rt.objs p).shape, ?_, ⟨h, Keeps.refl refs rt, rfl, rfl⟩, hid, hsame, ?_⟩
    · simp [Runtime.prepareUpdate, hsh, hfalse]
    · rw [hsh, ← hone, ← hfalse]

/-! ## Searching the table -/

theorem findHashedShapeProto_spec (h : ShapesOk refs rt) (proto : Option Nat) :
    ∃ r, rt.findHashedShapeProto proto = some r ∧ ∀ id, r = some id → ∃ sh, rt.shapes id = some sh ∧ sh.isHashed = true ∧
      sh.proto = proto ∧ keys sh.prop = [] := by
  obtain ⟨chain, hchain⟩ := h.table.chain (shapeInitialHash proto)
  have hmem := h.table.mem _ chain hchain
  have hread : ∀ id ∈ chain, ∃ sh, rt.shapes id = some sh := fun id hid =>
    let ⟨sh, hsh, _⟩ := ((hmem id).mp hid).1
    ⟨sh, hsh⟩
  obtain ⟨r, hgo, hr⟩ := findChain_spec
    (fun sh => sh.hash = shapeInitialHash proto && sh.proto = proto && sh.prop.length = 0)
    hread
  refine ⟨r, ?_, fun id heq => ?_⟩
  · unfold Runtime.findHashedShapeProto
    simp only [Option.bind_eq_bind, hchain, Option.bind_some]
    exact hgo
  · obtain ⟨hid, sh, hsh, htest⟩ := hr id heq
    obtain ⟨sh', hsh', hflag⟩ := ((hmem id).mp hid).1
    obtain rfl : sh = sh' := Option.some.inj (hsh.symm.trans hsh')
    simp only [Bool.and_eq_true, decide_eq_true_eq] at htest
    exact ⟨sh, hsh, hflag, htest.1.2, List.map_eq_nil_iff.mpr (List.length_eq_zero_iff.mp htest.2)⟩

theorem findHashedShapeProp_spec (h : ShapesOk refs rt) (sh : Shape) (atom flags : Nat) :
    ∃ r, rt.findHashedShapeProp sh atom flags = some r ∧ ∀ id, r = some id → ∃ sh', rt.shapes id = some sh' ∧
      sh'.isHashed = true ∧ sh'.proto = sh.proto ∧ keys sh'.prop = keys sh.prop ++ [(atom, flags)] := by
  obtain ⟨chain, hchain⟩ := h.table.chain (nextHash sh.hash atom flags)
  have hmem := h.table.mem _ chain hchain
  have hread : ∀ id ∈ chain, ∃ sh, rt.shapes id = some sh := fun id hid =>
    let ⟨sh, hsh, _⟩ := ((hmem id).mp hid).1
    ⟨sh, hsh⟩
  obtain ⟨r, hgo, hr⟩ := findChain_spec
    (fun sh1 => sh1.hash = nextHash sh.hash atom flags && sh1.proto = sh.proto &&
      keys sh1.prop = keys sh.prop ++ [(atom, flags)])
    hread
  refine ⟨r, ?_, fun id heq => ?_⟩
  · unfold Runtime.findHashedShapeProp
    simp only [Option.bind_eq_bind, hchain, Option.bind_some]
    exact hgo
  · obtain ⟨hid, sh₁, hsh, htest⟩ := hr id heq
    obtain ⟨sh₂, hsh', hflag⟩ := ((hmem id).mp hid).1
    obtain rfl : sh₁ = sh₂ := Option.some.inj (hsh.symm.trans hsh')
    simp only [Bool.and_eq_true, decide_eq_true_eq] at htest
    exact ⟨sh₁, hsh, hflag, htest.1.2, htest.2⟩

end QuickJSBridge.Shapes
