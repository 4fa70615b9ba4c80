import QuickJSBridge.Engine.PropertyHeap
import QuickJSBridge.Engine.ShapeSharing

/-!
# Objects over shared shapes

* `Runtime.heap` — the heap that a runtime stands for; `Sound` — shapes are counted right, every object has a value
  for each property of its shape, and the shapes of arrays have the length only;
* `sound_put` — after an operation on one object the runtime is sound, and its heap differs in that object;
* `findOwnProperty_spec`, `add_heap`, `write_heap`, `updatePropertyFlags_heap` — each operation ends, and what it
  does to the heap.
-/

namespace QuickJSBridge.Shapes

variable {V : Type} {rt rt' rt₁ rt₂ : Runtime V} {refs : List Nat} {p q id id' atom flags i : Nat} {sh sh' : Shape}
  {values values' : List (Option V)} {v : V}

/-! ## The heap of a runtime -/

/-- The references to shapes of some objects, and of the contexts. -/
def refsOf (rt : Runtime V) (objects : List Nat) : List Nat :=
  objects.map (fun q => (rt.objs q).shape) ++ rt.arrayShapes

def entityOf (s : Option Shape) (values : List (Option V)) : Option (Entity V) :=
  s.map fun sh => ⟨sh.proto, properties (keys sh.prop) values⟩

def Runtime.heap (rt : Runtime V) : Heap V where
  obj := fun p => if p ∈ rt.objects then entityOf (rt.shapes (rt.objs p).shape) (rt.objs p).prop else none
  arrays := rt.arrayShapes.map fun id => (rt.shapes id).bind (·.proto)

structure Sound (rt : Runtime V) : Prop where
  shapes : ShapesOk (refsOf rt rt.objects) rt
  nodup : rt.objects.Nodup
  values : ∀ p ∈ rt.objects, ∀ sh, rt.shapes (rt.objs p).shape = some sh →
    (rt.objs p).prop.length = sh.propSize ∧ Filled (keys sh.prop) (rt.objs p).prop
  arrays : ∀ id ∈ rt.arrayShapes, ∀ sh, rt.shapes id = some sh →
    sh.isHashed = true ∧ keys sh.prop = [(atomLength, arrayLengthFlags)]

theorem sound_init : Sound (Runtime.init : Runtime V) where
  shapes := shapesOk_init
  nodup := List.nodup_nil
  values := fun _ hp => absurd hp List.not_mem_nil
  arrays := fun _ hid => absurd hid List.not_mem_nil

theorem heap_init : (Runtime.init : Runtime V).heap = Heap.empty :=
  congrArg (Heap.mk · []) (funext fun _ => if_neg List.not_mem_nil)

theorem mem_objects_of_heap {o : Entity V} (ho : rt.heap.obj p = some o) : p ∈ rt.objects := by
  by_cases hp : p ∈ rt.objects
  · exact hp
  · have hnone : rt.heap.obj p = none := if_neg hp
    rw [hnone] at ho
    cases ho

theorem heap_of_mem (hp : p ∈ rt.objects) : rt.heap.obj p = entityOf (rt.shapes (rt.objs p).shape) (rt.objs p).prop :=
  if_pos hp

theorem shape_mem_refsOf {objects : List Nat} (hp : p ∈ objects) : (rt.objs p).shape ∈ refsOf rt objects :=
  List.mem_append_left _ (List.mem_map_of_mem hp)

theorem array_mem_refsOf (objects : List Nat) (hid : id ∈ rt.arrayShapes) : id ∈ refsOf rt objects :=
  List.mem_append_right _ hid

theorem Sound.get (h : Sound rt) (hp : p ∈ rt.objects) : ∃ sh, rt.shapes (rt.objs p).shape = some sh :=
  h.shapes.get (shape_mem_refsOf hp)

/-- The references of an object and those of all others. -/
theorem refsOf_erase (hp : p ∈ rt.objects) :
    (refsOf rt rt.objects).Perm ((rt.objs p).shape :: refsOf rt (rt.objects.erase p)) :=
  ((List.perm_cons_erase hp).map _).append_right _

/-! ## One object is written -/

theorem entityOf_congr {s s' : Option Shape} (h : body s' = body s) (values : List (Option V)) :
    entityOf s' values = entityOf s values := by
  unfold body at h
  cases s with
  | none =>
    rw [Option.map_eq_none_iff.mp h]
  | some sh =>
    obtain ⟨sh', rfl, heq⟩ := Option.map_eq_some_iff.mp h
    simp only [Prod.mk.injEq] at heq
    simp [entityOf, heq.1, heq.2.2.1]

theorem arrays_congr (hkeeps : Keeps refs rt rt') (hrefs : rt.arrayShapes ⊆ refs) :
    (rt.arrayShapes.map fun id => (rt'.shapes id).bind (·.proto)) =
      rt.arrayShapes.map fun id => (rt.shapes id).bind (·.proto) := by
  have hproto : ∀ s : Option Shape, s.bind (·.proto) = (body s).bind fun b => b.2.2.1 := fun s => by
    cases s with
    | none => rfl
    | some sh => rfl
  refine List.map_congr_left fun id hid => ?_
  rw [hproto, hproto, hkeeps id (hrefs hid)]

/-- What is true of the shape of another object, or of an array shape, stays true. -/
theorem Keeps.get (hkeeps : Keeps refs rt rt') (hid : id ∈ refs) (hsome : ∃ sh, rt.shapes id = some sh)
    (hsh' : rt'.shapes id = some sh') :
    ∃ sh, rt.shapes id = some sh ∧ sh'.prop = sh.prop ∧ sh'.propSize = sh.propSize ∧ sh'.isHashed = sh.isHashed := by
  obtain ⟨sh, hsh⟩ := hsome
  obtain ⟨s, hs, hprop, hsize, -, hflag⟩ := body_of_get (hkeeps id hid) hsh
  obtain rfl : sh' = s := Option.some.inj (hsh'.symm.trans hs)
  exact ⟨sh, hsh, hprop, hsize, hflag⟩

/-- The shape of the arrays of a context is as it was, as long as there is a reference to it. -/
theorem array_kept (h : Sound rt) (hkeeps : Keeps refs rt rt') (hid : id ∈ rt.arrayShapes) (hmem : id ∈ refs)
    (hsh : rt'.shapes id = some sh) : sh.isHashed = true ∧ keys sh.prop = [(atomLength, arrayLengthFlags)] := by
  obtain ⟨sh₀, hsh₀, hprop, -, hflag⟩ := hkeeps.get hmem (h.shapes.get (array_mem_refsOf rt.objects hid)) hsh
  rw [hprop, hflag]
  exact h.arrays id hid sh₀ hsh₀

theorem sound_put (h : Sound rt) (hobjects : rt'.objects.Perm (p :: rt.objects.erase p))
    (hshapes : ShapesOk (id :: refsOf rt (rt.objects.erase p)) rt') (hkeeps : Keeps (refsOf rt (rt.objects.erase p)) rt rt')
    (harrays : rt'.arrayShapes = rt.arrayShapes) (hobjs : rt'.objs = Function.update rt.objs p ⟨id, values⟩)
    (hget : rt'.shapes id = some sh) (hlength : values.length = sh.propSize) (hfilled : Filled (keys sh.prop) values) :
    Sound rt' ∧ rt'.heap = rt.heap.set p (some ⟨sh.proto, properties (keys sh.prop) values⟩) := by
  have hself : rt'.objs p = ⟨id, values⟩ := by
    rw [hobjs]
    exact Function.update_self _ _ _
  have hother : ∀ q, q ≠ p → rt'.objs q = rt.objs q := fun q hq => by
    rw [hobjs]
    exact Function.update_of_ne hq _ _
  have hne : ∀ q ∈ rt.objects.erase p, q ≠ p := fun q hq => (h.nodup.mem_erase_iff.mp hq).1
  have hmem : ∀ q, q ∈ rt'.objects ↔ q = p ∨ q ∈ rt.objects := fun q => by
    rw [hobjects.mem_iff, List.mem_cons, h.nodup.mem_erase_iff]
    exact ⟨fun hq => hq.imp_right And.right, fun hq => (Decidable.em (q = p)).imp_right fun hqp =>
      ⟨hqp, hq.resolve_left hqp⟩⟩
  have hold : ∀ q ∈ rt.objects, q ≠ p → (rt.objs q).shape ∈ refsOf rt (rt.objects.erase p) := fun q hq hqp =>
    shape_mem_refsOf (h.nodup.mem_erase_iff.mpr ⟨hqp, hq⟩)
  refine ⟨⟨?_, ?_, fun q hq s hs => ?_, fun x hx s hs => ?_⟩, ?_⟩
  · have hrefs : (refsOf rt' rt'.objects).Perm (id :: refsOf rt (rt.objects.erase p)) := by
      unfold refsOf
      rw [harrays, ← List.cons_append]
      refine List.Perm.append_right _ ((hobjects.map _).trans (List.Perm.of_eq ?_))
      rw [List.map_cons, hself]
      exact congrArg _ (List.map_congr_left fun q hq => by rw [hother q (hne q hq)])
    exact hshapes.perm hrefs.symm
  · exact hobjects.nodup_iff.mpr (List.nodup_cons.mpr ⟨fun hp => hne p hp rfl, h.nodup.erase p⟩)
  · by_cases hqp : q = p
    · rw [hqp, hself] at hs ⊢
      obtain rfl : sh = s := Option.some.inj (hget.symm.trans hs)
      exact ⟨hlength, hfilled⟩
    · have hq' : q ∈ rt.objects := ((hmem q).mp hq).resolve_left hqp
      rw [hother q hqp] at hs ⊢
      obtain ⟨s₀, hs₀, hprop, hsize, -⟩ := hkeeps.get (hold q hq' hqp) (h.get hq') hs
      rw [hprop, hsize]
      exact h.values q hq' s₀ hs₀
  · rw [harrays] at hx
    exact array_kept h hkeeps hx (array_mem_refsOf _ hx) hs
  · refine congr (congrArg Heap.mk (funext fun q => ?_)) ?_
    · by_cases hqp : q = p
      · rw [hqp, if_pos ((hmem p).mpr (.inl rfl)), hself, hget, Function.update_self]
        rfl
      · rw [Function.update_of_ne hqp]
        by_cases hq : q ∈ rt.objects
        · rw [if_pos ((hmem q).mpr (.inr hq)), heap_of_mem hq, hother q hqp]
          exact entityOf_congr (hkeeps _ (hold q hq hqp)) _
        · rw [if_neg fun hq' => hq (((hmem q).mp hq').resolve_left hqp)]
          exact (if_neg hq).symm
    · rw [harrays]
      exact arrays_congr hkeeps fun x hx => array_mem_refsOf _ hx

/-- The shape and the values of one object are other ones. -/
structure Changed (refs : List Nat) (rt rt' : Runtime V) (p id : Nat) (sh : Shape) (values : List (Option V)) : Prop where
  shared : Shared (id :: refs) refs rt rt'
  objs : rt'.objs = Function.update rt.objs p ⟨id, values⟩
  get : rt'.shapes id = some sh

theorem Changed.self (c : Changed refs rt rt' p id sh values) : rt'.objs p = ⟨id, values⟩ := by
  rw [c.objs]
  exact Function.update_self _ _ _

theorem Sound.unchanged (h : Sound rt) (hp : p ∈ rt.objects) (hsh : rt.shapes (rt.objs p).shape = some sh) :
    Changed (refsOf rt (rt.objects.erase p)) rt rt p (rt.objs p).shape sh (rt.objs p).prop where
  shared := ⟨h.shapes.perm (refsOf_erase hp), Keeps.refl _ rt, rfl, rfl⟩
  objs := (Function.update_eq_self p rt.objs).symm
  get := hsh

theorem Changed.sound (c : Changed (refsOf rt (rt.objects.erase p)) rt rt' p id sh values) (h : Sound rt)
    (hp : p ∈ rt.objects) (hlength : values.length = sh.propSize) (hfilled : Filled (keys sh.prop) values) :
    Sound rt' ∧ rt'.heap = rt.heap.set p (some ⟨sh.proto, properties (keys sh.prop) values⟩) := by
  have hobjects : rt'.objects.Perm (p :: rt.objects.erase p) := by
    rw [c.shared.objects]
    exact List.perm_cons_erase hp
  exact sound_put h hobjects c.shared.ok c.shared.keeps c.shared.arrayShapes c.objs c.get hlength hfilled

/-- `pr->u.value = val` -/
theorem Changed.setValue (c : Changed refs rt rt₁ p id sh values) (hi : i < values.length) (v : V) :
    ∃ rt₂, rt₁.setValue p i v = some rt₂ ∧ Changed refs rt rt₂ p id sh (values.set i (some v)) := by
  refine ⟨rt₁.setObj p ⟨id, values.set i (some v)⟩, ?_, ⟨⟨c.shared.ok.setObj _ _, c.shared.keeps, c.shared.objects,
    c.shared.arrayShapes⟩, ?_, c.get⟩⟩
  · unfold Runtime.setValue
    rw [c.self]
    exact if_pos hi
  · show Function.update rt₁.objs p _ = _
    rw [c.objs, Function.update_idem]

/-! ## Adding a property -/

/-- The end of `add_property`. -/
theorem addUnshared_spec (c : Changed refs rt rt₁ p id sh values) (hid : id ∉ refs) (hlength : values.length = sh.propSize)
    (hatom : atom ≠ 0) (hnew : ∀ pr ∈ sh.prop, pr.atom ≠ atom) (hflags : flags < 2 ^ 6) (hroom : sh.prop.length < 2 ^ 26) :
    ∃ rt₂ sh₂ values₂, rt₁.addUnshared p atom flags = some (sh.prop.length, rt₂) ∧
      Changed refs rt rt₂ p id sh₂ values₂ ∧ keys sh₂.prop = keys sh.prop ++ [(atom, flags)] ∧ sh₂.proto = sh.proto ∧
      values₂.length = sh₂.propSize ∧ values₂.take sh.prop.length = values.take sh.prop.length := by
  have e := c.shared.ok.entry id sh c.get
  have hone : sh.refCount = 1 := by
    rw [e.count, List.count_cons_self, List.count_eq_zero.mpr hid]
  obtain ⟨rt₂, sh₂, hadd, hshared, hobjs, hget, hkeys, hsize, hproto, -⟩ :=
    addShapeProperty_spec c.shared.ok hid c.get hatom hnew hflags hroom (some p)
  have hgrown := e.ok.grow.2.2.1
  have hfit := e.ok.size
  refine ⟨rt₂, sh₂, if sh.propSize ≤ sh.prop.length then realloc values sh.grow.propSize else values, ?_,
    ⟨c.shared.trans hshared, ?_, hget⟩, hkeys, hproto, ?_, ?_⟩
  · simp [Runtime.addUnshared, c.self, c.get, hone, hadd]
  · rw [hobjs]
    unfold grownObjs
    split
    · show Function.update rt₁.objs p ⟨(rt₁.objs p).shape, realloc (rt₁.objs p).prop _⟩ = _
      rw [c.self, c.objs, Function.update_idem]
    · exact c.objs
  · rw [hsize]
    split
    · exact length_realloc _ _
    · next hroomy =>
      rw [hlength]
      unfold Shape.grow
      rw [if_neg hroomy]
  · split
    · exact take_realloc (by omega) (Nat.le_of_lt hgrown)
    · rfl

/-- The object moves to a shape that is in the table. -/
theorem moveShape_spec (h : Sound rt) (hp : p ∈ rt.objects) (hsh : rt.shapes id = some sh) (hflag : sh.isHashed = true)
    (values : List (Option V)) :
    ∃ rt' sh', ((rt.setObj p ⟨id, values⟩).dupShape id).bind (·.freeShape (rt.objs p).shape) = some rt' ∧
      Changed (refsOf rt (rt.objects.erase p)) rt rt' p id sh' values ∧ sh'.prop = sh.prop ∧ sh'.propSize = sh.propSize ∧
      sh'.proto = sh.proto := by
  have hok : ShapesOk ((rt.objs p).shape :: refsOf rt (rt.objects.erase p)) (rt.setObj p ⟨id, values⟩) :=
    (h.shapes.perm (refsOf_erase hp)).setObj p _
  have hid : id ∈ (rt.objs p).shape :: refsOf rt (rt.objects.erase p) := (hok.alive id).mp ⟨sh, hsh⟩
  obtain ⟨rt₁, hdup, hshared₁, hobjs₁⟩ := dupShape_spec hok ⟨sh, hsh, hflag⟩
  obtain ⟨rt₂, hfree, hshared₂, hobjs₂, -⟩ := freeShape_spec (hshared₁.ok.perm (List.Perm.swap _ _ _))
  obtain ⟨sh₁, hget₁, hprop₁, hsize₁, hproto₁, -⟩ := body_of_get (hshared₁.keeps id hid) hsh
  obtain ⟨sh₂, hget₂, hprop₂, hsize₂, hproto₂, -⟩ := body_of_get (hshared₂.keeps id List.mem_cons_self) hget₁
  refine ⟨rt₂, sh₂, ?_, ⟨⟨hshared₂.ok, ?_, ?_, ?_⟩, ?_, hget₂⟩, hprop₂.trans hprop₁, hsize₂.trans hsize₁,
    hproto₂.trans hproto₁⟩
  · rw [hdup]
    exact hfree
  · exact (hshared₁.keeps.mono (List.subset_cons_self _ _)).trans (hshared₂.keeps.mono (List.subset_cons_self _ _))
  · exact hshared₂.objects.trans hshared₁.objects
  · exact hshared₂.arrayShapes.trans hshared₁.arrayShapes
  · rw [hobjs₂, hobjs₁]
    rfl

/-- The object gets a clone of its shape, which is in the table. -/
theorem hashedClone_spec (h : Sound rt) (hp : p ∈ rt.objects) (hsh : rt.shapes (rt.objs p).shape = some sh) :
    ∃ rt₁ rt₂ rt₃ clone, rt.cloneShape (rt.objs p).shape = some (rt.nextShape, rt₁) ∧
      rt₁.shapes rt.nextShape = some clone ∧
      (rt₁.setShape rt.nextShape (some { clone with isHashed := true })).hashLink rt.nextShape = some rt₂ ∧
      rt₂.freeShape (rt.objs p).shape = some rt₃ ∧ rt.nextShape ∉ refsOf rt (rt.objects.erase p) ∧
      ∃ sh', Changed (refsOf rt (rt.objects.erase p)) rt (rt₃.setObj p ⟨rt.nextShape, (rt.objs p).prop⟩) p rt.nextShape sh'
        (rt.objs p).prop ∧ sh'.prop = sh.prop ∧ sh'.propSize = sh.propSize ∧ sh'.proto = sh.proto := by
  have hok := h.shapes.perm (refsOf_erase hp)
  have hnext := hok.next_not_mem
  have hrest : rt.nextShape ∉ refsOf rt (rt.objects.erase p) := fun hmem => hnext (List.mem_cons_of_mem _ hmem)
  have hne : rt.nextShape ≠ (rt.objs p).shape := fun heq => hnext (heq ▸ List.mem_cons_self)
  obtain ⟨rt₁, hclone, hshared₁, hobjs₁, hget₁⟩ := cloneShape_spec hok hsh
  obtain ⟨rt₂, hlink, hshared₂, hobjs₂, hget₂⟩ := hashClone_spec hshared₁.ok hnext hget₁ rfl
  obtain ⟨rt₃, hfree, hshared₃, hobjs₃, hothers⟩ := freeShape_spec (hshared₂.ok.perm (List.Perm.swap _ _ _))
  refine ⟨rt₁, rt₂, rt₃, _, hclone, hget₁, hlink, hfree, hrest, _, ⟨⟨hshared₃.ok.setObj _ _, ?_, ?_, ?_⟩, ?_,
    (hothers _ hne).trans hget₂⟩, rfl, rfl, rfl⟩
  · exact ((hshared₁.keeps.mono (List.subset_cons_self _ _)).trans (hshared₂.keeps.mono (List.subset_cons_self _ _))).trans
      (hshared₃.keeps.mono (List.subset_cons_self _ _))
  · exact hshared₃.objects.trans (hshared₂.objects.trans hshared₁.objects)
  · exact hshared₃.arrayShapes.trans (hshared₂.arrayShapes.trans hshared₁.arrayShapes)
  · show Function.update rt₃.objs p _ = _
    rw [hobjs₃, hobjs₂, hobjs₁]

/-- `add_property` enters the property in a shape of the object, and leaves room for its value. -/
theorem addProperty_spec (h : Sound rt) (hp : p ∈ rt.objects) (hsh : rt.shapes (rt.objs p).shape = some sh) (hatom : atom ≠ 0)
    (hnew : ∀ pr ∈ sh.prop, pr.atom ≠ atom) (hflags : flags < 2 ^ 6) (hroom : sh.prop.length < 2 ^ 26) :
    ∃ rt' id sh' values, rt.addProperty p atom flags = some (sh.prop.length, rt') ∧
      Changed (refsOf rt (rt.objects.erase p)) rt rt' p id sh' values ∧
      keys sh'.prop = keys sh.prop ++ [(atom, flags)] ∧ sh'.proto = sh.proto ∧ values.length = sh'.propSize ∧
      values.take sh.prop.length = (rt.objs p).prop.take sh.prop.length := by
  have hok := h.shapes.perm (refsOf_erase hp)
  have e := hok.entry _ sh hsh
  obtain ⟨hlength, -⟩ := h.values p hp sh hsh
  have hfit := e.ok.size
  have hown : sh.refCount = 1 → ∃ rt' sh' values, rt.addUnshared p atom flags = some (sh.prop.length, rt') ∧
      Changed (refsOf rt (rt.objects.erase p)) rt rt' p (rt.objs p).shape sh' values ∧
      keys sh'.prop = keys sh.prop ++ [(atom, flags)] ∧ sh'.proto = sh.proto ∧ values.length = sh'.propSize ∧
      values.take sh.prop.length = (rt.objs p).prop.take sh.prop.length := fun hone =>
    addUnshared_spec (h.unchanged hp hsh) (hok.not_mem_of_refCount hsh hone) hlength hatom hnew hflags hroom
  by_cases hhashed : sh.isHashed = true
  · obtain ⟨r, hfind, hr⟩ := findHashedShapeProp_spec hok sh atom flags
    cases r with
    | some id =>
      obtain ⟨newSh, hnewSh, hnewFlag, hproto, hkeys⟩ := hr id rfl
      have hnewLength : newSh.prop.length = sh.prop.length + 1 := by
        rw [← length_keys, hkeys, List.length_append, length_keys, List.length_singleton]
      have hnewFit := (hok.entry id newSh hnewSh).ok.size
      obtain ⟨rt', sh', hmove, hchanged, hprop', hsize', hproto'⟩ := moveShape_spec h hp hnewSh hnewFlag
        (if newSh.propSize ≠ sh.propSize then realloc (rt.objs p).prop newSh.propSize else (rt.objs p).prop)
      refine ⟨rt', id, sh', _, ?_, hchanged, by rw [hprop', hkeys], hproto'.trans hproto, ?_, ?_⟩
      · obtain ⟨rt₁, hdup, hfree⟩ := Option.bind_eq_some_iff.mp hmove
        simp only [ne_eq, ite_not] at hdup
        simp [Runtime.addProperty, hsh, hhashed, hfind, hnewSh, hnewLength, hdup, hfree]
      · rw [hsize']
        split
        · exact length_realloc _ _
        · next hsame => rw [hlength, not_not.mp hsame]
      · split
        · exact take_realloc (by omega) (by omega)
        · rfl
    | none =>
      by_cases hone : sh.refCount = 1
      · obtain ⟨rt', sh', values, hadd, hrest⟩ := hown hone
        refine ⟨rt', _, sh', values, ?_, hrest⟩
        simp [Runtime.addProperty, hsh, hhashed, hfind, hone, hadd]
      · obtain ⟨rt₁, rt₂, rt₃, clone, hclone, hget, hlink, hfree, hid, sh', hchanged, hprop', hsize', hproto'⟩ :=
          hashedClone_spec h hp hsh
        obtain ⟨rt', sh₂, values, hadd, hchanged₂, hkeys, hproto₂, hlength₂, htake⟩ := addUnshared_spec hchanged hid
          (hlength.trans hsize'.symm) hatom (hprop' ▸ hnew) hflags (hprop' ▸ hroom)
        rw [hprop'] at hadd hkeys htake
        refine ⟨rt', _, sh₂, values, ?_, hchanged₂, hkeys, hproto₂.trans hproto', hlength₂, htake⟩
        simp [Runtime.addProperty, hsh, hhashed, hfind, hone, hclone, hget, hlink, hfree, hadd]
  · have hfalse : sh.isHashed = false := Bool.not_eq_true _ ▸ hhashed
    obtain ⟨rt', sh', values, hadd, hrest⟩ := hown (e.unshared hfalse)
    refine ⟨rt', _, sh', values, ?_, hrest⟩
    simp [Runtime.addProperty, hsh, hfalse, hadd]

/-! ## An object with its shape -/

/-- An object of the heap, and the shape that it has. -/
structure Looked (rt : Runtime V) (p : Nat) (o : Entity V) (sh : Shape) : Prop where
  mem : p ∈ rt.objects
  get : rt.shapes (rt.objs p).shape = some sh
  entity : o = ⟨sh.proto, properties (keys sh.prop) (rt.objs p).prop⟩
  length : (rt.objs p).prop.length = sh.propSize
  filled : Filled (keys sh.prop) (rt.objs p).prop
  ok : ShapeOk sh
  roomy : Roomy sh

theorem Sound.look (h : Sound rt) {o : Entity V} (ho : rt.heap.obj p = some o) : ∃ sh, Looked rt p o sh := by
  have hp := mem_objects_of_heap ho
  obtain ⟨sh, hsh⟩ := h.get hp
  obtain ⟨hlength, hfilled⟩ := h.values p hp sh hsh
  have e := h.shapes.entry _ sh hsh
  rw [heap_of_mem hp, hsh] at ho
  exact ⟨sh, hp, hsh, (Option.some.inj ho).symm, hlength, hfilled, e.ok, e.roomy⟩

theorem key_of_get {pr : ShapeProperty} (hpr : sh.prop[i]? = some pr) : (keys sh.prop)[i]? = some (pr.atom, pr.flags) := by
  rw [keys_get, hpr]
  rfl

/-- An entry of the shape, with its value, is the property of its name. -/
theorem Looked.find_of_get {o : Entity V} {pr : ShapeProperty} (l : Looked rt p o sh) (hpr : sh.prop[i]? = some pr)
    (hatom : pr.atom ≠ 0) : ∃ v, (rt.objs p).prop[i]? = some (some v) ∧ o.find pr.atom = some (pr.flags, v) := by
  have hkey := key_of_get hpr
  obtain ⟨v, hv⟩ := l.filled.2 i _ hkey hatom
  refine ⟨v, hv, ?_⟩
  rw [l.entity]
  exact congrArg (Option.map Prod.snd) (find_properties l.ok.nodup hatom hkey hv)

/-- What the search in the shape finds is the property of the object. -/
theorem findOwnProperty_spec {o : Entity V} (l : Looked rt p o sh) (hatom : atom ≠ 0) :
    ∃ r, rt.findOwnProperty p atom = some r ∧
      (r = none ∧ o.find atom = none ∧ (∀ pr ∈ sh.prop, pr.atom ≠ atom) ∨
        ∃ i pr v, r = some i ∧ sh.prop[i]? = some pr ∧ pr.atom = atom ∧ (rt.objs p).prop[i]? = some (some v) ∧
          o.find atom = some (pr.flags, v)) := by
  obtain ⟨r, hgo, hr⟩ := Shape.find_spec l.ok.index hatom
  refine ⟨r, ?_, ?_⟩
  · unfold Runtime.findOwnProperty
    rw [l.get]
    exact hgo
  · cases r with
    | none =>
      refine .inl ⟨rfl, ?_, hr⟩
      have hnone : (properties (keys sh.prop) (rt.objs p).prop).find? (fun x => x.1 = atom) = none := by
        refine find_properties_none fun k hk => ?_
        obtain ⟨pr, hpr, rfl⟩ := List.mem_map.mp hk
        exact hr pr hpr
      rw [l.entity]
      exact congrArg (Option.map Prod.snd) hnone
    | some i =>
      obtain ⟨pr, hpr, heq⟩ := hr
      obtain ⟨v, hv, hfind⟩ := l.find_of_get hpr (heq ▸ hatom)
      exact .inr ⟨i, pr, v, rfl, hpr, heq, hv, heq ▸ hfind⟩

/-- The count of properties bounds that of entries. -/
theorem Looked.length_le {o : Entity V} (l : Looked rt p o sh) : sh.prop.length ≤ 2 * o.props.length + 7 := by
  have hlive : o.props.length = sh.prop.length - sh.deletedPropCount := by
    have hparts := List.length_eq_countP_add_countP (fun k : Nat × Nat => decide (k.1 = 0)) (l := keys sh.prop)
    have hnot : ((keys sh.prop).countP fun k => decide (k.1 ≠ 0)) =
        (keys sh.prop).countP fun k => decide ¬ (decide (k.1 = 0) = true) := List.countP_congr fun k _ => by simp
    rw [l.entity]
    show (properties (keys sh.prop) (rt.objs p).prop).length = _
    rw [length_properties l.filled, l.ok.deleted, keys_eq_countP, ← length_keys, hnot]
    omega
  rw [hlive]
  exact l.roomy

/-! ## What operations do to the heap -/

/-- `add_property`, and the value of the new property. -/
theorem add_heap (h : Sound rt) {o : Entity V} (ho : rt.heap.obj p = some o) (hatom : atom ≠ 0) (hnew : o.find atom = none)
    (hflags : flags < 2 ^ 6) (hroom : 2 * o.props.length + 7 < 2 ^ 26) (v : V) :
    ∃ rt', ((rt.addProperty p atom flags).bind fun r => r.2.setValue p r.1 v) = some rt' ∧ Sound rt' ∧
      rt'.heap = rt.heap.set p (some { o with props := o.props ++ [(atom, flags, v)] }) := by
  obtain ⟨sh, l⟩ := h.look ho
  obtain ⟨r, -, hr⟩ := findOwnProperty_spec l hatom
  have habsent : ∀ pr ∈ sh.prop, pr.atom ≠ atom := by
    rcases hr with ⟨-, -, habsent⟩ | ⟨i, pr, w, -, -, -, -, hfind⟩
    · exact habsent
    · rw [hnew] at hfind
      cases hfind
  obtain ⟨rt₁, id, sh', values, hadd, hchanged, hkeys, hproto, hlength, htake⟩ :=
    addProperty_spec h l.mem l.get hatom habsent hflags (Nat.lt_of_le_of_lt l.length_le hroom)
  have hfit : sh.prop.length < values.length := by
    have hsize := (hchanged.shared.ok.entry id sh' hchanged.get).ok.size
    have hcount : sh'.prop.length = sh.prop.length + 1 := by
      rw [← length_keys, hkeys, List.length_append, length_keys, List.length_singleton]
    omega
  obtain ⟨rt₂, hset, hchanged₂⟩ := hchanged.setValue hfit v
  have htake' : values.take (keys sh.prop).length = (rt.objs p).prop.take (keys sh.prop).length := by
    rw [length_keys]
    exact htake
  have hlt : (keys sh.prop).length < values.length := by
    rw [length_keys]
    exact hfit
  have hfilled : Filled (keys sh.prop) values := filled_congr (Nat.le_of_lt hlt) htake' l.filled
  obtain ⟨hsound, hheap⟩ := hchanged₂.sound h l.mem (by rw [List.length_set]; exact hlength) (by
    rw [hkeys, ← length_keys sh.prop]
    exact filled_push hfilled hlt)
  refine ⟨rt₂, by rw [hadd]; exact hset, hsound, ?_⟩
  rw [hheap, hkeys, ← length_keys sh.prop, properties_push hatom hlt, properties_congr htake', hproto, l.entity]

/-- The value of a property is written. -/
theorem write_heap (h : Sound rt) {o : Entity V} (l : Looked rt p o sh) {pr : ShapeProperty} (hpr : sh.prop[i]? = some pr)
    (hatom : pr.atom ≠ 0) (v : V) :
    ∃ rt', rt.setValue p i v = some rt' ∧ Sound rt' ∧ rt'.heap = rt.heap.set p
      (some { o with props := o.props.map fun x => if x.1 = pr.atom then (x.1, x.2.1, v) else x }) := by
  have hkey := key_of_get hpr
  have hlt : i < (rt.objs p).prop.length := by
    have hi := (List.getElem?_eq_some_iff.mp hkey).1
    exact Nat.lt_of_lt_of_le hi l.filled.1
  obtain ⟨rt', hset, hchanged⟩ := (h.unchanged l.mem l.get).setValue hlt v
  obtain ⟨hsound, hheap⟩ := hchanged.sound h l.mem (by rw [List.length_set]; exact l.length) (filled_setValue l.filled v)
  refine ⟨rt', hset, hsound, ?_⟩
  rw [hheap, properties_setValue l.ok.nodup l.filled hatom hkey, l.entity]

/-! ## Changing the shape of one object -/

/-- A prepared shape. -/
def Shape.owned (sh : Shape) : Shape := { sh with refCount := 1, isHashed := false }

theorem prepareUpdate_changed (h : Sound rt) (hp : p ∈ rt.objects) (hsh : rt.shapes (rt.objs p).shape = some sh) :
    ∃ rt' id, rt.prepareUpdate p = some rt' ∧ id ∉ refsOf rt (rt.objects.erase p) ∧
      Changed (refsOf rt (rt.objects.erase p)) rt rt' p id sh.owned (rt.objs p).prop := by
  obtain ⟨rt', id, hgo, hshared, hid, hobjs, hget⟩ := prepareUpdate_spec (h.shapes.perm (refsOf_erase hp)) hsh
  exact ⟨rt', id, hgo, hid, hshared, hobjs, hget⟩

/-- A prepared shape and the values are written. -/
theorem Changed.replace (c : Changed refs rt rt₁ p id sh.owned values) (hid : id ∉ refs) (hok : ShapeOk sh') (hroomy : Roomy sh')
    (hcount : sh'.refCount = 1) (hflag : sh'.isHashed = false) (values' : List (Option V)) :
    Changed refs rt ((rt₁.setShape id (some sh')).setObj p ⟨id, values'⟩) p id sh' values' := by
  have hshared := replace_spec c.shared.ok hid c.get rfl hok hroomy hcount hflag
  refine ⟨c.shared.trans ⟨hshared.ok.setObj _ _, hshared.keeps, hshared.objects, hshared.arrayShapes⟩, ?_,
    Function.update_self _ _ _⟩
  show Function.update rt₁.objs p _ = _
  rw [c.objs, Function.update_idem]

theorem setObj_self (rt : Runtime V) (p : Nat) (hself : rt.objs p = ⟨id, values⟩) : rt.setObj p ⟨id, values⟩ = rt := by
  rw [← hself]
  show { rt with objs := Function.update rt.objs p (rt.objs p) } = rt
  rw [Function.update_eq_self]

theorem updatePropertyFlags_heap (h : Sound rt) {o : Entity V} (l : Looked rt p o sh) {pr : ShapeProperty}
    (hpr : sh.prop[i]? = some pr) (hatom : pr.atom ≠ 0) (hflags : flags < 2 ^ 6) :
    ∃ rt', rt.updatePropertyFlags p i flags = some rt' ∧ Sound rt' ∧ rt'.heap = rt.heap.set p
      (some { o with props := o.props.map fun x => if x.1 = pr.atom then (x.1, flags, x.2.2) else x }) := by
  have hkey := key_of_get hpr
  have hprops : properties ((keys sh.prop).modify i fun k => (k.1, flags)) (rt.objs p).prop =
      (properties (keys sh.prop) (rt.objs p).prop).map fun x => if x.1 = pr.atom then (x.1, flags, x.2.2) else x :=
    properties_setFlags l.ok.nodup hatom hkey
  by_cases hsame : flags = pr.flags
  · have hid : (keys sh.prop).modify i (fun k => (k.1, flags)) = keys sh.prop := by
      refine List.ext_getElem? fun j => ?_
      rw [List.getElem?_modify]
      by_cases hij : i = j
      · rw [← hij, hkey, hsame]
        simp
      · simp [hij]
    obtain ⟨hsound, hheap⟩ := (h.unchanged l.mem l.get).sound h l.mem l.length l.filled
    refine ⟨rt, ?_, hsound, ?_⟩
    · simp [Runtime.updatePropertyFlags, l.get, hpr, hsame]
    · rw [hid] at hprops
      rw [l.entity]
      show rt.heap = rt.heap.set p (some ⟨sh.proto, (properties (keys sh.prop) (rt.objs p).prop).map _⟩)
      rw [← hprops]
      exact hheap
  · obtain ⟨rt₁, id, hprepare, hid, hchanged⟩ := prepareUpdate_changed h l.mem l.get
    have hok : ShapeOk sh.owned := l.ok.relinked l.ok.index rfl l.ok.size rfl rfl
    obtain ⟨hok', hkeys⟩ := hok.setFlags (i := i) hflags
    have hroomy : Roomy (sh.owned.setFlags i flags) := by
      show (sh.prop.modify i _).length ≤ 2 * ((sh.prop.modify i _).length - _) + 7
      rw [List.length_modify]
      exact l.roomy
    have hreplaced := hchanged.replace hid hok' hroomy rfl rfl (rt.objs p).prop
    obtain ⟨hsound, hheap⟩ := hreplaced.sound h l.mem l.length (by
      rw [hkeys]
      exact filled_modify l.filled fun _ => rfl)
    refine ⟨_, ?_, hsound, ?_⟩
    · have hself : (rt₁.setShape id (some (sh.owned.setFlags i flags))).objs p = ⟨id, (rt.objs p).prop⟩ := hchanged.self
      rw [setObj_self _ _ hself]
      simp [Runtime.updatePropertyFlags, l.get, hpr, hsame, hprepare, hchanged.self, hchanged.get]
    · rw [hheap, hkeys, l.entity]
      show rt.heap.set p (some ⟨sh.proto, properties ((keys sh.prop).modify i _) (rt.objs p).prop⟩) = _
      rw [hprops]

end QuickJSBridge.Shapes
