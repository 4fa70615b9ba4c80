import QuickJSBridge.Engine.ObjectProperties

/-!
# Operations on objects over shared shapes

* `deleteProperty_heap`, `setPrototype_heap`, `newObject_heap`, `newArray_heap`, `freeObject_heap` and those for the
  shapes of arrays — each operation ends, keeps the runtime sound, and what it does to the heap;
* `lookup_heap` — a search over the prototypes ends, and finds the first holder.
-/

namespace QuickJSBridge.Shapes

open Chains

variable {V : Type} {rt rt' rt₁ rt₂ : Runtime V} {refs : List Nat} {p q id id' atom flags i : Nat} {sh sh' : Shape}
  {values values' : List (Option V)} {v : V} {o : Entity V}

/-! ## Deleting a property -/

/-- A name that the object does not have. -/
theorem filter_of_find_none (hfind : o.find atom = none) : (o.props.filter fun x => x.1 ≠ atom) = o.props := by
  refine List.filter_eq_self.mpr fun x hx => ?_
  have hnone := Option.map_eq_none_iff.mp hfind
  simpa using List.find?_eq_none.mp hnone x hx

theorem heap_set_self (ho : rt.heap.obj p = some o) : rt.heap.set p (some o) = rt.heap := by
  unfold Heap.set
  rw [← ho, Function.update_eq_self]

/-- The values that stay beside the names, when free entries are left out. -/
theorem kept_eq (prop : List ShapeProperty) (values : List (Option V)) :
    ((prop.zip values).filter fun pv => pv.1.atom ≠ 0).map Prod.snd =
      (((keys prop).zip values).filter fun kv => kv.1.1 ≠ 0).map Prod.snd := by
  unfold keys
  induction prop generalizing values with
  | nil => rfl
  | cons pr prop ih =>
    cases values with
    | nil => rfl
    | cons v values =>
      by_cases hzero : pr.atom = 0
      · simpa [hzero] using ih values
      · simpa [hzero] using ih values

/-- Where nothing is left out, enough entries are in use. -/
theorem roomy_of_few (hdeleted : sh.deletedPropCount ≤ sh.prop.length)
    (hfew : ¬ (8 ≤ sh.deletedPropCount ∧ sh.prop.length / 2 ≤ sh.deletedPropCount)) : Roomy sh := by
  unfold Roomy
  omega

/-- The end of `delete_property`: the entry is free, and the values may be compacted. -/
theorem compactProperties_changed (c : Changed refs rt rt₁ p id sh.owned values) (hid : id ∉ refs) (hok : ShapeOk sh')
    (hcount : sh'.refCount = 1) (hflag : sh'.isHashed = false) (hlength : values'.length = sh'.propSize)
    (hfilled : Filled (keys sh'.prop) values') :
    ∃ rt₂ sh₂ values₂, ((rt₁.setShape id (some sh')).setObj p ⟨id, values'⟩).compactProperties p = some rt₂ ∧
      Changed refs rt rt₂ p id sh₂ values₂ ∧ values₂.length = sh₂.propSize ∧ Filled (keys sh₂.prop) values₂ ∧
      sh₂.proto = sh'.proto ∧ properties (keys sh₂.prop) values₂ = properties (keys sh'.prop) values' := by
  have hself : ((rt₁.setShape id (some sh')).setObj p ⟨id, values'⟩).objs p = ⟨id, values'⟩ := Function.update_self _ _ _
  have hget : ((rt₁.setShape id (some sh')).setObj p ⟨id, values'⟩).shapes id = some sh' := Function.update_self _ _ _
  by_cases hmany : 8 ≤ sh'.deletedPropCount ∧ sh'.prop.length / 2 ≤ sh'.deletedPropCount
  · obtain ⟨hcompact, hkeys, hroomy, hlive⟩ := hok.compact
    obtain ⟨hkept, hfilled₂⟩ := filled_compact hfilled
    have hsize := hok.size
    have hfit : ¬ sh'.propSize < max 2 (sh'.prop.length - sh'.deletedPropCount) := by
      have hle : sh'.deletedPropCount ≤ sh'.prop.length := hok.deleted ▸ List.countP_le_length
      omega
    let kept := ((sh'.prop.zip values').filter fun pv => pv.1.atom ≠ 0).map Prod.snd
    have hkeptEq : kept = (((keys sh'.prop).zip values').filter fun kv => kv.1.1 ≠ 0).map Prod.snd := kept_eq _ _
    have hkeptLength : (keys sh'.compact.prop).length = kept.length := by
      rw [hkeys, hkeptEq]
      exact hkept
    have htake : (realloc kept sh'.compact.propSize).take (keys sh'.compact.prop).length =
        kept.take (keys sh'.compact.prop).length :=
      take_realloc (Nat.le_of_eq hkeptLength) (by rw [length_keys]; exact hcompact.size)
    have hrealloc : (keys sh'.compact.prop).length ≤ (realloc kept sh'.compact.propSize).length := by
      rw [length_realloc, length_keys]
      exact hcompact.size
    refine ⟨_, sh'.compact, realloc kept sh'.compact.propSize, ?_,
      c.replace hid hcompact hroomy hcount hflag _, length_realloc _ _, ?_, rfl, ?_⟩
    · have htwice : (((rt₁.setShape id (some sh')).setObj p ⟨id, values'⟩).setShape id (some sh'.compact)).setObj p
          ⟨id, realloc kept sh'.compact.propSize⟩ =
          (rt₁.setShape id (some sh'.compact)).setObj p ⟨id, realloc kept sh'.compact.propSize⟩ := by
        simp [Runtime.setShape, Runtime.setObj]
      rw [← htwice]
      unfold Runtime.compactProperties
      simp only [hself, hget, Option.bind_eq_bind, Option.bind_some]
      rw [if_pos hmany, if_neg (by simp [hflag, hfit])]
    · refine filled_congr hrealloc htake ?_
      rw [hkeys, hkeptEq]
      exact hfilled₂
    · rw [properties_congr htake, hkeys, hkeptEq, properties_compact]
  · have hroomy := roomy_of_few (hok.deleted ▸ List.countP_le_length) hmany
    refine ⟨_, sh', values', ?_, c.replace hid hok hroomy hcount hflag values', hlength, hfilled, rfl, rfl⟩
    unfold Runtime.compactProperties
    simp only [hself, hget, Option.bind_eq_bind, Option.bind_some]
    exact if_neg hmany

/-- What stays of a shape when an entry is taken out of it. -/
theorem remove_rest (sh : Shape) (atom : Nat) (lpr : Option Nat) (i next : Nat) :
    (sh.remove atom lpr i next).refCount = sh.refCount ∧ (sh.remove atom lpr i next).isHashed = sh.isHashed ∧
      (sh.remove atom lpr i next).propSize = sh.propSize ∧ (sh.remove atom lpr i next).proto = sh.proto := by
  cases lpr with
  | none => exact ⟨rfl, rfl, rfl, rfl⟩
  | some l => exact ⟨rfl, rfl, rfl, rfl⟩

theorem deleteProperty_heap (h : Sound rt) (ho : rt.heap.obj p = some o) (hatom : atom ≠ 0) :
    ∃ b rt', rt.deleteProperty p atom = some (b, rt') ∧ Sound rt' ∧
      if (o.find atom).any fun x => x.1 &&& propConfigurable = 0 then b = false ∧ rt'.heap = rt.heap
      else b = true ∧ rt'.heap = rt.heap.set p (some { o with props := o.props.filter fun x => x.1 ≠ atom }) := by
  obtain ⟨sh, l⟩ := h.look ho
  obtain ⟨r, hgo, hr⟩ := Shape.findDelete_spec l.ok.index hatom
  obtain ⟨own, -, hown⟩ := findOwnProperty_spec l hatom
  cases r with
  | none =>
    have hfind : o.find atom = none := by
      rcases hown with ⟨-, hfind, -⟩ | ⟨i, pr, w, -, hpr, heq, -⟩
      · exact hfind
      · exact absurd heq (hr pr (List.mem_of_getElem? hpr))
    refine ⟨true, rt, ?_, h, ?_⟩
    · simp [Runtime.deleteProperty, l.get, hgo]
    · rw [hfind, filter_of_find_none hfind]
      exact ⟨rfl, (heap_set_self ho).symm⟩
  | some found =>
    obtain ⟨lpr, i⟩ := found
    obtain ⟨hbucket, hleads, pr, hpr, heq⟩ := hr
    have hkey : (keys sh.prop)[i]? = some (atom, pr.flags) := heq ▸ key_of_get hpr
    obtain ⟨w, -, hfind⟩ := l.find_of_get hpr (heq ▸ hatom)
    rw [heq] at hfind
    by_cases hconf : pr.flags &&& propConfigurable = 0
    · refine ⟨false, rt, ?_, h, ?_⟩
      · simp [Runtime.deleteProperty, l.get, hgo, hpr, hconf]
      · rw [hfind, if_pos (by simpa using hconf)]
        exact ⟨rfl, rfl⟩
    · obtain ⟨rt₁, id, hprepare, hid, hchanged⟩ := prepareUpdate_changed h l.mem l.get
      have hok : ShapeOk sh.owned := l.ok.relinked l.ok.index rfl l.ok.size rfl rfl
      have hremoved : ShapeOk (sh.owned.remove atom lpr i pr.hashNext) := hok.remove hpr (heq ▸ hatom) hbucket hleads
      have hkeys : keys (sh.owned.remove atom lpr i pr.hashNext).prop = (keys sh.prop).modify i fun _ => (0, 0) := keys_remove
      obtain ⟨hcount, hflag, hsize, hproto⟩ := remove_rest sh.owned atom lpr i pr.hashNext
      have hlength : ((rt.objs p).prop.set i none).length = (sh.owned.remove atom lpr i pr.hashNext).propSize := by
        rw [List.length_set, hsize]
        exact l.length
      obtain ⟨rt₂, sh₂, values₂, hcompact, hchanged₂, hlength₂, hfilled₂, hproto₂, hprops₂⟩ :=
        compactProperties_changed hchanged hid hremoved hcount hflag hlength (hkeys ▸ filled_remove l.filled)
      obtain ⟨hsound, hheap⟩ := hchanged₂.sound h l.mem hlength₂ hfilled₂
      refine ⟨true, rt₂, ?_, hsound, ?_⟩
      · simp only [Runtime.deleteProperty, Option.bind_eq_bind, l.get, hgo, hpr, Option.bind_some, if_neg hconf, hprepare,
          hchanged.self, hchanged.get]
        exact congrArg (Option.bind · fun rt => some (true, rt)) hcompact
      · rw [hfind, if_neg (by simpa using hconf)]
        refine ⟨rfl, ?_⟩
        rw [hheap, hprops₂, hkeys, properties_remove l.ok.nodup hatom hkey, hproto₂, hproto, l.entity]
        rfl

/-! ## Prototypes -/

theorem next_of_get (hp : p ∈ rt.objects) (hsh : rt.shapes (rt.objs p).shape = some sh) : rt.heap.next p = sh.proto := by
  unfold Heap.next
  rw [heap_of_mem hp, hsh]
  rfl

/-- A chain of objects is not longer than the list of all objects. -/
theorem chain_length_le {start : Option Nat} {l : List Nat} (hg : rt.heap.Grounded) (hl : Chain rt.heap.next start l)
    (hstart : rt.heap.Exists start) : (∀ x ∈ l, x ∈ rt.objects) ∧ l.length ≤ rt.objects.length := by
  have hmem : ∀ x ∈ l, x ∈ rt.objects := fun x hx =>
    let ⟨_, ho⟩ := hg.mem_chain hl hstart x hx
    mem_objects_of_heap ho
  exact ⟨hmem, hl.length_le hmem⟩

/-- The loop of `JS_SetPrototypeInternal` goes along the chain. -/
theorem inChain_eq (h : Sound rt) (p : Nat) {start : Option Nat} {l : List Nat} (hl : Chain rt.heap.next start l) {n : Nat}
    (hn : l.length ≤ n) (hmem : ∀ x ∈ l, x ∈ rt.objects) : rt.inChain p n start = some (decide (p ∈ l)) := by
  induction hl generalizing n with
  | nil =>
    cases n with
    | zero => rfl
    | succ n => rfl
  | @cons x l _ ih =>
    cases n with
    | zero => exact absurd hn (Nat.not_succ_le_zero _)
    | succ n =>
      have hx := hmem x List.mem_cons_self
      obtain ⟨sh, hsh⟩ := h.get hx
      have hrest := ih (Nat.le_of_succ_le_succ hn) fun y hy => hmem y (List.mem_cons_of_mem x hy)
      rw [next_of_get hx hsh] at hrest
      by_cases hxp : x = p
      · simp [Runtime.inChain, hxp]
      · have hpx : p ≠ x := fun heq => hxp heq.symm
        simp [Runtime.inChain, hxp, hpx, hsh, hrest]

theorem setPrototype_heap (h : Sound rt) (hg : rt.heap.Grounded) (ho : rt.heap.obj p = some o) {proto : Option Nat}
    (hproto : rt.heap.Exists proto) :
    ∃ b rt', rt.setPrototype p proto = some (b, rt') ∧ Sound rt' ∧
      (p ∈ rt.heap.chain proto → b = false ∧ rt'.heap = rt.heap) ∧
      (p ∉ rt.heap.chain proto → b = true ∧ rt'.heap = rt.heap.set p (some { o with proto := proto })) := by
  obtain ⟨sh, l⟩ := h.look ho
  by_cases hsame : sh.proto = proto
  · have hentity : { o with proto := proto } = o := by
      rw [l.entity, hsame]
    have hnot : p ∉ rt.heap.chain proto := by
      have hself := hg.not_mem_proto ho
      rw [← hentity] at hself
      exact hself
    refine ⟨true, rt, ?_, h, fun hin => absurd hin hnot, fun _ => ⟨rfl, ?_⟩⟩
    · simp [Runtime.setPrototype, l.get, hsame]
    · rw [hentity]
      exact (heap_set_self ho).symm
  · have hchain : Chain rt.heap.next proto (rt.heap.chain proto) := (hg.ends proto).chain
    obtain ⟨hmem, hle⟩ := chain_length_le hg hchain hproto
    have hloop := inChain_eq h p hchain (Nat.le_succ_of_le hle) hmem
    by_cases hin : p ∈ rt.heap.chain proto
    · refine ⟨false, rt, ?_, h, fun _ => ⟨rfl, rfl⟩, fun hnot => absurd hin hnot⟩
      simp [Runtime.setPrototype, l.get, hsame, hloop, hin]
    · obtain ⟨rt₁, id, hprepare, hid, hchanged⟩ := prepareUpdate_changed h l.mem l.get
      have hok : ShapeOk { sh.owned with proto := proto } := l.ok.relinked l.ok.index rfl l.ok.size rfl rfl
      have hreplaced := hchanged.replace hid hok l.roomy rfl rfl (rt.objs p).prop
      obtain ⟨hsound, hheap⟩ := hreplaced.sound h l.mem l.length l.filled
      refine ⟨true, _, ?_, hsound, fun hin' => absurd hin' hin, fun _ => ⟨rfl, ?_⟩⟩
      · have hself : (rt₁.setShape id (some { sh.owned with proto := proto })).objs p = ⟨id, (rt.objs p).prop⟩ :=
          hchanged.self
        rw [setObj_self _ _ hself]
        simp [Runtime.setPrototype, l.get, hsame, hloop, hin, hprepare, hchanged.self, hchanged.get]
      · rw [hheap, l.entity]
        rfl

/-- The loop of `JS_GetPropertyInternal` finds the first on the chain that has the property. -/
theorem lookup_eq (h : Sound rt) (hatom : atom ≠ 0) {start : Option Nat} {l : List Nat} (hl : Chain rt.heap.next start l) {n : Nat}
    (hn : l.length ≤ n) (hmem : ∀ x ∈ l, x ∈ rt.objects) :
    rt.lookup atom n start =
      some (l.findSome? fun q => ((rt.heap.obj q).bind (·.find atom)).map fun x => (q, x)) := by
  induction hl generalizing n with
  | nil =>
    cases n with
    | zero => rfl
    | succ n => rfl
  | @cons x l _ ih =>
    cases n with
    | zero => exact absurd hn (Nat.not_succ_le_zero _)
    | succ n =>
      have hx := hmem x List.mem_cons_self
      have hrest := ih (Nat.le_of_succ_le_succ hn) fun y hy => hmem y (List.mem_cons_of_mem x hy)
      obtain ⟨sh, hsh⟩ := h.get hx
      have ho : rt.heap.obj x = some ⟨sh.proto, properties (keys sh.prop) (rt.objs x).prop⟩ := by
        rw [heap_of_mem hx, hsh]
        rfl
      obtain ⟨sh', l'⟩ := h.look ho
      obtain rfl : sh = sh' := Option.some.inj (hsh.symm.trans l'.get)
      rw [next_of_get hx hsh] at hrest
      obtain ⟨r, hfind, hr⟩ := findOwnProperty_spec l' hatom
      have hshape : sh.find atom = some r := by
        unfold Runtime.findOwnProperty at hfind
        rw [hsh] at hfind
        exact hfind
      rcases hr with ⟨rfl, hnone, -⟩ | ⟨i, pr, w, rfl, hpr, -, hv, hsome⟩
      · rw [List.findSome?_cons, ho, Option.bind_some, hnone]
        simp [Runtime.lookup, hsh, hshape, hrest]
      · rw [List.findSome?_cons, ho, Option.bind_some, hsome]
        simp [Runtime.lookup, hsh, hshape, hpr, hv]

theorem lookup_heap (h : Sound rt) (hg : rt.heap.Grounded) (ho : rt.heap.obj p = some o) (hatom : atom ≠ 0) :
    rt.lookup atom rt.objects.length (some p) = some (rt.heap.lookup atom (some p)) := by
  have hchain : Chain rt.heap.next (some p) (rt.heap.chain (some p)) := (hg.ends _).chain
  have hstart : rt.heap.Exists (some p) := fun q hq => ⟨o, Option.some.inj hq ▸ ho⟩
  obtain ⟨hmem, hle⟩ := chain_length_le hg hchain hstart
  exact lookup_eq h hatom hchain hle hmem

/-! ## Objects and array shapes come and go -/

theorem not_mem_of_heap (h : Sound rt) (ho : rt.heap.obj p = none) : p ∉ rt.objects := fun hp => by
  obtain ⟨sh, hsh⟩ := h.get hp
  rw [heap_of_mem hp, hsh] at ho
  cases ho

/-- An object is made with a shape that was taken for it. -/
theorem newObjectFromShape_put (h : Sound rt) (hp : p ∉ rt.objects)
    (hs : Shared (id :: refsOf rt rt.objects) (refsOf rt rt.objects) rt rt₁) (hobjs : rt₁.objs = rt.objs)
    (hget : rt₁.shapes id = some sh) :
    ∃ rt₂, rt₁.newObjectFromShape p id = some rt₂ ∧ rt₂.objs p = ⟨id, List.replicate sh.propSize none⟩ ∧
      ∀ values, values.length = sh.propSize → Filled (keys sh.prop) values → Sound (rt₂.setObj p ⟨id, values⟩) ∧
        (rt₂.setObj p ⟨id, values⟩).heap = rt.heap.set p (some ⟨sh.proto, properties (keys sh.prop) values⟩) := by
  have herase : rt.objects.erase p = rt.objects := List.erase_of_not_mem hp
  have hnew : rt₁.newObjectFromShape p id = some { rt₁ with
      objects := p :: rt₁.objects
      objs := Function.update rt₁.objs p ⟨id, List.replicate sh.propSize none⟩ } := by
    simp [Runtime.newObjectFromShape, hget]
  refine ⟨_, hnew, Function.update_self _ _ _, fun values hlength hfilled => ?_⟩
  refine sound_put h ?_ ?_ ?_ hs.arrayShapes ?_ hget hlength hfilled
  · rw [herase]
    exact List.Perm.of_eq (congrArg (p :: ·) hs.objects)
  · rw [herase]
    exact hs.ok.withObjects rfl rfl rfl rfl
  · rw [herase]
    exact hs.keeps
  · show Function.update (Function.update rt₁.objs p _) p _ = _
    rw [Function.update_idem, hobjs]

theorem filled_nil (values : List (Option V)) : Filled [] values := ⟨Nat.zero_le _, fun _ _ hk => by cases hk⟩

theorem newObject_heap (h : Sound rt) (ho : rt.heap.obj p = none) (proto : Option Nat) :
    ∃ rt', rt.newObject p proto = some rt' ∧ Sound rt' ∧ rt'.heap = rt.heap.set p (some ⟨proto, []⟩) := by
  have hp := not_mem_of_heap h ho
  -- a shape is found, or made
  obtain ⟨rt₁, id, sh, htake, hs, hobjs, hget, hkeys, hproto⟩ : ∃ rt₁ id sh,
      ((rt.findHashedShapeProto proto).bind fun r => r.elim (rt.newShape proto 4 2) fun id =>
        (rt.dupShape id).map fun rt => (id, rt)) = some (id, rt₁) ∧
      Shared (id :: refsOf rt rt.objects) (refsOf rt rt.objects) rt rt₁ ∧ rt₁.objs = rt.objs ∧ rt₁.shapes id = some sh ∧
      keys sh.prop = [] ∧ sh.proto = proto := by
    obtain ⟨r, hfind, hr⟩ := findHashedShapeProto_spec h.shapes proto
    cases r with
    | none =>
      obtain ⟨rt₁, hgo, hs, hobjs, hget⟩ := newShape_spec h.shapes proto (show 0 < 4 by decide) 2
      exact ⟨rt₁, _, _, by rw [hfind]; exact hgo, hs, hobjs, hget, rfl, rfl⟩
    | some id =>
      obtain ⟨sh, hsh, hflag, hproto, hkeys⟩ := hr id rfl
      obtain ⟨rt₁, hgo, hs, hobjs⟩ := dupShape_spec h.shapes ⟨sh, hsh, hflag⟩
      obtain ⟨sh', hget, hprop, -, hproto', -⟩ := body_of_get (hs.keeps id ((h.shapes.alive id).mp ⟨sh, hsh⟩)) hsh
      refine ⟨rt₁, id, sh', ?_, hs, hobjs, hget, by rw [hprop, hkeys], hproto'.trans hproto⟩
      rw [hfind, Option.bind_some, Option.elim_some, hgo]
      rfl
  obtain ⟨rt₂, hnew, hself, hput⟩ := newObjectFromShape_put h hp hs hobjs hget
  obtain ⟨hsound, hheap⟩ := hput _ List.length_replicate (hkeys ▸ filled_nil _)
  rw [setObj_self _ _ hself] at hsound hheap
  refine ⟨rt₂, ?_, hsound, ?_⟩
  · obtain ⟨r, hfind, htake⟩ := Option.bind_eq_some_iff.mp htake
    cases r with
    | none =>
      have htake' : rt.newShape proto 4 2 = some (id, rt₁) := htake
      simp [Runtime.newObject, hfind, htake', hnew]
    | some x =>
      obtain ⟨rt₁', hdup, heq⟩ := Option.map_eq_some_iff.mp htake
      obtain ⟨rfl, rfl⟩ := Prod.mk.inj heq
      simp [Runtime.newObject, hfind, hdup, hnew]
  · rw [hheap, hproto, hkeys]
    rfl

theorem arrayShapes_get {k : Nat} (hk : k < rt.heap.arrays.length) :
    ∃ id, rt.arrayShapes[k]? = some id ∧ rt.arrayShapes.Perm (id :: rt.arrayShapes.eraseIdx k) := by
  have hk' : k < rt.arrayShapes.length := by
    unfold Runtime.heap at hk
    rw [List.length_map] at hk
    exact hk
  exact ⟨_, List.getElem?_eq_getElem hk', (List.getElem_cons_eraseIdx_perm hk').symm⟩

theorem arrays_get {k : Nat} (hid : rt.arrayShapes[k]? = some id) :
    rt.heap.arrays.getD k none = (rt.shapes id).bind (·.proto) := by
  have hget : rt.heap.arrays[k]? = some ((rt.shapes id).bind (·.proto)) := by
    unfold Runtime.heap
    rw [List.getElem?_map, hid]
    rfl
  rw [List.getD_eq_getElem?_getD, hget]
  rfl

theorem newArray_heap (h : Sound rt) (ho : rt.heap.obj p = none) {k : Nat} (hk : k < rt.heap.arrays.length) (zero : V) :
    ∃ rt', rt.newArray p k zero = some rt' ∧ Sound rt' ∧ rt'.heap =
      rt.heap.set p (some ⟨rt.heap.arrays.getD k none, [(atomLength, arrayLengthFlags, zero)]⟩) := by
  have hp := not_mem_of_heap h ho
  obtain ⟨id, hid, -⟩ := arrayShapes_get hk
  have hmem := List.mem_of_getElem? hid
  obtain ⟨sh, hsh⟩ := h.shapes.get (array_mem_refsOf rt.objects hmem)
  obtain ⟨hflag, hkeys⟩ := h.arrays id hmem sh hsh
  obtain ⟨rt₁, hdup, hs, hobjs⟩ := dupShape_spec h.shapes ⟨sh, hsh, hflag⟩
  obtain ⟨sh', hget, hprop, -, hproto, -⟩ := body_of_get (hs.keeps id (array_mem_refsOf rt.objects hmem)) hsh
  have hkeys' : keys sh'.prop = [(atomLength, arrayLengthFlags)] := by
    rw [hprop, hkeys]
  have hsize : 0 < sh'.propSize := by
    have hle := (hs.ok.entry id sh' hget).ok.size
    rw [← length_keys, hkeys'] at hle
    exact hle
  obtain ⟨rt₂, hnew, hself, hput⟩ := newObjectFromShape_put h hp hs hobjs hget
  have hroom : ([] : List (Nat × Nat)).length < (List.replicate sh'.propSize (none : Option V)).length := by
    rw [List.length_replicate]
    exact hsize
  obtain ⟨hsound, hheap⟩ := hput ((List.replicate sh'.propSize none).set 0 (some zero))
    (by rw [List.length_set, List.length_replicate])
    (by rw [hkeys']; exact filled_push (filled_nil _) hroom)
  refine ⟨_, ?_, hsound, ?_⟩
  · simp [Runtime.newArray, hid, hdup, hnew, Runtime.setValue, hself, hsize]
  · have hprops : properties [(atomLength, arrayLengthFlags)] ((List.replicate sh'.propSize none).set 0 (some zero)) =
        [(atomLength, arrayLengthFlags, zero)] := properties_push (by decide) hroom
    rw [hheap, hkeys', hprops, arrays_get hid, hsh, hproto]
    rfl

/-- Objects go, or array shapes come and go; what stays is as it was. -/
theorem sound_rest (h : Sound rt) (rt' : Runtime V) (hsub : rt'.objects.Sublist rt.objects) (hobjs : rt'.objs = rt.objs)
    (hshapes : ShapesOk (refsOf rt' rt'.objects) rt')
    (hkeeps : Keeps (rt'.objects.map fun q => (rt.objs q).shape) rt rt')
    (harrays : ∀ id ∈ rt'.arrayShapes, ∀ sh, rt'.shapes id = some sh →
      sh.isHashed = true ∧ keys sh.prop = [(atomLength, arrayLengthFlags)]) :
    Sound rt' ∧ ∀ q, rt'.heap.obj q = if q ∈ rt'.objects then rt.heap.obj q else none := by
  refine ⟨⟨hshapes, h.nodup.sublist hsub, fun q hq s hs => ?_, harrays⟩, fun q => ?_⟩
  · have hq' := hsub.subset hq
    rw [hobjs] at hs ⊢
    obtain ⟨s₀, hs₀, hprop, hsize, -⟩ := hkeeps.get (List.mem_map_of_mem hq) (h.get hq') hs
    rw [hprop, hsize]
    exact h.values q hq' s₀ hs₀
  · by_cases hq : q ∈ rt'.objects
    · rw [if_pos hq, heap_of_mem hq, heap_of_mem (hsub.subset hq), hobjs]
      exact entityOf_congr (hkeeps _ (List.mem_map_of_mem hq)) _
    · rw [if_neg hq]
      exact if_neg hq

/-- No object came or went. -/
theorem obj_same (hobjects : rt'.objects = rt.objects)
    (hobj : ∀ q, rt'.heap.obj q = if q ∈ rt'.objects then rt.heap.obj q else none) : rt'.heap.obj = rt.heap.obj := by
  funext q
  rw [hobj, hobjects]
  by_cases hq : q ∈ rt.objects
  · exact if_pos hq
  · exact (if_neg hq).trans (if_neg hq).symm

theorem newArrayShape_heap (h : Sound rt) (proto : Option Nat) :
    ∃ rt', rt.newArrayShape proto = some rt' ∧ Sound rt' ∧
      rt'.heap = { rt.heap with arrays := rt.heap.arrays ++ [proto] } := by
  obtain ⟨rt₁, hnew, hs₁, hobjs₁, hget₁⟩ := newShape_spec h.shapes proto (show 0 < 4 by decide) 1
  have hfresh := h.shapes.next_not_mem
  obtain ⟨rt₂, sh, hadd, hs₂, hobjs₂, hget₂, hkeys, -, hproto, hflag⟩ := addShapeProperty_spec hs₁.ok hfresh hget₁
    (show atomLength ≠ 0 by decide) (fun pr hpr => absurd hpr List.not_mem_nil) (show arrayLengthFlags < 2 ^ 6 by decide)
    (show ([] : List ShapeProperty).length < 2 ^ 26 by decide) none
  have hkeeps : Keeps (refsOf rt rt.objects) rt rt₂ := hs₁.keeps.trans hs₂.keeps
  have hobjs : rt₂.objs = rt.objs := by
    rw [hobjs₂]
    unfold grownObjs
    split
    · exact hobjs₁
    · exact hobjs₁
  have hobjects : rt₂.objects = rt.objects := hs₂.objects.trans hs₁.objects
  have harrays : rt₂.arrayShapes = rt.arrayShapes := hs₂.arrayShapes.trans hs₁.arrayShapes
  let rt' : Runtime V := { rt₂ with arrayShapes := rt₂.arrayShapes ++ [rt.nextShape] }
  have hrefs : refsOf rt' rt'.objects = refsOf rt rt.objects ++ [rt.nextShape] := by
    show (rt₂.objects.map fun q => (rt₂.objs q).shape) ++ (rt₂.arrayShapes ++ [rt.nextShape]) = _
    rw [hobjects, hobjs, harrays]
    exact (List.append_assoc _ _ _).symm
  have hok : ShapesOk (refsOf rt' rt'.objects) rt' := by
    rw [hrefs]
    exact (hs₂.ok.perm (List.perm_append_singleton _ _).symm).withObjects rfl rfl rfl rfl
  have hsub : (rt₂.objects.map fun q => (rt.objs q).shape) ⊆ refsOf rt rt.objects := by
    rw [hobjects]
    exact List.subset_append_left _ _
  obtain ⟨hsound, hobj⟩ := sound_rest h rt' (hobjects ▸ List.Sublist.refl _) hobjs hok (hkeeps.mono hsub)
    (fun id hid s hsh => by
      rcases List.mem_append.mp hid with hid | hid
      · rw [harrays] at hid
        exact array_kept h hkeeps hid (array_mem_refsOf rt.objects hid) hsh
      · rw [List.mem_singleton.mp hid] at hsh
        obtain rfl : sh = s := Option.some.inj (hget₂.symm.trans hsh)
        exact ⟨hflag, hkeys⟩)
  refine ⟨rt', ?_, hsound, ?_⟩
  · simp [Runtime.newArrayShape, hnew, hadd, rt']
  · refine congr (congrArg Heap.mk (obj_same hobjects hobj)) ?_
    · show (rt₂.arrayShapes ++ [rt.nextShape]).map _ = _
      rw [List.map_append, harrays]
      refine congr (congrArg _ (arrays_congr hkeeps fun x hx => array_mem_refsOf _ hx)) ?_
      rw [List.map_singleton, hget₂]
      exact congrArg (· :: []) hproto

theorem freeArrayShape_heap (h : Sound rt) {k : Nat} (hk : k < rt.heap.arrays.length) :
    ∃ rt', rt.freeArrayShape k = some rt' ∧ Sound rt' ∧
      rt'.heap = { rt.heap with arrays := rt.heap.arrays.eraseIdx k } := by
  obtain ⟨id, hid, hperm⟩ := arrayShapes_get hk
  have hrefs : (refsOf rt rt.objects).Perm (id :: ((rt.objects.map fun q => (rt.objs q).shape) ++ rt.arrayShapes.eraseIdx k)) :=
    ((List.Perm.refl _).append hperm).trans List.perm_middle
  obtain ⟨rt₁, hfree, hs, hobjs, -⟩ := freeShape_spec (h.shapes.perm hrefs)
  let rt' : Runtime V := { rt₁ with arrayShapes := rt₁.arrayShapes.eraseIdx k }
  have hrefs' : refsOf rt' rt'.objects = (rt.objects.map fun q => (rt.objs q).shape) ++ rt.arrayShapes.eraseIdx k := by
    show (rt₁.objects.map fun q => (rt₁.objs q).shape) ++ rt₁.arrayShapes.eraseIdx k = _
    rw [hs.objects, hobjs, hs.arrayShapes]
  have hok : ShapesOk (refsOf rt' rt'.objects) rt' := by
    rw [hrefs']
    exact hs.ok.withObjects rfl rfl rfl rfl
  have hsub : (rt₁.objects.map fun q => (rt.objs q).shape) ⊆
      (rt.objects.map fun q => (rt.objs q).shape) ++ rt.arrayShapes.eraseIdx k := by
    rw [hs.objects]
    exact List.subset_append_left _ _
  obtain ⟨hsound, hobj⟩ := sound_rest h rt' (hs.objects ▸ List.Sublist.refl _) hobjs hok (hs.keeps.mono hsub)
    (fun x hx s hsh => by
      have hx' : x ∈ rt.arrayShapes.eraseIdx k := hs.arrayShapes ▸ hx
      exact array_kept h hs.keeps (List.mem_of_mem_eraseIdx hx') (List.mem_append_right _ hx') hsh)
  refine ⟨rt', ?_, hsound, ?_⟩
  · simp [Runtime.freeArrayShape, hid, hfree, rt']
  · refine congr (congrArg Heap.mk (obj_same hs.objects hobj)) ?_
    · show (rt₁.arrayShapes.eraseIdx k).map _ = (rt.arrayShapes.map _).eraseIdx k
      rw [hs.arrayShapes, List.eraseIdx_map]
      refine List.map_congr_left fun x hx => ?_
      obtain ⟨s, hsx⟩ := h.shapes.get (array_mem_refsOf rt.objects (List.mem_of_mem_eraseIdx hx))
      obtain ⟨s', hsx', -, -, hproto, -⟩ := body_of_get (hs.keeps x (List.mem_append_right _ hx)) hsx
      rw [hsx, hsx']
      exact hproto

theorem freeObject_heap (h : Sound rt) (ho : rt.heap.obj p = some o) :
    ∃ rt', rt.freeObject p = some rt' ∧ Sound rt' ∧ rt'.heap = rt.heap.set p none := by
  have hp := mem_objects_of_heap ho
  obtain ⟨rt₁, hfree, hs, hobjs, -⟩ := freeShape_spec (h.shapes.perm (refsOf_erase hp))
  let rt' : Runtime V := { rt₁ with objects := rt₁.objects.erase p }
  have hobjects : rt'.objects = rt.objects.erase p := congrArg (·.erase p) hs.objects
  have hrefs : refsOf rt' rt'.objects = refsOf rt (rt.objects.erase p) := by
    show (rt'.objects.map fun q => (rt₁.objs q).shape) ++ rt₁.arrayShapes = _
    rw [hobjects, hobjs, hs.arrayShapes]
    rfl
  have hok : ShapesOk (refsOf rt' rt'.objects) rt' := by
    rw [hrefs]
    exact hs.ok.withObjects rfl rfl rfl rfl
  have hsub : (rt'.objects.map fun q => (rt.objs q).shape) ⊆ refsOf rt (rt.objects.erase p) := by
    rw [hobjects]
    exact List.subset_append_left _ _
  obtain ⟨hsound, hobj⟩ := sound_rest h rt' (hobjects ▸ List.erase_sublist) hobjs hok (hs.keeps.mono hsub)
    (fun x hx s hsh => by
      have hx' : x ∈ rt.arrayShapes := hs.arrayShapes ▸ hx
      exact array_kept h hs.keeps hx' (array_mem_refsOf _ hx') hsh)
  refine ⟨rt', ?_, hsound, ?_⟩
  · simp [Runtime.freeObject, hfree, rt']
  · refine congr (congrArg Heap.mk (funext fun q => (hobj q).trans ?_)) ?_
    · rw [hobjects]
      by_cases hq : q = p
      · rw [hq, Function.update_self]
        exact if_neg fun hin => (h.nodup.mem_erase_iff.mp hin).1 rfl
      · rw [Function.update_of_ne hq]
        by_cases hin : q ∈ rt.objects
        · exact if_pos (h.nodup.mem_erase_iff.mpr ⟨hq, hin⟩)
        · exact (if_neg fun hin' => hin (List.mem_of_mem_erase hin')).trans (if_neg hin).symm
    · show rt₁.arrayShapes.map _ = _
      rw [hs.arrayShapes]
      exact arrays_congr hs.keeps fun x hx => array_mem_refsOf _ hx

end QuickJSBridge.Shapes
