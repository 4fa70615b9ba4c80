import QuickJSBridge.Engine.ObjectOperations

/-!
# Runs over shared shapes

* `Runtime.perform`, `Runtime.run` — the operations as the rest of the engine makes them of the functions on shapes;
* `perform_heap`, `run_heap` — each of them ends, and gives what it gives on objects that are property lists;
* `runs_agree` — so does every run from the start;
* `runs_counted` — in every run the shapes that there are are those in use, with the right counts, and the table
  has those that can be shared.
-/

namespace QuickJSBridge.Shapes

variable {V : Type} {rt rt' : Runtime V} {p atom flags : Nat} {o : Entity V} {v : V}

namespace Runtime

/-- An own property, as `find_own_property` gives it to its callers. -/
def readOwn (rt : Runtime V) (p atom : Nat) : Option (Option (Nat × V)) := do
  match ← rt.findOwnProperty p atom with
  | none => some none
  | some i => do
    let sh ← rt.shapes (rt.objs p).shape
    let pr ← sh.prop[i]?
    let v ← (rt.objs p).prop[i]?
    let v ← v
    some (some (pr.flags, v))

/-- What is done with a property if the object has it. -/
def ifOwn (rt : Runtime V) (p atom : Nat) (f : Nat → Option (Runtime V)) : Option (Result V × Runtime V) := do
  match ← rt.findOwnProperty p atom with
  | none => some (.bool false, rt)
  | some i => (f i).map fun rt => (.bool true, rt)

def perform (rt : Runtime V) : Op V → Option (Result V × Runtime V)
  | .create p proto => (rt.newObject p proto).map fun rt => (.done, rt)
  | .newArrayShape proto => (rt.newArrayShape proto).map fun rt => (.done, rt)
  | .newArray p k zero => (rt.newArray p k zero).map fun rt => (.done, rt)
  | .freeArrayShape k => (rt.freeArrayShape k).map fun rt => (.done, rt)
  | .own p atom => (rt.readOwn p atom).map fun found => (.own found, rt)
  | .add p atom flags v =>
    ((rt.addProperty p atom flags).bind fun r => r.2.setValue p r.1 v).map fun rt => (.done, rt)
  | .write p atom v => rt.ifOwn p atom fun i => rt.setValue p i v
  | .setFlags p atom flags => rt.ifOwn p atom fun i => rt.updatePropertyFlags p i flags
  | .delete p atom => (rt.deleteProperty p atom).map fun r => (.bool r.1, r.2)
  | .setPrototype p proto => (rt.setPrototype p proto).map fun r => (.bool r.1, r.2)
  | .lookup p atom => (rt.lookup atom rt.objects.length (some p)).map fun found => (.holder found, rt)
  | .free p => (rt.freeObject p).map fun rt => (.done, rt)

def run (rt : Runtime V) : List (Op V) → Option (List (Result V) × Runtime V)
  | [] => some ([], rt)
  | op :: rest => (rt.perform op).bind fun r => (r.2.run rest).map fun s => (r.1 :: s.1, s.2)

end Runtime

/-! ## One operation -/

theorem modify_of_get (ho : rt.heap.obj p = some o) (f : Entity V → Entity V) :
    rt.heap.modify p f = rt.heap.set p (some (f o)) := by
  unfold Heap.modify
  rw [ho]
  rfl

theorem readOwn_eq (h : Sound rt) (ho : rt.heap.obj p = some o) (hatom : atom ≠ 0) :
    rt.readOwn p atom = some (o.find atom) := by
  obtain ⟨sh, l⟩ := h.look ho
  obtain ⟨r, hfind, hr⟩ := findOwnProperty_spec l hatom
  rcases hr with ⟨rfl, hnone, -⟩ | ⟨i, pr, w, rfl, hpr, -, hv, hsome⟩
  · simp [Runtime.readOwn, hfind, hnone]
  · simp [Runtime.readOwn, hfind, l.get, hpr, hv, hsome]

/-- A change of the property of a name, if there is one. -/
theorem ifOwn_heap (h : Sound rt) (ho : rt.heap.obj p = some o) (hatom : atom ≠ 0) (f : Nat → Option (Runtime V))
    (g : Property V → Property V)
    (hf : ∀ sh i pr, Looked rt p o sh → sh.prop[i]? = some pr → pr.atom = atom → ∃ rt', f i = some rt' ∧ Sound rt' ∧
      rt'.heap = rt.heap.set p (some { o with props := o.props.map fun x => if x.1 = atom then g x else x })) :
    ∃ rt', rt.ifOwn p atom f = some (.bool (o.find atom).isSome, rt') ∧ Sound rt' ∧
      rt'.heap = rt.heap.set p (some { o with props := o.props.map fun x => if x.1 = atom then g x else x }) := by
  obtain ⟨sh, l⟩ := h.look ho
  obtain ⟨r, hfind, hr⟩ := findOwnProperty_spec l hatom
  rcases hr with ⟨rfl, hnone, -⟩ | ⟨i, pr, w, rfl, hpr, heq, -, hsome⟩
  · have hprops : (o.props.map fun x => if x.1 = atom then g x else x) = o.props := by
      refine (List.map_congr_left fun x hx => ?_).trans (List.map_id o.props)
      have hne := List.find?_eq_none.mp (Option.map_eq_none_iff.mp hnone) x hx
      exact if_neg (by simpa using hne)
    refine ⟨rt, ?_, h, ?_⟩
    · simp [Runtime.ifOwn, hfind, hnone]
    · rw [hprops]
      exact (heap_set_self ho).symm
  · obtain ⟨rt', hgo, hsound, hheap⟩ := hf sh i pr l hpr heq
    refine ⟨rt', ?_, hsound, hheap⟩
    simp [Runtime.ifOwn, hfind, hgo, hsome]

theorem perform_heap (h : Sound rt) (hg : rt.heap.Grounded) {op : Op V} (hop : rt.heap.Allowed op) :
    ∃ rt', rt.perform op = some ((rt.heap.perform op).1, rt') ∧ Sound rt' ∧ rt'.heap = (rt.heap.perform op).2 := by
  cases op with
  | create p proto =>
    obtain ⟨rt', hgo, hsound, hheap⟩ := newObject_heap h hop.1 proto
    exact ⟨rt', congrArg (Option.map _) hgo, hsound, hheap⟩
  | newArrayShape proto =>
    obtain ⟨rt', hgo, hsound, hheap⟩ := newArrayShape_heap h proto
    exact ⟨rt', congrArg (Option.map _) hgo, hsound, hheap⟩
  | newArray p k zero =>
    obtain ⟨rt', hgo, hsound, hheap⟩ := newArray_heap h hop.1 hop.2 zero
    exact ⟨rt', congrArg (Option.map _) hgo, hsound, hheap⟩
  | freeArrayShape k =>
    obtain ⟨rt', hgo, hsound, hheap⟩ := freeArrayShape_heap h hop
    exact ⟨rt', congrArg (Option.map _) hgo, hsound, hheap⟩
  | own p atom =>
    obtain ⟨⟨o, ho⟩, hatom⟩ := hop
    refine ⟨rt, ?_, h, rfl⟩
    simp [Runtime.perform, Heap.perform, readOwn_eq h ho hatom, ho]
  | add p atom flags v =>
    obtain ⟨o, ho, hatom, hnew, hflags, hroom⟩ := hop
    obtain ⟨rt', hgo, hsound, hheap⟩ := add_heap h ho hatom hnew hflags hroom v
    refine ⟨rt', congrArg (Option.map _) hgo, hsound, hheap.trans ?_⟩
    show _ = rt.heap.modify p _
    rw [modify_of_get ho]
  | write p atom v =>
    obtain ⟨⟨o, ho⟩, hatom⟩ := hop
    obtain ⟨rt', hgo, hsound, hheap⟩ := ifOwn_heap h ho hatom (fun i => rt.setValue p i v) (fun x => (x.1, x.2.1, v))
      fun sh i pr l hpr heq => heq ▸ write_heap h l hpr (heq ▸ hatom) v
    refine ⟨rt', ?_, hsound, hheap.trans ?_⟩
    · rw [Heap.perform, ho]
      exact hgo
    · show _ = rt.heap.modify p _
      rw [modify_of_get ho]
  | setFlags p atom flags =>
    obtain ⟨⟨o, ho⟩, hatom, hflags⟩ := hop
    obtain ⟨rt', hgo, hsound, hheap⟩ := ifOwn_heap h ho hatom (fun i => rt.updatePropertyFlags p i flags)
      (fun x => (x.1, flags, x.2.2)) fun sh i pr l hpr heq => heq ▸ updatePropertyFlags_heap h l hpr (heq ▸ hatom) hflags
    refine ⟨rt', ?_, hsound, hheap.trans ?_⟩
    · rw [Heap.perform, ho]
      exact hgo
    · show _ = rt.heap.modify p _
      rw [modify_of_get ho]
  | delete p atom =>
    obtain ⟨⟨o, ho⟩, hatom⟩ := hop
    obtain ⟨b, rt', hgo, hsound, hcases⟩ := deleteProperty_heap h ho hatom
    refine ⟨rt', ?_, hsound, ?_⟩
    · rw [Heap.perform, ho, Option.bind_some]
      split at hcases
      · next hkept => rw [if_pos hkept, Runtime.perform, hgo, ← hcases.1]; rfl
      · next hkept => rw [if_neg hkept, Runtime.perform, hgo, ← hcases.1]; rfl
    · rw [Heap.perform, ho, Option.bind_some]
      split at hcases
      · next hkept => rw [if_pos hkept]; exact hcases.2
      · next hkept => rw [if_neg hkept, hcases.2, modify_of_get ho]
  | setPrototype p proto =>
    obtain ⟨⟨o, ho⟩, hproto⟩ := hop
    obtain ⟨b, rt', hgo, hsound, hcircle, hset⟩ := setPrototype_heap h hg ho hproto
    by_cases hin : p ∈ rt.heap.chain proto
    · obtain ⟨rfl, hheap⟩ := hcircle hin
      have hperform : rt.heap.perform (.setPrototype p proto) = (.bool false, rt.heap) := if_pos hin
      exact ⟨rt', by rw [hperform, Runtime.perform, hgo]; rfl, hsound, by rw [hperform]; exact hheap⟩
    · obtain ⟨rfl, hheap⟩ := hset hin
      have hperform : rt.heap.perform (.setPrototype p proto) =
          (.bool true, rt.heap.modify p fun o => { o with proto := proto }) := if_neg hin
      refine ⟨rt', by rw [hperform, Runtime.perform, hgo]; rfl, hsound, ?_⟩
      rw [hperform, hheap, modify_of_get ho]
  | lookup p atom =>
    obtain ⟨⟨o, ho⟩, hatom⟩ := hop
    exact ⟨rt, congrArg (Option.map _) (lookup_heap h hg ho hatom), h, rfl⟩
  | free p =>
    obtain ⟨⟨o, ho⟩, -⟩ := hop
    obtain ⟨rt', hgo, hsound, hheap⟩ := freeObject_heap h ho
    exact ⟨rt', congrArg (Option.map _) hgo, hsound, hheap⟩

/-! ## Runs -/

theorem run_heap {ops : List (Op V)} (h : Sound rt) (hg : rt.heap.Grounded) (hops : rt.heap.Permitted ops) :
    ∃ rt', rt.run ops = some ((rt.heap.run ops).1, rt') ∧ Sound rt' ∧ rt'.heap = (rt.heap.run ops).2 := by
  induction ops generalizing rt with
  | nil => exact ⟨rt, rfl, h, rfl⟩
  | cons op rest ih =>
    obtain ⟨rt₁, hgo, hsound, hheap⟩ := perform_heap h hg hops.1
    obtain ⟨rt₂, hrest, hsound₂, hheap₂⟩ := ih hsound (hheap ▸ Heap.perform_grounded hg hops.1) (hheap ▸ hops.2)
    rw [hheap] at hrest hheap₂
    refine ⟨rt₂, ?_, hsound₂, hheap₂⟩
    show (rt.perform op).bind _ = _
    rw [hgo, Option.bind_some, hrest]
    rfl

theorem runs_sound {ops : List (Op V)} (hops : Heap.empty.Permitted ops) :
    ∃ rt, Runtime.init.run ops = some ((Heap.empty.run ops).1, rt) ∧ Sound rt ∧ rt.heap = (Heap.empty.run ops).2 := by
  have hinit : (Runtime.init : Runtime V).heap.Permitted ops := heap_init.symm ▸ hops
  have hrun := run_heap sound_init (heap_init.symm ▸ Heap.empty_grounded) hinit
  rw [heap_init] at hrun
  exact hrun

/-- Shared shapes cannot be told from property lists: every run of operations from the start comes to its end, with the
results and the heap that it has on objects that are lists of properties. -/
theorem runs_agree {ops : List (Op V)} (hops : Heap.empty.Permitted ops) :
    ∃ rt, Runtime.init.run ops = some ((Heap.empty.run ops).1, rt) ∧ rt.heap = (Heap.empty.run ops).2 := by
  obtain ⟨rt, hrun, -, hheap⟩ := runs_sound hops
  exact ⟨rt, hrun, hheap⟩

/-- Two objects that share a shape, until a property of one of them is deleted. -/
def sampleOps : List (Op Nat) :=
  [.create 1 none, .create 2 (some 1), .create 3 (some 1), .add 2 60 7 5, .add 3 60 7 6, .write 3 60 8, .delete 3 60,
    .own 2 60, .setPrototype 1 (some 2)]

theorem permitted_sampleOps : Heap.empty.Permitted sampleOps := by
  refine ⟨⟨rfl, fun q hq => by cases hq⟩, ⟨rfl, fun q hq => ?_⟩, ⟨rfl, fun q hq => ?_⟩,
    ⟨_, rfl, by decide, rfl, by decide, by decide⟩, ⟨_, rfl, by decide, rfl, by decide, by decide⟩, ⟨⟨_, rfl⟩, by decide⟩,
    ⟨⟨_, rfl⟩, by decide⟩, ⟨⟨_, rfl⟩, by decide⟩, ⟨⟨_, rfl⟩, fun q hq => ?_⟩, trivial⟩
  · cases hq
    exact ⟨_, rfl⟩
  · cases hq
    exact ⟨_, rfl⟩
  · cases hq
    exact ⟨_, rfl⟩

theorem runs_agree_sample :
    ∃ rt, Runtime.init.run sampleOps = some ((Heap.empty.run sampleOps).1, rt) ∧ rt.heap = (Heap.empty.run sampleOps).2 :=
  runs_agree permitted_sampleOps

/-- What shape each of the two objects has while they share one, and in the end. -/
example : ((Runtime.init.run (sampleOps.take 5)).map fun r => ((r.2.objs 2).shape, (r.2.objs 3).shape)) = some (2, 2) ∧
    ((Runtime.init.run sampleOps).map fun r => ((r.2.objs 2).shape, (r.2.objs 3).shape)) = some (2, 3) := by decide

/-! ## Counts -/

/-- Shapes are in use, their counts are right, the table has those that can be shared, and any other has one user. -/
structure Counted (rt : Runtime V) : Prop where
  used : ∀ id, (∃ sh, rt.shapes id = some sh) ↔ id ∈ refsOf rt rt.objects
  count : ∀ id sh, rt.shapes id = some sh → sh.refCount = (refsOf rt rt.objects).count id
  table : ∀ k chain, rt.shapeHash[k]? = some chain → ∀ id, id ∈ chain ↔
    ∃ sh, rt.shapes id = some sh ∧ sh.isHashed = true ∧ getShapeHash sh.hash rt.shapeHashBits = k
  listed : ∀ id sh, rt.shapes id = some sh → sh.isHashed = true → ∃ chain ∈ rt.shapeHash, id ∈ chain
  unshared : ∀ id sh, rt.shapes id = some sh → sh.isHashed = false → sh.refCount = 1

theorem Sound.counted (h : Sound rt) : Counted rt where
  used := h.shapes.alive
  count := fun id sh hsh => (h.shapes.entry id sh hsh).count
  table := fun k chain hchain id => by
    rw [h.shapes.table.mem k chain hchain]
    refine ⟨fun ⟨⟨sh, hsh, hflag⟩, sh', hsh', hhash⟩ => ?_, fun ⟨sh, hsh, hflag, hhash⟩ => ⟨⟨sh, hsh, hflag⟩, sh, hsh, hhash⟩⟩
    obtain rfl : sh = sh' := Option.some.inj (hsh.symm.trans hsh')
    exact ⟨sh, hsh, hflag, hhash⟩
  listed := fun id sh hsh hflag =>
    let ⟨chain, hchain⟩ := h.shapes.table.chain sh.hash
    ⟨chain, List.mem_of_getElem? hchain, (h.shapes.table.mem _ chain hchain id).mpr ⟨⟨sh, hsh, hflag⟩, sh, hsh, rfl⟩⟩
  unshared := fun id sh hsh hflag => (h.shapes.entry id sh hsh).unshared hflag

/-- No shape is freed too early, and none is left over, in any run. -/
theorem runs_counted {ops : List (Op V)} {results : List (Result V)} (hops : Heap.empty.Permitted ops)
    (hrun : Runtime.init.run ops = some (results, rt)) : Counted rt := by
  obtain ⟨rt', hrun', hsound, -⟩ := runs_sound hops
  rw [hrun, Option.some.injEq, Prod.mk.injEq] at hrun'
  rw [hrun'.2]
  exact hsound.counted

theorem runs_counted_sample : ∃ rt, Runtime.init.run sampleOps = some ((Heap.empty.run sampleOps).1, rt) ∧ Counted rt := by
  obtain ⟨rt, hrun, -, -⟩ := runs_sound permitted_sampleOps
  exact ⟨rt, hrun, runs_counted permitted_sampleOps hrun⟩

end QuickJSBridge.Shapes
