import Mathlib.Algebra.Group.Nat.Defs
import Mathlib.Logic.Function.Basic

/-!
# Shapes

The properties of an object are split in two: its *shape* has names and flags, with a hash index, the object itself
has the values. Objects with the same prototype that got the same properties in the same order share a shape,
which is found by a hash of all that (`rt->shape_hash`). A shape that is shared is not changed: it is cloned, or
another is found. A shape that properties were deleted from, or whose flags or prototype were changed, has left
the table and has one user.

* `ShapeProperty`, `Shape` — one shape; `Shape.find`, `Shape.add`, `Shape.remove`, `Shape.resize`, `Shape.compact`;
* `Runtime` — all shapes, their hash table, and the objects; `hashLink` to `prepareUpdate`;
* `newObject`, `findOwnProperty`, `addProperty`, `deleteProperty`, `updatePropertyFlags`, `setPrototype`,
  `freeObject` — what the rest of the engine calls, for ordinary objects;
* `newArrayShape`, `newArray`, `freeArrayShape` — the shape that each context keeps for its arrays.

To read a shape that was freed is `none`, and so are a read outside of an array, a loop that does not end, and an
assertion that fails. Memory does not run out. What a value is does not matter; reference counts of atoms and
objects are left out, those of shapes are not.
-/

namespace QuickJSBridge.Shapes

/-! ## One shape -/

/-- `JSShapeProperty` -/
structure ShapeProperty where
  -- 26 bits; counted from one, 0 is the last in the list
  hashNext : Nat
  -- 6 bits
  flags : Nat
  -- 0 is `JS_ATOM_NULL`, a free entry
  atom : Nat
  deriving DecidableEq

/-- `JSShape` -/
structure Shape where
  refCount : Nat
  isHashed : Bool
  hasSmallArrayIndex : Bool
  hash : UInt32
  -- `prop_hash_mask + 1` entries
  propHash : List Nat
  propSize : Nat
  -- `prop_count` entries
  prop : List ShapeProperty
  deletedPropCount : Nat
  proto : Option Nat

/-- `JS_PROP_CONFIGURABLE` -/
def propConfigurable : Nat := 1

/-- `JS_PROP_WRITABLE | JS_PROP_LENGTH` -/
def arrayLengthFlags : Nat := 10

/-- `JS_ATOM_length` -/
def atomLength : Nat := 48

/-- `__JS_AtomIsTaggedInt` -/
def atomIsTaggedInt (atom : Nat) : Bool := atom &&& 2 ^ 31 ≠ 0

/-- The lines that enter a property in the hash index, which stand in three functions. -/
def linkProperty (prop : List ShapeProperty) (propHash : List Nat) (pr : ShapeProperty) :
    List ShapeProperty × List Nat :=
  let h := pr.atom &&& (propHash.length - 1)
  (prop ++ [{ pr with hashNext := propHash.getD h 0 % 2 ^ 26 }], propHash.set h (prop.length + 1))

/-- The loops of `resize_properties` and `compact_properties` that make the index anew. -/
def relink : List ShapeProperty → List ShapeProperty → List Nat → List ShapeProperty × List Nat
  | [], prop, propHash => (prop, propHash)
  | pr :: rest, prop, propHash =>
    if pr.atom = 0 then relink rest (prop ++ [pr]) propHash
    else relink rest (linkProperty prop propHash pr).1 (linkProperty prop propHash pr).2

/-- `while (new_hash_size < new_size)`, at most `new_size` times -/
def growHashSize (newSize : Nat) : Nat → Nat → Nat
  | 0, hashSize => hashSize
  | n + 1, hashSize => if hashSize < newSize then growHashSize newSize n (2 * hashSize) else hashSize

/-- `while ((new_hash_size / 2) >= new_size)`, at most `new_hash_size` times -/
def shrinkHashSize (newSize : Nat) : Nat → Nat → Nat
  | 0, hashSize => hashSize
  | n + 1, hashSize => if newSize ≤ hashSize / 2 then shrinkHashSize newSize n (hashSize / 2) else hashSize

/-- The loop of `find_own_property`. -/
def findLoop (prop : List ShapeProperty) (atom : Nat) : Nat → Nat → Option (Option Nat)
  | 0, _ => none
  | _ + 1, 0 => some none
  | n + 1, h + 1 => do
    let pr ← prop[h]?
    if pr.atom = atom then some (some h) else findLoop prop atom n pr.hashNext

/-- The loop of `delete_property`, with the entry that leads to the present one. -/
def deleteLoop (prop : List ShapeProperty) (atom : Nat) : Nat → Nat → Option Nat → Option (Option (Option Nat × Nat))
  | 0, _, _ => none
  | _ + 1, 0, _ => some none
  | n + 1, h + 1, lpr => do
    let pr ← prop[h]?
    if pr.atom = atom then some (some (lpr, h)) else deleteLoop prop atom n pr.hashNext (some h)

namespace Shape

/-- Where the list of an atom starts in `prop_hash`. -/
def bucket (sh : Shape) (atom : Nat) : Nat := atom &&& (sh.propHash.length - 1)

/-- `find_own_property` of the shape: the index -/
def find (sh : Shape) (atom : Nat) : Option (Option Nat) := do
  let h ← sh.propHash[sh.bucket atom]?
  findLoop sh.prop atom (sh.prop.length + 1) h

/-- The search of `delete_property`. -/
def findDelete (sh : Shape) (atom : Nat) : Option (Option (Option Nat × Nat)) := do
  let h ← sh.propHash[sh.bucket atom]?
  deleteLoop sh.prop atom (sh.prop.length + 1) h none

/-- `resize_properties` of the shape -/
def resize (sh : Shape) (count : Nat) : Shape :=
  let newSize := max count (sh.propSize * 3 / 2)
  let newHashSize := growHashSize newSize newSize sh.propHash.length
  if newHashSize ≠ sh.propHash.length then
    let linked := relink sh.prop [] (List.replicate newHashSize 0)
    { sh with prop := linked.1, propHash := linked.2, propSize := newSize }
  else { sh with propSize := newSize }

/-- Room for one more property, in `add_shape_property`. -/
def grow (sh : Shape) : Shape := if sh.propSize ≤ sh.prop.length then sh.resize (sh.prop.length + 1) else sh

/-- `compact_properties` of the shape -/
def compact (sh : Shape) : Shape :=
  let newSize := max 2 (sh.prop.length - sh.deletedPropCount)
  let newHashSize := shrinkHashSize newSize sh.propHash.length sh.propHash.length
  let linked := relink (sh.prop.filter fun pr => pr.atom ≠ 0) [] (List.replicate newHashSize 0)
  { sh with prop := linked.1, propHash := linked.2, propSize := newSize, deletedPropCount := 0 }

/-- The second half of `add_shape_property`. -/
def add (sh : Shape) (atom flags : Nat) : Shape :=
  let linked := linkProperty sh.prop sh.propHash ⟨0, flags % 2 ^ 6, atom⟩
  { sh with
    prop := linked.1, propHash := linked.2, hasSmallArrayIndex := sh.hasSmallArrayIndex || atomIsTaggedInt atom }

/-- The removal in `delete_property` of entry `i`, which `lpr` leads to. -/
def remove (sh : Shape) (atom : Nat) (lpr : Option Nat) (i hashNext : Nat) : Shape :=
  let sh := match lpr with
    | some l => { sh with prop := sh.prop.modify l fun pr => { pr with hashNext := hashNext } }
    | none => { sh with propHash := sh.propHash.set (sh.bucket atom) hashNext }
  { sh with
    prop := sh.prop.modify i fun pr => { pr with flags := 0, atom := 0 }
    deletedPropCount := sh.deletedPropCount + 1 }

def setFlags (sh : Shape) (i flags : Nat) : Shape :=
  { sh with prop := sh.prop.modify i fun pr => { pr with flags := flags % 2 ^ 6 } }

end Shape

/-! ## The hash of a shape -/

/-- `shape_hash` -/
def shapeHash (h val : UInt32) : UInt32 := (h + val) * 0x9e370001

/-- `get_shape_hash` -/
def getShapeHash (h : UInt32) (hashBits : Nat) : Nat := h.toNat >>> (32 - hashBits)

/-- `shape_initial_hash`, where pointers have 64 bits -/
def shapeInitialHash (proto : Option Nat) : UInt32 :=
  shapeHash (shapeHash 1 (UInt32.ofNat (proto.getD 0))) (UInt32.ofNat (proto.getD 0 >>> 32))

/-- The hash in `find_hashed_shape_prop` and `add_shape_property`. -/
def nextHash (h : UInt32) (atom flags : Nat) : UInt32 :=
  shapeHash (shapeHash h (UInt32.ofNat atom)) (UInt32.ofNat flags)

/-! ## The runtime -/

/-- What of a `JSObject` is about its properties. -/
structure Obj (V : Type) where
  shape : Nat
  -- all entries that there is memory for; `none` is not initialized, or of a deleted property
  prop : List (Option V)

structure Runtime (V : Type) where
  -- `none` is freed, or not made yet
  shapes : Nat → Option Shape
  nextShape : Nat
  shapeHash : List (List Nat)
  shapeHashBits : Nat
  shapeHashCount : Nat
  -- `array_shape` of each context
  arrayShapes : List Nat
  objects : List Nat
  objs : Nat → Obj V

variable {V : Type}

/-- `js_realloc` -/
def realloc (l : List (Option V)) (n : Nat) : List (Option V) := l.take n ++ List.replicate (n - l.length) none

namespace Runtime

/-- After `init_shape_hash`. -/
def init : Runtime V :=
  ⟨fun _ => none, 0, List.replicate (2 ^ 4) [], 4, 0, [], [], fun _ => ⟨0, []⟩⟩

def setShape (rt : Runtime V) (id : Nat) (sh : Option Shape) : Runtime V :=
  { rt with shapes := Function.update rt.shapes id sh }

def setObj (rt : Runtime V) (p : Nat) (o : Obj V) : Runtime V := { rt with objs := Function.update rt.objs p o }

/-- `js_shape_hash_link` -/
def hashLink (rt : Runtime V) (id : Nat) : Option (Runtime V) := do
  let sh ← rt.shapes id
  let h := getShapeHash sh.hash rt.shapeHashBits
  let chain ← rt.shapeHash[h]?
  some { rt with shapeHash := rt.shapeHash.set h (id :: chain), shapeHashCount := rt.shapeHashCount + 1 }

/-- `js_shape_hash_unlink`; it runs off the list if the shape is not there. -/
def hashUnlink (rt : Runtime V) (id : Nat) : Option (Runtime V) := do
  let sh ← rt.shapes id
  let h := getShapeHash sh.hash rt.shapeHashBits
  let chain ← rt.shapeHash[h]?
  if id ∈ chain then
    some { rt with shapeHash := rt.shapeHash.set h (chain.erase id), shapeHashCount := rt.shapeHashCount - 1 }
  else none

/-- The loop of `resize_shape_hash`, over the old lists one after the other. -/
def rehash (shapes : Nat → Option Shape) (hashBits : Nat) : List Nat → List (List Nat) → Option (List (List Nat))
  | [], table => some table
  | id :: rest, table => do
    let sh ← shapes id
    let h := getShapeHash sh.hash hashBits
    let chain ← table[h]?
    rehash shapes hashBits rest (table.set h (id :: chain))

/-- `resize_shape_hash` -/
def resizeShapeHash (rt : Runtime V) (hashBits : Nat) : Option (Runtime V) := do
  let table ← rehash rt.shapes hashBits rt.shapeHash.flatten (List.replicate (2 ^ hashBits) [])
  some { rt with shapeHash := table, shapeHashBits := hashBits }

/-- The start of `js_new_shape2`: the table may be made larger. -/
def reserveShape (rt : Runtime V) : Option (Runtime V) :=
  if rt.shapeHash.length < 2 * (rt.shapeHashCount + 1) then rt.resizeShapeHash (rt.shapeHashBits + 1) else some rt

/-- `js_new_shape2` -/
def newShape (rt : Runtime V) (proto : Option Nat) (hashSize propSize : Nat) : Option (Nat × Runtime V) := do
  let rt ← rt.reserveShape
  let sh : Shape := ⟨1, true, false, shapeInitialHash proto, List.replicate hashSize 0, propSize, [], 0, proto⟩
  let id := rt.nextShape
  let rt ← hashLink { rt with shapes := Function.update rt.shapes id (some sh), nextShape := id + 1 } id
  some (id, rt)

/-- `js_clone_shape` -/
def cloneShape (rt : Runtime V) (id : Nat) : Option (Nat × Runtime V) := do
  let sh ← rt.shapes id
  some (rt.nextShape, { rt with
    shapes := Function.update rt.shapes rt.nextShape (some { sh with refCount := 1, isHashed := false })
    nextShape := rt.nextShape + 1 })

/-- `js_dup_shape` -/
def dupShape (rt : Runtime V) (id : Nat) : Option (Runtime V) := do
  let sh ← rt.shapes id
  some (rt.setShape id (some { sh with refCount := sh.refCount + 1 }))

/-- `js_free_shape`, with `js_free_shape0` -/
def freeShape (rt : Runtime V) (id : Nat) : Option (Runtime V) := do
  let sh ← rt.shapes id
  if 1 < sh.refCount then some (rt.setShape id (some { sh with refCount := sh.refCount - 1 }))
  else do
    let rt ← if sh.isHashed then rt.hashUnlink id else some rt
    some (rt.setShape id none)

/-- What `resize_properties` does with the values of the object. -/
def resizeValues (rt : Runtime V) (p : Option Nat) (newSize : Nat) : Runtime V :=
  match p with
  | some p => rt.setObj p ⟨(rt.objs p).shape, realloc (rt.objs p).prop newSize⟩
  | none => rt

/-- `add_shape_property` -/
def addShapeProperty (rt : Runtime V) (id : Nat) (p : Option Nat) (atom flags : Nat) : Option (Runtime V) := do
  let sh ← rt.shapes id
  let rt ← if sh.isHashed then rt.hashUnlink id else some rt
  let rt := if sh.propSize ≤ sh.prop.length then rt.resizeValues p sh.grow.propSize else rt
  if sh.isHashed then do
    let sh₁ := { sh.grow with hash := nextHash sh.hash atom flags }
    let rt ← (rt.setShape id (some sh₁)).hashLink id
    some (rt.setShape id (some (sh₁.add atom flags)))
  else some (rt.setShape id (some (sh.grow.add atom flags)))

/-- A loop over one list of the table. -/
def findChain (shapes : Nat → Option Shape) (test : Shape → Bool) : List Nat → Option (Option Nat)
  | [] => some none
  | id :: rest => do
    let sh ← shapes id
    if test sh then some (some id) else findChain shapes test rest

/-- `find_hashed_shape_proto` -/
def findHashedShapeProto (rt : Runtime V) (proto : Option Nat) : Option (Option Nat) := do
  let h := shapeInitialHash proto
  let chain ← rt.shapeHash[getShapeHash h rt.shapeHashBits]?
  findChain rt.shapes (fun sh1 => sh1.hash = h && sh1.proto = proto && sh1.prop.length = 0) chain

/-- `find_hashed_shape_prop` -/
def findHashedShapeProp (rt : Runtime V) (sh : Shape) (atom flags : Nat) : Option (Option Nat) := do
  let h := nextHash sh.hash atom flags
  let chain ← rt.shapeHash[getShapeHash h rt.shapeHashBits]?
  findChain rt.shapes (fun sh1 => sh1.hash = h && sh1.proto = sh.proto &&
    sh1.prop.map (fun pr => (pr.atom, pr.flags)) = sh.prop.map (fun pr => (pr.atom, pr.flags)) ++ [(atom, flags)]) chain

/-- The end of `add_property`: the shape has no other user. -/
def addUnshared (rt : Runtime V) (p atom flags : Nat) : Option (Nat × Runtime V) := do
  let sh ← rt.shapes (rt.objs p).shape
  if sh.refCount ≠ 1 then none
  else do
    let rt ← rt.addShapeProperty (rt.objs p).shape (some p) atom flags
    some (sh.prop.length, rt)

/-- `add_property`: the index of the property -/
def addProperty (rt : Runtime V) (p atom flags : Nat) : Option (Nat × Runtime V) := do
  let o := rt.objs p
  let sh ← rt.shapes o.shape
  if sh.isHashed then
    match ← rt.findHashedShapeProp sh atom flags with
    | some id => do
      let newSh ← rt.shapes id
      let prop := if newSh.propSize ≠ sh.propSize then realloc o.prop newSh.propSize else o.prop
      let rt ← (rt.setObj p ⟨id, prop⟩).dupShape id
      let rt ← rt.freeShape o.shape
      some (newSh.prop.length - 1, rt)
    | none =>
      if sh.refCount ≠ 1 then do
        let (id, rt) ← rt.cloneShape o.shape
        let newSh ← rt.shapes id
        let rt ← (rt.setShape id (some { newSh with isHashed := true })).hashLink id
        let rt ← rt.freeShape o.shape
        (rt.setObj p ⟨id, o.prop⟩).addUnshared p atom flags
      else rt.addUnshared p atom flags
  else rt.addUnshared p atom flags

/-- `js_shape_prepare_update` -/
def prepareUpdate (rt : Runtime V) (p : Nat) : Option (Runtime V) := do
  let o := rt.objs p
  let sh ← rt.shapes o.shape
  if sh.isHashed then
    if sh.refCount ≠ 1 then do
      let (id, rt) ← rt.cloneShape o.shape
      let rt ← rt.freeShape o.shape
      some (rt.setObj p ⟨id, o.prop⟩)
    else do
      let rt ← rt.hashUnlink o.shape
      some (rt.setShape o.shape (some { sh with isHashed := false }))
  else some rt

/-! ## Properties -/

/-- `JS_NewObjectFromShape`, at the address `p` -/
def newObjectFromShape (rt : Runtime V) (p id : Nat) : Option (Runtime V) := do
  let sh ← rt.shapes id
  some { rt with
    objects := p :: rt.objects
    objs := Function.update rt.objs p ⟨id, List.replicate sh.propSize none⟩ }

/-- `JS_NewObjectProtoClass` -/
def newObject (rt : Runtime V) (p : Nat) (proto : Option Nat) : Option (Runtime V) := do
  let (id, rt) ← match ← rt.findHashedShapeProto proto with
    | some id => (rt.dupShape id).map fun rt => (id, rt)
    | none => rt.newShape proto 4 2
  rt.newObjectFromShape p id

/-- `find_own_property`: the index -/
def findOwnProperty (rt : Runtime V) (p atom : Nat) : Option (Option Nat) := do
  let sh ← rt.shapes (rt.objs p).shape
  sh.find atom

/-- `pr->u.value = val` -/
def setValue (rt : Runtime V) (p i : Nat) (v : V) : Option (Runtime V) :=
  if i < (rt.objs p).prop.length then
    some (rt.setObj p ⟨(rt.objs p).shape, (rt.objs p).prop.set i (some v)⟩)
  else none

/-- The end of `delete_property`: deleted properties make room. -/
def compactProperties (rt : Runtime V) (p : Nat) : Option (Runtime V) := do
  let o := rt.objs p
  let sh ← rt.shapes o.shape
  if 8 ≤ sh.deletedPropCount ∧ sh.prop.length / 2 ≤ sh.deletedPropCount then
    if sh.isHashed ∨ sh.propSize < max 2 (sh.prop.length - sh.deletedPropCount) then none
    else
      let kept := ((sh.prop.zip o.prop).filter fun pv => pv.1.atom ≠ 0).map Prod.snd
      some ((rt.setShape o.shape (some sh.compact)).setObj p ⟨o.shape, realloc kept sh.compact.propSize⟩)
  else some rt

/-- `delete_property` of an ordinary object -/
def deleteProperty (rt : Runtime V) (p atom : Nat) : Option (Bool × Runtime V) := do
  let sh ← rt.shapes (rt.objs p).shape
  match ← sh.findDelete atom with
  | none => some (true, rt)
  | some (lpr, i) => do
    let pr ← sh.prop[i]?
    if pr.flags &&& propConfigurable = 0 then some (false, rt)
    else do
      let rt ← rt.prepareUpdate p
      let o := rt.objs p
      let sh ← rt.shapes o.shape
      let rt := rt.setShape o.shape (some (sh.remove atom lpr i pr.hashNext))
      let rt ← (rt.setObj p ⟨o.shape, o.prop.set i none⟩).compactProperties p
      some (true, rt)

/-- `js_update_property_flags` of the property at `i` -/
def updatePropertyFlags (rt : Runtime V) (p i flags : Nat) : Option (Runtime V) := do
  let sh ← rt.shapes (rt.objs p).shape
  let pr ← sh.prop[i]?
  if flags ≠ pr.flags then do
    let rt ← rt.prepareUpdate p
    let sh ← rt.shapes (rt.objs p).shape
    some (rt.setShape (rt.objs p).shape (some (sh.setFlags i flags)))
  else some rt

/-- The loop of `JS_SetPrototypeInternal`: whether `p` is found. -/
def inChain (rt : Runtime V) (p : Nat) : Nat → Option Nat → Option Bool
  | _, none => some false
  | 0, some _ => none
  | n + 1, some p1 => do
    if p1 = p then some true
    else do
      let sh ← rt.shapes (rt.objs p1).shape
      rt.inChain p n sh.proto

/-- `JS_SetPrototypeInternal` of an extensible ordinary object -/
def setPrototype (rt : Runtime V) (p : Nat) (proto : Option Nat) : Option (Bool × Runtime V) := do
  let sh ← rt.shapes (rt.objs p).shape
  if sh.proto = proto then some (true, rt)
  else do
    if ← rt.inChain p (rt.objects.length + 1) proto then some (false, rt)
    else do
      let rt ← rt.prepareUpdate p
      let sh ← rt.shapes (rt.objs p).shape
      some (true, rt.setShape (rt.objs p).shape (some { sh with proto := proto }))

/-- What `free_object` does with the shape. -/
def freeObject (rt : Runtime V) (p : Nat) : Option (Runtime V) := do
  let rt ← rt.freeShape (rt.objs p).shape
  some { rt with objects := rt.objects.erase p }

/-- How `JS_AddIntrinsicBasicObjects` makes the shape of a context's arrays. -/
def newArrayShape (rt : Runtime V) (proto : Option Nat) : Option (Runtime V) := do
  let (id, rt) ← rt.newShape proto 4 1
  let rt ← rt.addShapeProperty id none atomLength arrayLengthFlags
  some { rt with arrayShapes := rt.arrayShapes ++ [id] }

/-- `JS_NewArray` in context `k`; `zero` is the length. -/
def newArray (rt : Runtime V) (p k : Nat) (zero : V) : Option (Runtime V) := do
  let id ← rt.arrayShapes[k]?
  let rt ← rt.dupShape id
  let rt ← rt.newObjectFromShape p id
  rt.setValue p 0 zero

/-- What `JS_FreeContext` does with the shape. -/
def freeArrayShape (rt : Runtime V) (k : Nat) : Option (Runtime V) := do
  let id ← rt.arrayShapes[k]?
  let rt ← rt.freeShape id
  some { rt with arrayShapes := rt.arrayShapes.eraseIdx k }

/-- The loop of `JS_GetPropertyInternal` over the prototypes: the holder, the flags and the value -/
def lookup (rt : Runtime V) (atom : Nat) : Nat → Option Nat → Option (Option (Nat × Nat × V))
  | _, none => some none
  | 0, some _ => none
  | n + 1, some p => do
    let o := rt.objs p
    let sh ← rt.shapes o.shape
    match ← sh.find atom with
    | some i => do
      let pr ← sh.prop[i]?
      let v ← o.prop[i]?
      let v ← v
      some (some (p, pr.flags, v))
    | none => rt.lookup atom n sh.proto

end Runtime

end QuickJSBridge.Shapes
