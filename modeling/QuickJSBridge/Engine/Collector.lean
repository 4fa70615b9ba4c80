import QuickJSBridge.Lib.RefCounts

/-!
# The collector of the engine

`quickjs.c` counts the references to its objects and frees an object when its count is zero. `JS_RunGC` frees
the cycles that are left: it takes the references of all objects off the counts (`gc_decref`), puts back those
of the objects still held (`gc_scan`), and frees the others (`gc_free_cycles`).

* `Runtime` — the headers of the objects and the lists they are linked in; reading or changing a header whose
  memory was freed, and an assertion that fails, is `none`;
* `release` — `JS_FreeValueRT`, `free_var_ref`, `js_free_shape`, `js_async_function_free` and `JS_FreeContext`:
  a reference is dropped, and what happens to an object that a `JSValue` points to depends on the phase;
* `freeValue` — the same outside a collection, with the loop of `free_zero_refcount`;
* `runGC` — `JS_RunGC`;
* `Exact` — the counts are exact, and every object is linked in `gc_obj_list`.

The memory that objects have beside their references (atoms, strings, buffers) is not modelled, nor are weak
references. Loops that C bounds by the lists it walks through have fuel here.
-/

namespace QuickJSBridge.Gc

open RefCounts

/-! ## Headers and lists -/

/-- `JSGCObjectTypeEnum` -/
inductive ObjType where
  | jsObject
  | functionBytecode
  | shape
  | varRef
  | asyncFunction
  | jsContext
  deriving DecidableEq

/-- The types a `JSValue` can point to. The others are freed as soon as their count is zero. -/
def ObjType.isValue : ObjType → Bool
  | .jsObject | .functionBytecode => true
  | _ => false

/-- What `mark_children` visits, by types. -/
def ObjType.mayHold : ObjType → ObjType → Bool
  | .jsObject, _ => true
  | .functionBytecode, t => t.isValue || t == .jsContext
  | .varRef, t => t.isValue
  | .asyncFunction, t => t.isValue
  | .shape, t => t == .jsObject
  | .jsContext, t => t.isValue || t == .shape || t == .varRef

/-- How far the freeing of an object of this type nests before it comes to values. -/
def ObjType.rank : ObjType → Nat
  | .jsObject | .functionBytecode => 0
  | .shape | .varRef | .asyncFunction => 1
  | .jsContext => 2

theorem ObjType.rank_lt (t : ObjType) : t.rank < 3 := by
  cases t <;> decide

/-- What an object holds that is no value has lower rank. -/
theorem ObjType.rank_lt_of_mayHold {t u : ObjType} (ht : t.isValue = false) (h : t.mayHold u = true) :
    u.rank < t.rank := by
  cases t <;> cases u <;> simp_all [isValue, mayHold, rank]

/-- `JSGCPhaseEnum`, where it makes a difference to an object that is freed. -/
inductive Phase where
  | decref
  | removeCycles
  deriving DecidableEq

structure Runtime (α : Type*) where
  -- the memory of the object has not been freed
  allocated : α → Bool
  refCount : α → Nat
  gcObjType : α → ObjType
  mark : α → Bool
  -- what `mark_children` visits
  children : α → List α
  -- the references that are dropped when the object is freed
  fields : α → List α
  gcObjList : List α
  gcZeroRefCountList : List α
  tmpObjList : List α

variable {α : Type*} [DecidableEq α]

namespace Runtime

def setCount (rt : Runtime α) (p : α) (n : Nat) : Runtime α :=
  { rt with refCount := Function.update rt.refCount p n }

def setMark (rt : Runtime α) (p : α) (b : Bool) : Runtime α :=
  { rt with mark := Function.update rt.mark p b }

/-- `list_del(&p->link)`, whichever list it is in -/
def listDel (rt : Runtime α) (p : α) : Runtime α :=
  { rt with
    gcObjList := rt.gcObjList.erase p
    gcZeroRefCountList := rt.gcZeroRefCountList.erase p
    tmpObjList := rt.tmpObjList.erase p }

/-- `js_free_rt` -/
def jsFree (rt : Runtime α) (p : α) : Runtime α :=
  { rt with allocated := Function.update rt.allocated p false }

/-- `list_del`, then `list_add_tail(&p->link, &rt->tmp_obj_list)` -/
def toTmp (rt : Runtime α) (p : α) : Runtime α :=
  { rt.listDel p with tmpObjList := (rt.listDel p).tmpObjList ++ [p] }

/-- `list_del`, then `list_add_tail(&p->link, &rt->gc_obj_list)` -/
def toGcObj (rt : Runtime α) (p : α) : Runtime α :=
  { rt.listDel p with gcObjList := (rt.listDel p).gcObjList ++ [p] }

/-- `list_del`, then `list_add_tail(&p->link, &rt->gc_zero_ref_count_list)` -/
def toZeroTail (rt : Runtime α) (p : α) : Runtime α :=
  { rt.listDel p with gcZeroRefCountList := (rt.listDel p).gcZeroRefCountList ++ [p] }

/-- `list_del`, then `list_add(&p->link, &rt->gc_zero_ref_count_list)` -/
def toZeroHead (rt : Runtime α) (p : α) : Runtime α :=
  { rt.listDel p with gcZeroRefCountList := p :: (rt.listDel p).gcZeroRefCountList }

/-- `mark_children` -/
def markChildren (markFunc : Runtime α → α → Option (Runtime α)) (rt : Runtime α) (gp : α) :
    Option (Runtime α) :=
  if rt.allocated gp then (rt.children gp).foldlM markFunc rt else none

end Runtime

/-! ## Trial deletion -/

def gcDecrefChild (rt : Runtime α) (p : α) : Option (Runtime α) :=
  -- `assert(p->ref_count > 0)`
  if rt.allocated p ∧ 0 < rt.refCount p then
    let rt := rt.setCount p (rt.refCount p - 1)
    if rt.refCount p = 0 ∧ rt.mark p then some (rt.toTmp p) else some rt
  else none

/-- The loop of `gc_decref`. An object that it has not come to is not marked, and so stays where it is: the
walk is over the list as it was. -/
def gcDecrefLoop : List α → Runtime α → Option (Runtime α)
  | [], rt => some rt
  | p :: el1, rt =>
    -- `assert(p->mark == 0)`
    if rt.mark p then none
    else do
      let rt ← rt.markChildren gcDecrefChild p
      let rt := rt.setMark p true
      gcDecrefLoop el1 (if rt.refCount p = 0 then rt.toTmp p else rt)

def gcDecref (rt : Runtime α) : Option (Runtime α) := gcDecrefLoop rt.gcObjList { rt with tmpObjList := [] }

def gcScanIncrefChild (rt : Runtime α) (p : α) : Option (Runtime α) :=
  if rt.allocated p then
    let rt := rt.setCount p (rt.refCount p + 1)
    some (if rt.refCount p = 1 then (rt.toGcObj p).setMark p false else rt)
  else none

def gcScanIncrefChild2 (rt : Runtime α) (p : α) : Option (Runtime α) :=
  if rt.allocated p then some (rt.setCount p (rt.refCount p + 1)) else none

/-- The first loop of `gc_scan`, at the `i`-th object of a list that grows meanwhile. -/
def gcScanLoop : Nat → Nat → Runtime α → Option (Runtime α)
  | fuel, i, rt =>
    match rt.gcObjList[i]?, fuel with
    | none, _ => some rt
    | some _, 0 => none
    | some p, fuel + 1 =>
      -- `assert(p->ref_count > 0)`
      if rt.refCount p = 0 then none
      else do
        let rt ← (rt.setMark p false).markChildren gcScanIncrefChild p
        gcScanLoop fuel (i + 1) rt

def gcScan (fuel : Nat) (rt : Runtime α) : Option (Runtime α) := do
  let rt ← gcScanLoop fuel 0 rt
  rt.tmpObjList.foldlM (fun rt p => rt.markChildren gcScanIncrefChild2 p) rt

/-! ## Freeing -/

/-- A reference to `p` is dropped. A value without references is left to `onZero`, anything else is freed at
once: its fields are released, then its memory. -/
def release (onZero : Runtime α → α → Option (Runtime α)) : Nat → Runtime α → α → Option (Runtime α)
  | 0, _, _ => none
  | depth + 1, rt, p =>
    if rt.allocated p ∧ 0 < rt.refCount p then
      let rt := rt.setCount p (rt.refCount p - 1)
      if rt.refCount p ≠ 0 then some rt
      else if (rt.gcObjType p).isValue then onZero rt p
      else do
        let rt ← (rt.fields p).foldlM (release onZero depth) rt
        some ((rt.listDel p).jsFree p)
    else none

/-- A context, what it holds, and the values that this holds. -/
def depth : Nat := 3

/-- What `__JS_FreeValueRT` does with a value during a phase. -/
def Phase.onZero : Phase → Runtime α → α → Option (Runtime α)
  | .decref, rt, p => some (rt.toZeroHead p)
  | .removeCycles, rt, _ => some rt

/-- `free_object` and `free_function_bytecode` -/
def freeGcObject (phase : Phase) (rt : Runtime α) (p : α) : Option (Runtime α) := do
  let rt ← (rt.fields p).foldlM (release phase.onZero depth) rt
  if phase = .removeCycles ∧ rt.refCount p ≠ 0 then some (rt.toZeroTail p)
  else some ((rt.listDel p).jsFree p)

/-- The loop of `free_zero_refcount`. -/
def freeZeroRefcount : Nat → Runtime α → Option (Runtime α)
  | fuel, rt =>
    match rt.gcZeroRefCountList, fuel with
    | [], _ => some rt
    | _ :: _, 0 => none
    | p :: _, fuel + 1 =>
      -- `assert(p->ref_count == 0)`; `free_gc_object` aborts on other types
      if rt.refCount p = 0 ∧ (rt.gcObjType p).isValue then do
        let rt ← freeGcObject .decref rt p
        freeZeroRefcount fuel rt
      else none

/-- A reference is dropped in the phase `JS_GC_PHASE_NONE`. -/
def freeValue (fuel : Nat) (rt : Runtime α) (p : α) : Option (Runtime α) :=
  release (fun rt p => freeZeroRefcount fuel (rt.toZeroHead p)) depth rt p

/-- The loop of `gc_free_cycles` over `tmp_obj_list`. -/
def gcFreeCyclesLoop : Nat → Runtime α → Option (Runtime α)
  | fuel, rt =>
    match rt.tmpObjList, fuel with
    | [], _ => some rt
    | _ :: _, 0 => none
    | p :: _, fuel + 1 =>
      if (rt.gcObjType p).isValue then do
        let rt ← freeGcObject .removeCycles rt p
        gcFreeCyclesLoop fuel rt
      else gcFreeCyclesLoop fuel (rt.toZeroTail p)

/-- `js_free_rt` of an object that was left in `gc_zero_ref_count_list`, after `assert` of its type -/
def freeZombie (rt : Runtime α) (p : α) : Option (Runtime α) :=
  if (rt.gcObjType p).isValue then some (rt.jsFree p) else none

def gcFreeCycles (fuel : Nat) (rt : Runtime α) : Option (Runtime α) := do
  let rt ← gcFreeCyclesLoop fuel rt
  let rt ← rt.gcZeroRefCountList.foldlM freeZombie rt
  some { rt with gcZeroRefCountList := [] }

/-- `JS_RunGC` -/
def runGC (fuel : Nat) (rt : Runtime α) : Option (Runtime α) := do
  let rt ← gcDecref rt
  let rt ← gcScan fuel rt
  gcFreeCycles fuel rt

/-! ## Exact counts -/

/-- The objects are those linked in `gc_obj_list`, and the count of each is the number of references from
`external` holders and from the objects. What is marked from an object is what freeing it releases. -/
structure Exact (external : α → Nat) (rt : Runtime α) : Prop where
  nodup : rt.gcObjList.Nodup
  linked : ∀ p, rt.allocated p = true ↔ p ∈ rt.gcObjList
  zero : rt.gcZeroRefCountList = []
  tmp : rt.tmpObjList = []
  unmarked : ∀ p ∈ rt.gcObjList, rt.mark p = false
  closed : ∀ p ∈ rt.gcObjList, ∀ c ∈ rt.children p, c ∈ rt.gcObjList
  roots : ∀ p, 0 < external p → p ∈ rt.gcObjList
  count : ∀ p ∈ rt.gcObjList, rt.refCount p = external p + incoming rt.children rt.gcObjList p
  pos : ∀ p ∈ rt.gcObjList, 0 < rt.refCount p
  agree : ∀ p ∈ rt.gcObjList, (rt.fields p).Perm (rt.children p)
  types : ∀ p ∈ rt.gcObjList, ∀ c ∈ rt.children p, (rt.gcObjType p).mayHold (rt.gcObjType c) = true

end QuickJSBridge.Gc
