import Mathlib.Data.List.AList
import QuickJSBridge.Java.EventQueue

/-!
# The handle registry of a context

A `JSContext` keeps its handles in `refs`, a `WeakHashMap` from `hashCode()`, boxed, to the handle, so
that `close()` can release the references that are still held. A handle that is finalized puts its
reference into `releaseObjPtrPool`, which the next `checkReleased()` drains.

* `Registry` — the handles, `refs`, the pool, and the native calls made with the context's pointer;
* `Registry.step` — creations, copies, collections of weak keys, finalizations, drains and `close()`;
* `Moves` — what each step does, with its condition;
* `Registered` — every unreleased handle is in `refs`;
* `Undisplaced` — the steps that give no unreleased handle's key to another handle and clear none;
* `registered_iff_undisplaced` — in a run `Registered` holds throughout iff every step is undisplaced;
  then `close()` passes every unreleased handle to `_releasePtr` exactly once before `_releaseContext`.
-/

namespace QuickJSBridge

open EventQueue (NativeMethod)

/-! ## The registry -/

/-- `hashCode()` -/
abbrev Hash := BitVec 32

/-- `JSValue.TYPE_UNDEFINED`, which is the hash code of every `JSObject.Undefined`. -/
def undefinedHash : Hash := 99

/-- `Integer.valueOf` boxes these in shared objects that are never collected. -/
def inIntegerCache (k : Hash) : Bool := -128 ≤ k.toInt ∧ k.toInt ≤ 127

structure Handle where
  hash : Hash
  released : Bool
  deriving DecidableEq

/-- A native call with the context's pointer. -/
inductive Call where
  -- `_releasePtr` with the reference of handle `id`
  | releasePtr (id : Nat)
  -- `_releasePtr` with the context's own reference, the global object
  | releaseGlobal
  | native (n : NativeMethod)
  deriving DecidableEq

/-- Handles are Java objects and have an identity, here a number. -/
structure Registry where
  handle : Nat → Option Handle
  refs : AList fun _ : Hash => Nat
  releaseObjPtrPool : List Nat
  -- `released` and `hashCode()` of the context itself
  released : Bool
  contextHash : Hash
  calls : List Call

namespace Registry

def init (contextHash : Hash) : Registry where
  handle := fun _ => none
  refs := ∅
  releaseObjPtrPool := []
  released := false
  contextHash := contextHash
  calls := []

/-- The handles that `refs.values()` yields. -/
def values (s : Registry) : List Nat := s.refs.entries.map (·.2)

/-- Handle `id` is one of the context's and its `released` flag is false. -/
def Unreleased (s : Registry) (id : Nat) (h : Handle) : Prop :=
  s.handle id = some h ∧ h.released = false

def setHandle (s : Registry) (id : Nat) (h : Handle) : Registry :=
  { s with handle := Function.update s.handle id (some h) }

def addObjRef (s : Registry) (id : Nat) (k : Hash) : Registry :=
  { s with refs := s.refs.insert k id }

def removeObjRef (s : Registry) (k : Hash) : Registry := { s with refs := s.refs.erase k }

def releasePtr (s : Registry) (id : Nat) : Registry :=
  { s with calls := s.calls ++ [.releasePtr id] }

/-- `JSContext.releaseObjRef` -/
def releaseObjRef (s : Registry) (id : Nat) (h : Handle) (finalize : Bool) : Registry :=
  (if finalize then { s with releaseObjPtrPool := s.releaseObjPtrPool ++ [id] }
    else s.releasePtr id).removeObjRef h.hash

/-- `JSValue.close(boolean finalize)` -/
def closeHandle (s : Registry) (finalize : Bool) (id : Nat) : Registry :=
  match s.handle id with
  | none => s
  | some h =>
    if h.released then s
    else (s.setHandle id { h with released := true }).releaseObjRef id h finalize

def checkReleaseObjPtrPool (s : Registry) : Registry :=
  { s with calls := s.calls ++ s.releaseObjPtrPool.map .releasePtr, releaseObjPtrPool := [] }

/-- `it.close()` for each of the handles. -/
def closeAll (s : Registry) (ids : List Nat) : Registry := ids.foldl (closeHandle · false) s

/-- The `JSValue.close` of the context itself. -/
def closeGlobal (s : Registry) : Registry :=
  ({ s with released := true, calls := s.calls ++ [Call.releaseGlobal] } : Registry).removeObjRef
    s.contextHash

/-- The runnable of `JSContext.close`. What the plugins do in their `close` are steps before it. -/
def close (s : Registry) : Registry :=
  if s.released then s
  else
    let s := (s.closeAll s.values).checkReleaseObjPtrPool.closeGlobal
    { s with calls := s.calls ++ [.native .releaseContext] }

inductive Act where
  -- `createJSValue`, for a value that is not undefined
  | create (id : Nat) (hash : Hash)
  -- `createJSValue` for undefined: the constructor of `Undefined` sets `released` at its end
  | createUndefined (id : Nat)
  -- the constructors of `JSObject`, `JSArray` and `JSFunction` that take over handle `old`
  | copy (id : Nat) (hash : Hash) (old : Nat)
  -- the collector clears a key of `refs`
  | collect (k : Hash)
  -- handle `id`, which nothing refers to any more, is finalized
  | finalize (id : Nat)
  | checkReleased
  | close
  deriving DecidableEq

def step (s : Registry) : Act → Option Registry
  | .create id hash =>
    if s.released = false ∧ s.handle id = none then
      some ((s.setHandle id ⟨hash, false⟩).addObjRef id hash)
    else none
  | .createUndefined id =>
    if s.released = false ∧ s.handle id = none then
      some ((s.setHandle id ⟨undefinedHash, true⟩).addObjRef id undefinedHash)
    else none
  | .copy id hash old =>
    match s.handle old with
    | some h =>
      if s.released = false ∧ s.handle id = none ∧ h.released = false then
        some ((((s.setHandle old { h with released := true }).removeObjRef h.hash).setHandle id
          ⟨hash, false⟩).addObjRef id hash).checkReleaseObjPtrPool
      else none
    | none => none
  | .collect k => if k ∈ s.refs ∧ inIntegerCache k = false then some (s.removeObjRef k) else none
  | .finalize id => if id ∉ s.values then some (s.closeHandle true id) else none
  | .checkReleased => some s.checkReleaseObjPtrPool
  | .close => some s.close

/-! ## The property and the guard -/

/-- `refs` contains every unreleased handle. -/
def Registered (s : Registry) : Prop :=
  ∀ id h, s.Unreleased id h → s.refs.lookup h.hash = some id

/-- No unreleased handle loses its key: a new handle has another hash code than the unreleased ones,
and the collector clears no key of theirs. -/
def Undisplaced (s : Registry) : Act → Prop
  | .create _ hash => ∀ j h, s.Unreleased j h → h.hash ≠ hash
  | .createUndefined _ => ∀ j h, s.Unreleased j h → h.hash ≠ undefinedHash
  | .copy _ hash old => ∀ j h, j ≠ old → s.Unreleased j h → h.hash ≠ hash
  | .collect k => ∀ j h, s.Unreleased j h → h.hash ≠ k
  | _ => True

/-! ## Small facts about the operations -/

@[simp] theorem setHandle_refs (s : Registry) (id : Nat) (h : Handle) :
    (s.setHandle id h).refs = s.refs := rfl

@[simp] theorem setHandle_calls (s : Registry) (id : Nat) (h : Handle) :
    (s.setHandle id h).calls = s.calls := rfl

@[simp] theorem setHandle_handle (s : Registry) (id : Nat) (h : Handle) (j : Nat) :
    (s.setHandle id h).handle j = if j = id then some h else s.handle j := by
  unfold setHandle
  by_cases hj : j = id
  · rw [if_pos hj, hj]
    exact Function.update_self ..
  · rw [if_neg hj]
    exact Function.update_of_ne hj ..

@[simp] theorem addObjRef_handle (s : Registry) (id : Nat) (k : Hash) :
    (s.addObjRef id k).handle = s.handle := rfl

@[simp] theorem addObjRef_refs (s : Registry) (id : Nat) (k : Hash) :
    (s.addObjRef id k).refs = s.refs.insert k id := rfl

@[simp] theorem removeObjRef_handle (s : Registry) (k : Hash) :
    (s.removeObjRef k).handle = s.handle := rfl

@[simp] theorem removeObjRef_refs (s : Registry) (k : Hash) :
    (s.removeObjRef k).refs = s.refs.erase k := rfl

@[simp] theorem checkReleaseObjPtrPool_handle (s : Registry) :
    s.checkReleaseObjPtrPool.handle = s.handle := rfl

@[simp] theorem checkReleaseObjPtrPool_refs (s : Registry) :
    s.checkReleaseObjPtrPool.refs = s.refs := rfl

@[simp] theorem releaseObjRef_handle (s : Registry) (id : Nat) (h : Handle) (finalize : Bool) :
    (s.releaseObjRef id h finalize).handle = s.handle := by
  cases finalize <;> rfl

/-- Registering a handle under `k` takes the entry of every handle with this hash code. -/
theorem lookup_addObjRef (s : Registry) (id : Nat) {k k' : Hash} (h : k' = k) :
    (s.addObjRef id k).refs.lookup k' = some id := by
  rw [h]
  exact AList.lookup_insert _

theorem mem_values_of_lookup {s : Registry} {k : Hash} {id : Nat} (h : s.refs.lookup k = some id) :
    id ∈ s.values :=
  List.mem_map.mpr ⟨⟨k, id⟩, AList.mem_lookup_iff.mp h, rfl⟩

/-- A handle in the registry that is not unreleased has nothing to close. -/
theorem closeHandle_of_not_unreleased {s : Registry} {id : Nat} (finalize : Bool)
    (h : ∀ h, ¬ s.Unreleased id h) : s.closeHandle finalize id = s := by
  unfold closeHandle
  split
  · rfl
  · rename_i h' hid
    split
    · rfl
    · rename_i hrel
      exact absurd ⟨hid, by simpa using hrel⟩ (h h')

theorem closeHandle_of_unreleased {s : Registry} {id : Nat} {h : Handle} (finalize : Bool)
    (hun : s.Unreleased id h) :
    s.closeHandle finalize id =
      (s.setHandle id { h with released := true }).releaseObjRef id h finalize := by
  unfold closeHandle
  rw [hun.1]
  show (if h.released then s else _) = _
  rw [hun.2]
  rfl

/-- Marking one handle released leaves the others as they are. -/
theorem unreleased_markReleased {s : Registry} {id j : Nat} (h' : Handle) {h : Handle} :
    (s.setHandle id { h' with released := true }).Unreleased j h ↔ s.Unreleased j h ∧ j ≠ id := by
  unfold Unreleased
  rw [setHandle_handle]
  by_cases hj : j = id
  · rw [if_pos hj]
    constructor
    · rintro ⟨heq, hrel⟩
      rw [← Option.some.inj heq] at hrel
      cases hrel
    · rintro ⟨_, hne⟩
      exact absurd hj hne
  · rw [if_neg hj]
    exact ⟨fun hun => ⟨hun, hj⟩, fun hun => hun.1⟩

/-- Closing one handle releases that handle and no other. -/
theorem unreleased_closeHandle {s : Registry} {finalize : Bool} {id j : Nat} {h : Handle} :
    (s.closeHandle finalize id).Unreleased j h ↔ s.Unreleased j h ∧ j ≠ id := by
  by_cases hex : ∃ h', s.Unreleased id h'
  · obtain ⟨h', hun⟩ := hex
    rw [closeHandle_of_unreleased finalize hun, ← unreleased_markReleased h']
    unfold Unreleased
    rw [releaseObjRef_handle]
  · have hnone : ∀ h', ¬ s.Unreleased id h' := fun h' hun => hex ⟨h', hun⟩
    rw [closeHandle_of_not_unreleased finalize hnone]
    refine ⟨fun hun => ⟨hun, ?_⟩, fun hun => hun.1⟩
    rintro rfl
    exact hnone h hun

/-- After the loop of `close()` the handles that are still unreleased are those it did not visit. -/
theorem unreleased_closeAll {s : Registry} {ids : List Nat} {j : Nat} {h : Handle} :
    (s.closeAll ids).Unreleased j h ↔ s.Unreleased j h ∧ j ∉ ids := by
  induction ids generalizing s with
  | nil => simp [closeAll]
  | cons id ids ih =>
    have hrec : s.closeAll (id :: ids) = (s.closeHandle false id).closeAll ids := rfl
    rw [hrec, ih, unreleased_closeHandle, List.mem_cons, not_or, and_assoc]

/-! ## Exactness: one step keeps `Registered` iff it is undisplaced -/

/-- Registering a new handle keeps `Registered` iff no unreleased handle has its hash code. -/
theorem registered_add {s : Registry} {id : Nat} (new : Handle) (hr : s.Registered)
    (hfresh : s.handle id = none) :
    ((s.setHandle id new).addObjRef id new.hash).Registered ↔
      ∀ j h, s.Unreleased j h → h.hash ≠ new.hash := by
  have hne : ∀ j h, s.Unreleased j h → j ≠ id := by
    rintro j h hun rfl
    rw [hun.1] at hfresh
    cases hfresh
  constructor
  · -- the key of an unreleased handle with this hash code now leads to `id`
    intro hr' j h hun heq
    have hj := hne j h hun
    have hlook := hr' j h ⟨by simp [hj, hun.1], hun.2⟩
    rw [lookup_addObjRef _ _ heq] at hlook
    exact hj (Option.some.inj hlook).symm
  · intro hg j h hun
    obtain ⟨hj, hrel⟩ := hun
    rw [addObjRef_handle, setHandle_handle] at hj
    split at hj
    · rename_i hid
      rw [hid]
      exact lookup_addObjRef _ _ (by rw [Option.some.inj hj])
    · rw [addObjRef_refs, setHandle_refs, AList.lookup_insert_ne (hg j h ⟨hj, hrel⟩)]
      exact hr j h ⟨hj, hrel⟩

/-- The first half of a copy: `old` is marked released and taken out of `refs`. -/
def disown (s : Registry) (old : Nat) (ho : Handle) : Registry :=
  (s.setHandle old { ho with released := true }).removeObjRef ho.hash

theorem unreleased_disown {s : Registry} {old j : Nat} {ho h : Handle} :
    (s.disown old ho).Unreleased j h ↔ s.Unreleased j h ∧ j ≠ old := by
  rw [← unreleased_markReleased ho]
  unfold Unreleased disown
  rw [removeObjRef_handle]

theorem registered_disown {s : Registry} {old : Nat} {ho : Handle} (hr : s.Registered)
    (hold : s.Unreleased old ho) : (s.disown old ho).Registered := by
  intro j h hun
  obtain ⟨hun, hj⟩ := unreleased_disown.mp hun
  have hlook := hr j h hun
  -- the entry of `old` is its own, so taking it out takes no other handle out
  have hkey : h.hash ≠ ho.hash := by
    intro heq
    rw [heq, hr old ho hold] at hlook
    exact hj (Option.some.inj hlook).symm
  show (s.refs.erase ho.hash).lookup h.hash = some j
  rw [AList.lookup_erase_ne hkey]
  exact hlook

/-- What each step does, with its condition. -/
inductive Moves (s : Registry) : Act → Registry → Prop where
  | create {id : Nat} {hash : Hash} (hopen : s.released = false) (hfresh : s.handle id = none) :
      Moves s (.create id hash) ((s.setHandle id ⟨hash, false⟩).addObjRef id hash)
  | createUndefined {id : Nat} (hopen : s.released = false) (hfresh : s.handle id = none) :
      Moves s (.createUndefined id)
        ((s.setHandle id ⟨undefinedHash, true⟩).addObjRef id undefinedHash)
  | copy {id old : Nat} {hash : Hash} {ho : Handle} (hold : s.Unreleased old ho)
      (hopen : s.released = false) (hfresh : s.handle id = none) :
      Moves s (.copy id hash old)
        (((s.disown old ho).setHandle id ⟨hash, false⟩).addObjRef id hash).checkReleaseObjPtrPool
  | collect {k : Hash} : Moves s (.collect k) (s.removeObjRef k)
  | finalize {id : Nat} (hout : id ∉ s.values) : Moves s (.finalize id) (s.closeHandle true id)
  | checkReleased : Moves s .checkReleased s.checkReleaseObjPtrPool
  | close : Moves s .close s.close

theorem moves_of_step {s s' : Registry} {a : Act} (h : step s a = some s') : s.Moves a s' := by
  cases a with
  | create id hash =>
    simp only [step] at h
    split at h
    · rename_i hen
      cases h
      exact .create hen.1 hen.2
    · cases h
  | createUndefined id =>
    simp only [step] at h
    split at h
    · rename_i hen
      cases h
      exact .createUndefined hen.1 hen.2
    · cases h
  | copy id hash old =>
    simp only [step] at h
    split at h
    · rename_i ho hold
      split at h
      · rename_i hen
        cases h
        exact .copy ⟨hold, hen.2.2⟩ hen.1 hen.2.1
      · cases h
    · cases h
  | collect k =>
    simp only [step] at h
    split at h
    · cases h
      exact .collect
    · cases h
  | finalize id =>
    simp only [step] at h
    split at h
    · cases h
      exact .finalize ‹_›
    · cases h
  | checkReleased =>
    cases h
    exact .checkReleased
  | close =>
    cases h
    exact .close

theorem disown_handle_of_none {s : Registry} {id old : Nat} {ho : Handle} (hold : s.Unreleased old ho)
    (hfresh : s.handle id = none) : (s.disown old ho).handle id = none := by
  have hne : id ≠ old := by
    rintro rfl
    rw [hold.1] at hfresh
    cases hfresh
  show (s.setHandle old _).handle id = none
  rw [setHandle_handle, if_neg hne]
  exact hfresh

theorem registered_copy {s : Registry} {id old : Nat} {hash : Hash} {ho : Handle} (hr : s.Registered)
    (hold : s.Unreleased old ho) (hfresh : s.handle id = none) :
    (((s.disown old ho).setHandle id ⟨hash, false⟩).addObjRef id hash).Registered ↔
      s.Undisplaced (.copy id hash old) := by
  have hadd := registered_add ⟨hash, false⟩ (registered_disown hr hold)
    (disown_handle_of_none hold hfresh)
  refine hadd.trans ⟨fun hg j h hj hun => ?_, fun hg j h hun => ?_⟩
  · exact hg j h (unreleased_disown.mpr ⟨hun, hj⟩)
  · obtain ⟨hun, hj⟩ := unreleased_disown.mp hun
    exact hg j h hj hun

theorem registered_removeObjRef {s : Registry} {k : Hash} (hr : s.Registered) :
    (s.removeObjRef k).Registered ↔ ∀ j h, s.Unreleased j h → h.hash ≠ k := by
  constructor
  · intro hr' j h hun heq
    have hlook := hr' j h hun
    rw [removeObjRef_refs, heq, AList.lookup_erase] at hlook
    cases hlook
  · intro hg j h hun
    rw [removeObjRef_refs, AList.lookup_erase_ne (hg j h hun)]
    exact hr j h hun

/-- A handle that can be finalized is in no entry of `refs`, so it was released before. -/
theorem closeHandle_of_not_mem_values {s : Registry} {id : Nat} (hr : s.Registered)
    (hout : id ∉ s.values) : s.closeHandle true id = s := by
  apply closeHandle_of_not_unreleased
  intro h hun
  exact hout (mem_values_of_lookup (hr id h hun))

theorem close_of_released {s : Registry} (h : s.released = true) : s.close = s := by
  unfold close
  rw [h]
  rfl

theorem not_unreleased_close {s : Registry} (hr : s.Registered) (hopen : s.released = false)
    (j : Nat) (h : Handle) : ¬ s.close.Unreleased j h := by
  intro hun
  have hun' : (s.closeAll s.values).Unreleased j h := by
    unfold close at hun
    rw [hopen] at hun
    exact hun
  obtain ⟨hun, hout⟩ := unreleased_closeAll.mp hun'
  exact hout (mem_values_of_lookup (hr j h hun))

theorem registered_close {s : Registry} (hr : s.Registered) : s.close.Registered := by
  intro j h hun
  cases hrel : s.released with
  | true =>
    rw [close_of_released hrel] at hun ⊢
    exact hr j h hun
  | false => exact absurd hun (not_unreleased_close hr hrel j h)

theorem registered_step {s s' : Registry} {a : Act} (hr : s.Registered)
    (h : step s a = some s') : s'.Registered ↔ s.Undisplaced a := by
  cases moves_of_step h with
  | @create id hash _ hfresh => exact registered_add ⟨hash, false⟩ hr hfresh
  | createUndefined _ hfresh => exact registered_add ⟨undefinedHash, true⟩ hr hfresh
  | copy hold _ hfresh => exact registered_copy hr hold hfresh
  | collect => exact registered_removeObjRef hr
  | finalize hout =>
    rw [closeHandle_of_not_mem_values hr hout]
    exact ⟨fun _ => trivial, fun _ => hr⟩
  | checkReleased => exact ⟨fun _ => trivial, fun _ => hr⟩
  | close => exact ⟨fun _ => trivial, fun _ => registered_close hr⟩

/-! ## Every reference is passed at most once

A reference that was passed to `_releasePtr`, or waits in the pool, is the one of a released handle. So
`close()` is the first to pass the references of the unreleased handles. -/

def Released (s : Registry) (id : Nat) : Prop := ∃ h, s.handle id = some h ∧ h.released = true

structure Settled (s : Registry) : Prop where
  passed : ∀ id, .releasePtr id ∈ s.calls → s.Released id
  pooled : ∀ id ∈ s.releaseObjPtrPool, s.Released id
  notClosed : s.released = false → .native .releaseContext ∉ s.calls

theorem Settled.not_mem {s : Registry} {id : Nat} {h : Handle} (hs : s.Settled)
    (hun : s.Unreleased id h) : .releasePtr id ∉ s.calls ∧ id ∉ s.releaseObjPtrPool := by
  have hnot : ¬ s.Released id := by
    rintro ⟨h', hid, hrel⟩
    rw [hun.1] at hid
    rw [← Option.some.inj hid, hun.2] at hrel
    cases hrel
  exact ⟨fun hm => hnot (hs.passed id hm), fun hm => hnot (hs.pooled id hm)⟩

/-- A step that calls nothing and releases no fewer handles. -/
theorem Settled.of_released {s s' : Registry} (hs : s.Settled) (hcalls : s'.calls = s.calls)
    (hpool : s'.releaseObjPtrPool = s.releaseObjPtrPool) (hrel : s'.released = s.released)
    (hmono : ∀ id, s.Released id → s'.Released id) : s'.Settled where
  passed id hm := hmono id (hs.passed id (by rw [← hcalls]; exact hm))
  pooled id hm := hmono id (hs.pooled id (by rw [← hpool]; exact hm))
  notClosed h := by
    rw [hcalls]
    exact hs.notClosed (by rw [← hrel]; exact h)

theorem released_setHandle {s : Registry} {id j : Nat} {new : Handle} (hj : s.Released j)
    (hnew : s.handle id = none ∨ new.released = true) : (s.setHandle id new).Released j := by
  obtain ⟨h, hid, hrel⟩ := hj
  by_cases heq : j = id
  · rcases hnew with hnone | hnew
    · rw [← heq, hid] at hnone
      cases hnone
    · exact ⟨new, by rw [setHandle_handle, if_pos heq], hnew⟩
  · exact ⟨h, by rw [setHandle_handle, if_neg heq, hid], hrel⟩

theorem settled_closeHandle {s : Registry} (hs : s.Settled) (finalize : Bool) (id : Nat) :
    (s.closeHandle finalize id).Settled := by
  by_cases hex : ∃ h, s.Unreleased id h
  · obtain ⟨h, hun⟩ := hex
    rw [closeHandle_of_unreleased finalize hun]
    have hmono : ∀ j, s.Released j → (s.setHandle id { h with released := true }).Released j :=
      fun j hj => released_setHandle hj (Or.inr rfl)
    have hself : (s.setHandle id { h with released := true }).Released id :=
      ⟨_, by rw [setHandle_handle, if_pos rfl], rfl⟩
    cases finalize with
    | true =>
      exact {
        passed := fun j hm => hmono j (hs.passed j hm)
        pooled := by
          intro j hm
          rcases List.mem_append.mp hm with hm | hm
          · exact hmono j (hs.pooled j hm)
          · rw [List.mem_singleton.mp hm]
            exact hself
        notClosed := hs.notClosed }
    | false =>
      exact {
        passed := by
          intro j hm
          rcases List.mem_append.mp hm with hm | hm
          · exact hmono j (hs.passed j hm)
          · rw [Call.releasePtr.inj (List.mem_singleton.mp hm)]
            exact hself
        pooled := fun j hm => hmono j (hs.pooled j hm)
        notClosed := by
          intro hrel hm
          rcases List.mem_append.mp hm with hm | hm
          · exact hs.notClosed hrel hm
          · cases List.mem_singleton.mp hm }
  · rw [closeHandle_of_not_unreleased finalize fun h hun => hex ⟨h, hun⟩]
    exact hs

theorem settled_closeAll {s : Registry} (hs : s.Settled) (ids : List Nat) :
    (s.closeAll ids).Settled := by
  induction ids generalizing s with
  | nil => exact hs
  | cons id ids ih => exact ih (settled_closeHandle hs false id)

theorem settled_drain {s : Registry} (hs : s.Settled) : s.checkReleaseObjPtrPool.Settled where
  passed id hm := by
    rcases List.mem_append.mp hm with hm | hm
    · exact hs.passed id hm
    · obtain ⟨j, hj, heq⟩ := List.mem_map.mp hm
      rw [← Call.releasePtr.inj heq]
      exact hs.pooled j hj
  pooled id hm := by cases hm
  notClosed hrel hm := by
    rcases List.mem_append.mp hm with hm | hm
    · exact hs.notClosed hrel hm
    · obtain ⟨j, _, heq⟩ := List.mem_map.mp hm
      cases heq

theorem settled_close {s : Registry} (hs : s.Settled) : s.close.Settled := by
  unfold close
  split
  · exact hs
  · have hdrained : (s.closeAll s.values).checkReleaseObjPtrPool.Settled :=
      settled_drain (settled_closeAll hs s.values)
    exact {
      passed := by
        intro id hm
        rcases List.mem_append.mp hm with hm | hm
        · rcases List.mem_append.mp hm with hm | hm
          · exact hdrained.passed id hm
          · cases List.mem_singleton.mp hm
        · cases List.mem_singleton.mp hm
      pooled := hdrained.pooled
      notClosed := fun h => by cases h }

theorem settled_init (contextHash : Hash) : (init contextHash).Settled where
  passed id hm := by cases hm
  pooled id hm := by cases hm
  notClosed _ hm := by cases hm

theorem settled_step {s s' : Registry} {a : Act} (hs : s.Settled) (h : step s a = some s') :
    s'.Settled := by
  cases moves_of_step h with
  | create _ hfresh =>
    exact hs.of_released rfl rfl rfl fun j hj => released_setHandle hj (Or.inl hfresh)
  | createUndefined _ hfresh =>
    exact hs.of_released rfl rfl rfl fun j hj => released_setHandle hj (Or.inl hfresh)
  | @copy id old hash ho hold _ hfresh =>
    refine settled_drain (hs.of_released rfl rfl rfl fun j hj => ?_)
    have hdis : (s.disown old ho).Released j := released_setHandle hj (Or.inr rfl)
    exact released_setHandle hdis (Or.inl (disown_handle_of_none hold hfresh))
  | collect => exact hs.of_released rfl rfl rfl fun j hj => hj
  | finalize _ => exact settled_closeHandle hs true _
  | checkReleased => exact settled_drain hs
  | close => exact settled_close hs

/-! ## What `close()` passes -/

theorem count_closeHandle_of_ne {s : Registry} {id j : Nat} (h : j ≠ id) :
    (s.closeHandle false id).calls.count (.releasePtr j) = s.calls.count (.releasePtr j) := by
  unfold closeHandle
  split
  · rfl
  · split
    · rfl
    · show (s.calls ++ [Call.releasePtr id]).count (Call.releasePtr j) = _
      have hne : Call.releasePtr id ≠ Call.releasePtr j := fun heq => h (Call.releasePtr.inj heq).symm
      rw [List.count_append, List.count_singleton, if_neg (by simpa using hne)]
      rfl

theorem count_closeAll_of_not_unreleased {s : Registry} {ids : List Nat} {j : Nat}
    (hnone : ∀ h, ¬ s.Unreleased j h) :
    (s.closeAll ids).calls.count (.releasePtr j) = s.calls.count (.releasePtr j) := by
  induction ids generalizing s with
  | nil => rfl
  | cons id ids ih =>
    show ((s.closeHandle false id).closeAll ids).calls.count (Call.releasePtr j) = _
    rw [ih fun h hun => hnone h (unreleased_closeHandle.mp hun).1]
    by_cases hj : j = id
    · rw [hj, closeHandle_of_not_unreleased false (by rw [← hj]; exact hnone)]
    · exact count_closeHandle_of_ne hj

/-- The loop of `close()` passes the reference of an unreleased handle once, however often the handle
is among the values. -/
theorem count_closeAll {s : Registry} {ids : List Nat} {j : Nat} {h : Handle}
    (hun : s.Unreleased j h) (hmem : j ∈ ids) :
    (s.closeAll ids).calls.count (.releasePtr j) = s.calls.count (.releasePtr j) + 1 := by
  induction ids generalizing s with
  | nil => cases hmem
  | cons id ids ih =>
    show ((s.closeHandle false id).closeAll ids).calls.count (Call.releasePtr j) = _
    by_cases hj : j = id
    · have hnone : ∀ h', ¬ (s.closeHandle false id).Unreleased j h' :=
        fun h' hun' => (unreleased_closeHandle.mp hun').2 hj
      rw [count_closeAll_of_not_unreleased hnone, ← hj, closeHandle_of_unreleased false hun]
      show (s.calls ++ [Call.releasePtr j]).count (.releasePtr j) = _
      rw [List.count_append, List.count_singleton_self]
    · have hin : j ∈ ids := by
        rcases List.mem_cons.mp hmem with heq | hin
        · exact absurd heq hj
        · exact hin
      rw [ih (unreleased_closeHandle.mpr ⟨hun, hj⟩) hin, count_closeHandle_of_ne hj]

theorem closeAll_fields (s : Registry) (ids : List Nat) :
    (s.closeAll ids).releaseObjPtrPool = s.releaseObjPtrPool ∧
      (s.closeAll ids).released = s.released := by
  induction ids generalizing s with
  | nil => exact ⟨rfl, rfl⟩
  | cons id ids ih =>
    have hone : (s.closeHandle false id).releaseObjPtrPool = s.releaseObjPtrPool ∧
        (s.closeHandle false id).released = s.released := by
      unfold closeHandle
      split
      · exact ⟨rfl, rfl⟩
      · split <;> exact ⟨rfl, rfl⟩
    have hrec := ih (s.closeHandle false id)
    exact ⟨hrec.1.trans hone.1, hrec.2.trans hone.2⟩

/-- `close()` on an open context ends with the only `_releaseContext`, and before it the reference of
every registered unreleased handle was passed exactly once. -/
theorem close_passes {s : Registry} (hs : s.Settled) (hopen : s.released = false) :
    ∃ before, s.close.calls = before ++ [.native .releaseContext] ∧
      .native .releaseContext ∉ before ∧
      ∀ j h, s.Unreleased j h → s.refs.lookup h.hash = some j →
        before.count (.releasePtr j) = 1 := by
  have hcalls : s.close.calls = ((s.closeAll s.values).calls ++
      s.releaseObjPtrPool.map .releasePtr ++ [.releaseGlobal]) ++ [.native .releaseContext] := by
    unfold close
    rw [hopen, ← (closeAll_fields s s.values).1]
    rfl
  refine ⟨_, hcalls, ?_, fun j h hun hlook => ?_⟩
  · intro hm
    have hclosed := settled_drain (settled_closeAll hs s.values)
    have hrel : (s.closeAll s.values).checkReleaseObjPtrPool.released = false :=
      (closeAll_fields s s.values).2.trans hopen
    rcases List.mem_append.mp hm with hm | hm
    · rw [← (closeAll_fields s s.values).1] at hm
      exact hclosed.notClosed hrel hm
    · cases List.mem_singleton.mp hm
  · obtain ⟨hcall, hpool⟩ := hs.not_mem hun
    have hmap : (s.releaseObjPtrPool.map Call.releasePtr).count (.releasePtr j) = 0 := by
      rw [List.count_eq_zero]
      intro hm
      obtain ⟨i, hi, heq⟩ := List.mem_map.mp hm
      rw [Call.releasePtr.inj heq] at hi
      exact hpool hi
    rw [List.count_append, List.count_append, count_closeAll hun (mem_values_of_lookup hlook),
      List.count_eq_zero.mpr hcall, hmap]
    rfl

/-! ## The end of the calls -/

theorem closeHandle_released (s : Registry) (finalize : Bool) (id : Nat) :
    (s.closeHandle finalize id).released = s.released := by
  unfold closeHandle
  split
  · rfl
  · split
    · rfl
    · cases finalize <;> rfl

theorem step_released {s s' : Registry} {a : Act} (hne : a ≠ .close) (h : step s a = some s') :
    s'.released = s.released := by
  cases moves_of_step h with
  | create _ _ => rfl
  | createUndefined _ _ => rfl
  | copy _ _ _ => rfl
  | collect => rfl
  | finalize _ => exact closeHandle_released s true _
  | checkReleased => rfl
  | close => exact absurd rfl hne

theorem closeHandle_finalize_calls (s : Registry) (id : Nat) :
    (s.closeHandle true id).calls = s.calls := by
  unfold closeHandle
  split
  · rfl
  · split <;> rfl

/-- On a closed context nothing but a drain calls native code. -/
theorem step_calls_of_released {s s' : Registry} {a : Act} (hclosed : s.released = true)
    (hne : a ≠ .checkReleased) (h : step s a = some s') : s'.calls = s.calls := by
  have hshut : s.released ≠ false := by rw [hclosed]; decide
  cases moves_of_step h with
  | create hopen _ => exact absurd hopen hshut
  | createUndefined hopen _ => exact absurd hopen hshut
  | copy _ hopen _ => exact absurd hopen hshut
  | collect => rfl
  | finalize _ => exact closeHandle_finalize_calls s _
  | checkReleased => exact absurd rfl hne
  | close => rw [close_of_released hclosed]

/-! ## The registry over whole runs -/

/-- **Registered handles.** In a run `refs` contains the unreleased handles in every state that is
passed iff every step is undisplaced; and then `close()` passes each of them exactly once before its
`_releaseContext`. -/
theorem registered_iff_undisplaced {contextHash : Hash} {as : List Act} {s : Registry}
    (h : Machine.Run step (init contextHash) as s) :
    ((∀ bs t, bs <+: as → Machine.Run step (init contextHash) bs t → t.Registered) ↔
      Machine.GuardedRun step Undisplaced (init contextHash) as s) ∧
    (Machine.GuardedRun step Undisplaced (init contextHash) as s → s.released = false →
      ∃ before, s.close.calls = before ++ [.native .releaseContext] ∧
        .native .releaseContext ∉ before ∧
        ∀ j h, s.Unreleased j h → before.count (.releasePtr j) = 1) := by
  have hinit : (init contextHash).Registered := fun j h hun => by cases hun.1
  have hiff := Machine.guardedRun_iff_forall_prefix (I := Registered)
    (fun s a s' hr hst => registered_step (a := a) hr hst) hinit h
  refine ⟨hiff.symm, fun hg hopen => ?_⟩
  have hr : s.Registered := hiff.mp hg as s (List.prefix_rfl) h
  have hs : s.Settled := h.invariant (fun _ _ _ hs _ hst => settled_step hs hst)
    (settled_init contextHash)
  obtain ⟨before, hcalls, hlast, hpass⟩ := close_passes hs hopen
  exact ⟨before, hcalls, hlast, fun j h hun => hpass j h hun (hr j h hun)⟩

/-- Two handles with different hash codes. -/
theorem registered_iff_undisplaced_pair :
    ∃ s, Machine.Run step (init 7) [.create 1 1000, .create 2 2000] s ∧
      s.released = false ∧ s.Unreleased 1 ⟨1000, false⟩ ∧
      ∃ before, s.close.calls = before ++ [.native .releaseContext] ∧
        .native .releaseContext ∉ before ∧
        ∀ j h, s.Unreleased j h → before.count (.releasePtr j) = 1 := by
  have hrun : ∃ s, Machine.GuardedRun step Undisplaced (init 7) [.create 1 1000, .create 2 2000] s ∧
      s.released = false ∧ s.Unreleased 1 ⟨1000, false⟩ := by
    refine ⟨_, .cons (fun j h hun => by cases hun.1) rfl (.cons ?_ rfl (.nil _)), rfl, rfl, rfl⟩
    intro j h hun heq
    obtain ⟨hj, _⟩ := hun
    rw [addObjRef_handle, setHandle_handle] at hj
    split at hj
    · rw [← Option.some.inj hj] at heq
      cases heq
    · cases hj
  obtain ⟨s, hrun, hopen, hun⟩ := hrun
  exact ⟨s, hrun.run, hopen, hun, (registered_iff_undisplaced hrun.run).2 hrun hopen⟩

/-- The collector clears the key of a handle that is in use. -/
theorem not_registered_collect :
    ¬ ∀ as s, Machine.Run step (init 7) as s → s.Registered := by
  intro hall
  have hrun : ∃ s, Machine.Run step (init 7) [.create 1 1000, .collect 1000] s ∧
      s.Unreleased 1 ⟨1000, false⟩ ∧ s.refs.lookup 1000 = none := by
    refine ⟨_, .cons trivial rfl (.cons trivial rfl (.nil _)), ⟨rfl, rfl⟩, rfl⟩
  obtain ⟨s, hrun, hun, hnone⟩ := hrun
  have hlook := hall _ s hrun 1 _ hun
  rw [hnone] at hlook
  cases hlook

end Registry

end QuickJSBridge
