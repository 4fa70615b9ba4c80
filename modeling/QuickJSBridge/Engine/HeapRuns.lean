import QuickJSBridge.Engine.RemoveCycles
import QuickJSBridge.Jni.References

/-!
# The heap over whole runs

The engine makes objects, copies and moves references, drops them and collects, in any order. Each of these may
use only references that the code has in its hands, and the parts of objects that it holds: that is what the
code owes. Then no memory is touched after it has been freed, and no assertion of the collector fails.

* `Heap`, `heapStep` — the runtime, and the references in the hands of code and handles;
* `Allowed` — what each operation owes; `heapStep_exact` — one operation;
* `exact_of_allowed`, `heapStep_isSome_of_allowed` — whole runs: the counts stay exact, and no operation fails;
* `freeRuntime_iff` — the assertion of `JS_FreeRuntime` that no object is left fails exactly when a reference was
  never dropped;
* `Covers`, `runGC_resumes` — a collection between two instructions of the bridge is a step of its machine, and
  the object of a handle survives it.
-/

namespace QuickJSBridge.Gc

open RefCounts Machine

variable {α : Type*} [DecidableEq α]

/-! ## Operations -/

namespace Runtime

/-- An object as `add_gc_object` links it, with one reference to it, and with the references `cs`. -/
def newObject (rt : Runtime α) (p : α) (t : ObjType) (cs : List α) : Runtime α :=
  { rt with
    allocated := Function.update rt.allocated p true
    refCount := Function.update rt.refCount p 1
    gcObjType := Function.update rt.gcObjType p t
    mark := Function.update rt.mark p false
    children := Function.update rt.children p cs
    fields := Function.update rt.fields p cs
    gcObjList := rt.gcObjList ++ [p] }

/-- The fields of `p` become `cs`. -/
def setFields (rt : Runtime α) (p : α) (cs : List α) : Runtime α :=
  { rt with
    children := Function.update rt.children p cs
    fields := Function.update rt.fields p cs }

end Runtime

/-- The runtime, and the references that no object has. -/
structure Heap (α : Type*) where
  rt : Runtime α
  external : α → Nat

inductive HeapOp (α : Type*) where
  -- a new object takes over the references `cs`
  | newObject (p : α) (t : ObjType) (cs : List α)
  -- `JS_DupValue`, `JS_DupContext`, `js_dup_shape`
  | dup (p : α)
  -- `JS_DupValue` of a field
  | get (p c : α)
  -- a field of `p` takes over a reference
  | store (p c : α)
  -- a field of `p` is cleared, its reference is left to the code
  | take (p c : α)
  -- `JS_FreeValue`, `JS_FreeContext`, `js_free_shape`
  | free (p : α)
  | runGC

namespace Heap

def dup (h : Heap α) (c : α) : Option (Heap α) :=
  if h.rt.allocated c then
    some ⟨h.rt.setCount c (h.rt.refCount c + 1), Function.update h.external c (h.external c + 1)⟩
  else none

def free (h : Heap α) (c : α) : Option (Heap α) :=
  (freeValue h.rt.gcObjList.length h.rt c).map fun rt => ⟨rt, Function.update h.external c (h.external c - 1)⟩

end Heap

def heapStep (h : Heap α) : HeapOp α → Option (Heap α)
  | .newObject p t cs =>
    some ⟨h.rt.newObject p t cs, fun q => h.external q - cs.count q + if q = p then 1 else 0⟩
  | .dup p => h.dup p
  | .get p c => if h.rt.allocated p then h.dup c else none
  | .store p c =>
    if h.rt.allocated p then
      some ⟨h.rt.setFields p (c :: h.rt.children p), Function.update h.external c (h.external c - 1)⟩
    else none
  | .take p c =>
    if h.rt.allocated p then
      some ⟨h.rt.setFields p ((h.rt.children p).erase c), Function.update h.external c (h.external c + 1)⟩
    else none
  | .free p => h.free p
  | .runGC => (Gc.runGC h.rt.gcObjList.length h.rt).map fun rt => ⟨rt, h.external⟩

/-- What the code owes: memory that `malloc` returns is not in use, and the code has the references that it
copies, moves or drops, and a reference to the object that it reads or changes. -/
def Allowed (h : Heap α) : HeapOp α → Prop
  | .newObject p t cs =>
    h.rt.allocated p = false ∧ (∀ c ∈ cs, cs.count c ≤ h.external c) ∧
      ∀ c ∈ cs, t.mayHold (h.rt.gcObjType c) = true
  | .dup p => 0 < h.external p
  | .get p c => 0 < h.external p ∧ c ∈ h.rt.children p
  | .store p c =>
    0 < h.external p ∧ 0 < h.external c ∧ (h.rt.gcObjType p).mayHold (h.rt.gcObjType c) = true
  | .take p c => 0 < h.external p ∧ c ∈ h.rt.children p
  | .free p => 0 < h.external p
  | .runGC => True

instance (h : Heap α) (op : HeapOp α) : Decidable (Allowed h op) :=
  match op with
  | .newObject p t cs => inferInstanceAs (Decidable (h.rt.allocated p = false ∧
      (∀ c ∈ cs, cs.count c ≤ h.external c) ∧ ∀ c ∈ cs, t.mayHold (h.rt.gcObjType c) = true))
  | .dup p | .free p => inferInstanceAs (Decidable (0 < h.external p))
  | .get p c | .take p c => inferInstanceAs (Decidable (0 < h.external p ∧ c ∈ h.rt.children p))
  | .store p c => inferInstanceAs (Decidable (0 < h.external p ∧ 0 < h.external c ∧
      (h.rt.gcObjType p).mayHold (h.rt.gcObjType c) = true))
  | .runGC => isTrue trivial

/-! ## One operation -/

variable {h : Heap α}

theorem exact_newObject (hexact : Exact h.external h.rt) {p : α} {t : ObjType} {cs : List α}
    (hallow : Allowed h (.newObject p t cs)) :
    Exact (fun q => h.external q - cs.count q + if q = p then 1 else 0) (h.rt.newObject p t cs) := by
  obtain ⟨hnew, howned, htypes⟩ := hallow
  have hp : p ∉ h.rt.gcObjList := by
    rw [← hexact.linked p, hnew]
    decide
  have hne : ∀ q ∈ h.rt.gcObjList, q ≠ p := fun q hq heq => hp (heq ▸ hq)
  have hcs : ∀ c ∈ cs, c ∈ h.rt.gcObjList := by
    intro c hc
    have hcount := List.count_pos_iff.mpr hc
    have hle := howned c hc
    exact hexact.roots c (by omega)
  have hle : ∀ q, cs.count q ≤ h.external q := by
    intro q
    by_cases hq : q ∈ cs
    · exact howned q hq
    · rw [List.count_eq_zero.mpr hq]
      exact Nat.zero_le _
  have hroot : h.external p = 0 := by
    by_contra hpos
    exact hp (hexact.roots p (Nat.pos_of_ne_zero hpos))
  -- nothing has a reference to memory that is not in use
  have hunused : incoming h.rt.children h.rt.gcObjList p = 0 := by
    by_contra hpos
    obtain ⟨q, hq, hqp⟩ := incoming_pos_iff.mp (Nat.pos_of_ne_zero hpos)
    exact hp (hexact.closed q hq p hqp)
  have hcsp : cs.count p = 0 := List.count_eq_zero.mpr fun hmem => hp (hcs p hmem)
  have hincoming : ∀ q, incoming (Function.update h.rt.children p cs) (h.rt.gcObjList ++ [p]) q =
      incoming h.rt.children h.rt.gcObjList q + cs.count q := by
    intro q
    rw [incoming_append, incoming_singleton, Function.update_self, incoming_update_of_not_mem hp]
  have hsplit : ∀ q, q ∈ (h.rt.newObject p t cs).gcObjList ↔ q ∈ h.rt.gcObjList ∨ q = p := by
    intro q
    show q ∈ h.rt.gcObjList ++ [p] ↔ _
    rw [List.mem_append, List.mem_singleton]
  exact {
    nodup := List.nodup_append.mpr ⟨hexact.nodup, List.nodup_singleton p, fun q hq r hr heq =>
      hne q hq (heq.trans (List.mem_singleton.mp hr))⟩
    linked := fun q => by
      rw [hsplit q]
      show Function.update h.rt.allocated p true q = true ↔ _
      by_cases hq : q = p
      · simp [hq]
      · rw [Function.update_of_ne hq, hexact.linked q]
        simp [hq]
    zero := hexact.zero
    tmp := hexact.tmp
    unmarked := fun q hq => by
      show Function.update h.rt.mark p false q = false
      rcases (hsplit q).mp hq with hq | rfl
      · rw [Function.update_of_ne (hne q hq)]
        exact hexact.unmarked q hq
      · rw [Function.update_self]
    closed := fun q hq c hc => by
      have hc : c ∈ Function.update h.rt.children p cs q := hc
      refine (hsplit c).mpr (.inl ?_)
      rcases (hsplit q).mp hq with hq | rfl
      · rw [Function.update_of_ne (hne q hq)] at hc
        exact hexact.closed q hq c hc
      · rw [Function.update_self] at hc
        exact hcs c hc
    roots := fun q hq => by
      by_cases hqp : q = p
      · exact (hsplit q).mpr (.inr hqp)
      · simp only [hqp, if_false] at hq
        exact (hsplit q).mpr (.inl (hexact.roots q (by omega)))
    count := fun q hq => by
      show Function.update h.rt.refCount p 1 q = _ +
        incoming (Function.update h.rt.children p cs) (h.rt.gcObjList ++ [p]) q
      rw [hincoming q]
      rcases (hsplit q).mp hq with hq | rfl
      · have hcount := hexact.count q hq
        have hle := hle q
        rw [Function.update_of_ne (hne q hq), if_neg (hne q hq)]
        omega
      · rw [Function.update_self, if_pos rfl]
        omega
    pos := fun q hq => by
      show 0 < Function.update h.rt.refCount p 1 q
      rcases (hsplit q).mp hq with hq | rfl
      · rw [Function.update_of_ne (hne q hq)]
        exact hexact.pos q hq
      · rw [Function.update_self]
        exact Nat.one_pos
    agree := fun q hq => by
      show (Function.update h.rt.fields p cs q).Perm (Function.update h.rt.children p cs q)
      rcases (hsplit q).mp hq with hq | rfl
      · rw [Function.update_of_ne (hne q hq), Function.update_of_ne (hne q hq)]
        exact hexact.agree q hq
      · rw [Function.update_self, Function.update_self]
    types := fun q hq c hc => by
      have hc : c ∈ Function.update h.rt.children p cs q := hc
      show (Function.update h.rt.gcObjType p t q).mayHold (Function.update h.rt.gcObjType p t c) = true
      rcases (hsplit q).mp hq with hq | rfl
      · rw [Function.update_of_ne (hne q hq)] at hc
        rw [Function.update_of_ne (hne q hq), Function.update_of_ne (hne c (hexact.closed q hq c hc))]
        exact hexact.types q hq c hc
      · rw [Function.update_self] at hc
        rw [Function.update_self, Function.update_of_ne (hne c (hcs c hc))]
        exact htypes c hc }

theorem exact_dup (hexact : Exact h.external h.rt) {c : α} (hc : h.rt.allocated c = true) :
    Exact (Function.update h.external c (h.external c + 1)) (h.rt.setCount c (h.rt.refCount c + 1)) where
  nodup := hexact.nodup
  linked := hexact.linked
  zero := hexact.zero
  tmp := hexact.tmp
  unmarked := hexact.unmarked
  closed := hexact.closed
  roots := fun q hq => by
    by_cases hqc : q = c
    · exact hqc ▸ (hexact.linked c).mp hc
    · rw [Function.update_of_ne hqc] at hq
      exact hexact.roots q hq
  count := fun q hq => by
    show Function.update h.rt.refCount c (h.rt.refCount c + 1) q =
      _ + incoming h.rt.children h.rt.gcObjList q
    have hcount := hexact.count q hq
    by_cases hqc : q = c
    · subst hqc
      rw [Function.update_self, Function.update_self]
      omega
    · rw [Function.update_of_ne hqc, Function.update_of_ne hqc]
      exact hcount
  pos := fun q hq => by
    show 0 < Function.update h.rt.refCount c (h.rt.refCount c + 1) q
    by_cases hqc : q = c
    · rw [hqc, Function.update_self]
      omega
    · rw [Function.update_of_ne hqc]
      exact hexact.pos q hq
  agree := hexact.agree
  types := hexact.types

/-- A reference goes from the code to an object, or back. -/
theorem exact_setFields (hexact : Exact h.external h.rt) {p : α} {cs : List α} {external' : α → Nat}
    (hp : p ∈ h.rt.gcObjList)
    (hmoved : ∀ q, external' q + cs.count q = h.external q + (h.rt.children p).count q)
    (hcs : ∀ c ∈ cs, c ∈ h.rt.gcObjList)
    (htypes : ∀ c ∈ cs, (h.rt.gcObjType p).mayHold (h.rt.gcObjType c) = true) :
    Exact external' (h.rt.setFields p cs) where
  nodup := hexact.nodup
  linked := hexact.linked
  zero := hexact.zero
  tmp := hexact.tmp
  unmarked := hexact.unmarked
  closed := fun q hq c hc => by
    have hc : c ∈ Function.update h.rt.children p cs q := hc
    by_cases hqp : q = p
    · rw [hqp, Function.update_self] at hc
      exact hcs c hc
    · rw [Function.update_of_ne hqp] at hc
      exact hexact.closed q hq c hc
  roots := fun q hq => by
    have hsum := hmoved q
    by_cases hext : 0 < h.external q
    · exact hexact.roots q hext
    · exact hexact.closed p hp q (List.count_pos_iff.mp (by omega))
  count := fun q hq => by
    show h.rt.refCount q = external' q + incoming (Function.update h.rt.children p cs) h.rt.gcObjList q
    have hcount := hexact.count q hq
    have hincoming : incoming (Function.update h.rt.children p cs) h.rt.gcObjList q +
        (h.rt.children p).count q = incoming h.rt.children h.rt.gcObjList q + cs.count q :=
      incoming_update hexact.nodup hp cs q
    have hsum := hmoved q
    omega
  pos := hexact.pos
  agree := fun q hq => by
    show (Function.update h.rt.fields p cs q).Perm (Function.update h.rt.children p cs q)
    by_cases hqp : q = p
    · rw [hqp, Function.update_self, Function.update_self]
    · rw [Function.update_of_ne hqp, Function.update_of_ne hqp]
      exact hexact.agree q hq
  types := fun q hq c hc => by
    have hc : c ∈ Function.update h.rt.children p cs q := hc
    by_cases hqp : q = p
    · rw [hqp, Function.update_self] at hc
      exact hqp ▸ htypes c hc
    · rw [Function.update_of_ne hqp] at hc
      exact hexact.types q hq c hc

/-- **One operation** that owes nothing does not fail, and keeps the counts exact. -/
theorem heapStep_exact (hexact : Exact h.external h.rt) {op : HeapOp α} (hallow : Allowed h op) :
    ∃ h', heapStep h op = some h' ∧ Exact h'.external h'.rt := by
  have halloc : ∀ p, 0 < h.external p → h.rt.allocated p = true := fun p hp =>
    (hexact.linked p).mpr (hexact.roots p hp)
  have hdup : ∀ c, h.rt.allocated c = true → ∃ h', h.dup c = some h' ∧ Exact h'.external h'.rt := by
    intro c hc
    refine ⟨_, if_pos hc, exact_dup hexact hc⟩
  have hchild : ∀ p c, 0 < h.external p → c ∈ h.rt.children p → c ∈ h.rt.gcObjList := fun p c hp hc =>
    hexact.closed p (hexact.roots p hp) c hc
  cases op with
  | newObject p t cs => exact ⟨_, rfl, exact_newObject hexact hallow⟩
  | dup p => exact hdup p (halloc p hallow)
  | get p c =>
    obtain ⟨hp, hc⟩ := hallow
    obtain ⟨h', hstep, hexact'⟩ := hdup c ((hexact.linked c).mpr (hchild p c hp hc))
    exact ⟨h', (if_pos (halloc p hp)).trans hstep, hexact'⟩
  | store p c =>
    obtain ⟨hp, hc, htype⟩ := hallow
    have hmem := hexact.roots p hp
    refine ⟨_, if_pos (halloc p hp), exact_setFields hexact hmem (fun q => ?_) (fun d hd => ?_) fun d hd => ?_⟩
    · show Function.update h.external c (h.external c - 1) q + (c :: h.rt.children p).count q = _
      rw [List.count_cons]
      by_cases hqc : q = c
      · subst hqc
        rw [Function.update_self]
        simp
        omega
      · rw [Function.update_of_ne hqc]
        simp [Ne.symm hqc]
    · rcases List.mem_cons.mp hd with rfl | hd
      · exact hexact.roots d hc
      · exact hchild p d hp hd
    · rcases List.mem_cons.mp hd with rfl | hd
      · exact htype
      · exact hexact.types p hmem d hd
  | take p c =>
    obtain ⟨hp, hc⟩ := hallow
    have hmem := hexact.roots p hp
    refine ⟨_, if_pos (halloc p hp), exact_setFields hexact hmem (fun q => ?_)
      (fun d hd => hchild p d hp (List.mem_of_mem_erase hd))
      fun d hd => hexact.types p hmem d (List.mem_of_mem_erase hd)⟩
    have hcount := (List.perm_cons_erase hc).count_eq q
    rw [List.count_cons] at hcount
    show Function.update h.external c (h.external c + 1) q + ((h.rt.children p).erase c).count q = _
    by_cases hqc : q = c
    · subst hqc
      rw [if_pos (beq_self_eq_true q)] at hcount
      rw [Function.update_self]
      omega
    · rw [if_neg (by simpa using Ne.symm hqc)] at hcount
      rw [Function.update_of_ne hqc]
      omega
  | free p =>
    have hpos : 0 < h.external p := hallow
    have hsplit : ∀ q, h.external q =
        Function.update h.external p (h.external p - 1) q + [p].count q := by
      intro q
      rw [List.count_singleton]
      by_cases hqp : q = p
      · subst hqp
        rw [Function.update_self]
        simp
        omega
      · rw [Function.update_of_ne hqp]
        simp [Ne.symm hqp]
    obtain ⟨rt', hrt', hexact', -⟩ := freeValue_exact hexact (Nat.le_refl _) hsplit
    refine ⟨⟨rt', Function.update h.external p (h.external p - 1)⟩, ?_, hexact'⟩
    show (freeValue h.rt.gcObjList.length h.rt p).map _ = _
    rw [hrt']
    rfl
  | runGC =>
    obtain ⟨rt', hrt', hcollected⟩ := runGC_collected hexact (Nat.le_refl _)
    refine ⟨⟨rt', h.external⟩, ?_, hcollected.exact⟩
    show (Gc.runGC h.rt.gcObjList.length h.rt).map _ = _
    rw [hrt']
    rfl

/-! ## Whole runs -/

/-- No object, as `JS_NewRuntime` leaves it. -/
def emptyHeap : Heap α where
  rt := ⟨fun _ => false, fun _ => 0, fun _ => .jsObject, fun _ => false, fun _ => [], fun _ => [], [], [], []⟩
  external := fun _ => 0

theorem exact_empty : Exact (emptyHeap : Heap α).external (emptyHeap : Heap α).rt where
  nodup := List.nodup_nil
  linked := fun p => by simp [emptyHeap]
  zero := rfl
  tmp := rfl
  unmarked := fun p hp => absurd hp List.not_mem_nil
  closed := fun p hp => absurd hp List.not_mem_nil
  roots := fun p hp => absurd hp (Nat.lt_irrefl 0)
  count := fun p hp => absurd hp List.not_mem_nil
  pos := fun p hp => absurd hp List.not_mem_nil
  agree := fun p hp => absurd hp List.not_mem_nil
  types := fun p hp => absurd hp List.not_mem_nil

/-- **The counts are exact** after every run of operations that owe nothing. -/
theorem exact_of_allowed {ops : List (HeapOp α)} (hrun : GuardedRun heapStep Allowed emptyHeap ops h) :
    Exact h.external h.rt := by
  refine hrun.invariant (I := fun h => Exact h.external h.rt) (fun s op s' hexact hallow hstep => ?_) exact_empty
  obtain ⟨s'', hstep', hexact'⟩ := heapStep_exact hexact hallow
  rw [hstep] at hstep'
  cases hstep'
  exact hexact'

/-- **No use after free.** In every state that a run reaches, what the code and the handles have references to
is there, and so is what they can reach; and an operation that owes nothing does not fail. -/
theorem heap_safe {ops : List (HeapOp α)} (hrun : GuardedRun heapStep Allowed emptyHeap ops h) :
    (∀ p, Held h.rt.children h.external p → h.rt.allocated p = true) ∧
      ∀ op, Allowed h op → ∃ h', heapStep h op = some h' := by
  have hexact := exact_of_allowed hrun
  refine ⟨fun p hp => (hexact.linked p).mpr (hp.mem_of_closed hexact.roots hexact.closed), fun op hallow => ?_⟩
  obtain ⟨h', hstep, -⟩ := heapStep_exact hexact hallow
  exact ⟨h', hstep⟩

/-- A context, and an object that refers to itself; the code keeps the context only. -/
def sampleRun : List (HeapOp Nat) :=
  [.newObject 0 .jsContext [], .dup 0, .newObject 1 .jsObject [0], .dup 1, .store 1 1, .free 1, .newObject 2 .shape []]

theorem heap_safe_cycle : ∃ h : Heap Nat, GuardedRun heapStep Allowed emptyHeap sampleRun h ∧
    h.rt.refCount 1 = 1 ∧ h.external 1 = 0 ∧
    (∀ p, Held h.rt.children h.external p → h.rt.allocated p = true) ∧
    ∀ op, Allowed h op → ∃ h', heapStep h op = some h' := by
  obtain ⟨h, hrun, hh⟩ := exists_guardedRun_of_execGuarded heapStep Allowed emptyHeap sampleRun
    (fun h => h.rt.refCount 1 = 1 ∧ h.external 1 = 0) (by decide)
  rw [decide_eq_true_iff] at hh
  exact ⟨h, hrun, hh.1, hh.2, heap_safe hrun⟩

/-- **`JS_FreeRuntime`** collects and then asserts that `gc_obj_list` is empty. After any run, that is so iff no
code and no handle has a reference left. -/
theorem freeRuntime_iff {ops : List (HeapOp α)} (hrun : GuardedRun heapStep Allowed emptyHeap ops h) :
    ∃ h', heapStep h .runGC = some h' ∧ (h'.rt.gcObjList = [] ↔ ∀ p, h.external p = 0) := by
  have hexact := exact_of_allowed hrun
  obtain ⟨rt', hrt', hcollected⟩ := runGC_collected hexact (Nat.le_refl _)
  refine ⟨⟨rt', h.external⟩, ?_, ?_⟩
  · show (Gc.runGC h.rt.gcObjList.length h.rt).map _ = _
    rw [hrt']
    rfl
  · have hmem : ∀ p, p ∈ rt'.gcObjList ↔ Held h.rt.children h.external p := by
      intro p
      rw [← hcollected.exact.linked p]
      exact hcollected.allocated p
    rw [List.eq_nil_iff_forall_not_mem]
    constructor
    · intro hnone p
      by_contra hpos
      exact hnone p ((hmem p).mpr (.root (Nat.pos_of_ne_zero hpos)))
    · intro hzero p hp
      have hnot : ¬ Held h.rt.children h.external p := fun hheld =>
        hheld.mem_of_closed (S := fun _ => False) (fun q hq => by have := hzero q; omega) fun _ hf => hf.elim
      exact hnot ((hmem p).mp hp)

/-- The context was never freed: `JS_FreeRuntime` aborts, although the cycle is collected. -/
theorem freeRuntime_iff_leaked : ∃ h h' : Heap Nat, GuardedRun heapStep Allowed emptyHeap sampleRun h ∧
    h.external 0 = 1 ∧ heapStep h .runGC = some h' ∧ (h'.rt.gcObjList = [] ↔ ∀ p, h.external p = 0) := by
  obtain ⟨h, hrun, hh⟩ := exists_guardedRun_of_execGuarded heapStep Allowed emptyHeap sampleRun
    (fun h => h.external 0 = 1) (by decide)
  obtain ⟨h', hstep, hiff⟩ := freeRuntime_iff hrun
  exact ⟨h, h', hrun, of_decide_eq_true hh, hstep, hiff⟩

/-! ## Between two instructions of the bridge -/

section Bridge

open Native Ownership

variable {L : Layout}

/-- The cells of the bridge's machine are the objects of `rt`: its counts are theirs, and the references that
the runtime has include those that the objects have. -/
def Covers (s : BridgeState L) (rt : Runtime (Addr L)) : Prop :=
  ∀ p, rt.allocated p = true →
    (rt.refCount p : Int) = s.rc p ∧ incoming rt.children rt.gcObjList p ≤ s.runtime p

/-- What the runtime has after a collection: the references of the freed objects are gone. -/
def runtimeAfter (s : BridgeState L) (rt rt' : Runtime (Addr L)) (p : Addr L) : Nat :=
  s.runtime p - (incoming rt.children rt.gcObjList p - incoming rt'.children rt'.gcObjList p)

/-- **A collection is a step of the runtime** in the bridge's machine, provided that what is lent to the native
functions under way is on the engine's stack as well. The object of every handle that is not released
survives. -/
theorem runGC_resumes {s : BridgeState L} {rt : Runtime (Addr L)} {external : Addr L → Nat}
    (hsound : Sound s) (hcovers : Covers s rt) (hexact : Exact external rt)
    (hlent : ∀ f ∈ s.frames, ∀ c ∈ (Entry.program f.entry).borrowed,
      incoming rt.children rt.gcObjList c < s.runtime c) :
    ∃ rt', Gc.runGC rt.gcObjList.length rt = some rt' ∧
      bridgeStep s (.runtime (runtimeAfter s rt rt')) = some (s.resume (runtimeAfter s rt rt')) ∧
      Covers (s.resume (runtimeAfter s rt rt')) rt' ∧
      ∀ p, rt.allocated p = true → 0 < s.onHandles p → rt'.allocated p = true := by
  obtain ⟨rt', hrt', hcollected⟩ := runGC_collected hexact (Nat.le_refl _)
  have hwas : ∀ p, rt'.allocated p = true → rt.allocated p = true := by
    intro p hp
    exact (hexact.linked p).mpr (((hcollected.allocated p).mp hp).mem_of_closed hexact.roots hexact.closed)
  have hless : ∀ p, incoming rt'.children rt'.gcObjList p ≤ incoming rt.children rt.gcObjList p := by
    intro p
    have hsub : rt'.gcObjList.Subperm rt.gcObjList := by
      refine List.subperm_of_subset hcollected.exact.nodup fun q hq => ?_
      exact (hexact.linked q).mp (hwas q ((hcollected.exact.linked q).mpr hq))
    obtain ⟨l, hperm, hl⟩ := hsub
    rw [hcollected.children, incoming_perm hperm.symm p]
    exact incoming_le_of_sublist hl p
  refine ⟨rt', hrt', if_pos fun f hf c hc => ?_, fun p hp => ?_, fun p hp hhandle => ?_⟩
  · have hmore := hlent f hf c hc
    show 0 < s.runtime c - _
    omega
  · have halloc := hwas p hp
    obtain ⟨hcount, hheld⟩ := hcovers p halloc
    have hbefore := hexact.count p ((hexact.linked p).mp halloc)
    have hafter := hcollected.exact.count p ((hcollected.exact.linked p).mp hp)
    have hle := hless p
    show (rt'.refCount p : Int) = s.rc p + (s.runtime p - _ : Nat) - s.runtime p ∧ _ ≤ s.runtime p - _
    omega
  · -- the handle's reference is none of those that the objects have
    obtain ⟨hcount, hheld⟩ := hcovers p hp
    have hbefore := hexact.count p ((hexact.linked p).mp hp)
    have hle := hsound.2 p
    exact (hcollected.allocated p).mpr (.root (by omega))

/-- A handle on the only object. -/
def sampleHandle : BridgeState .struct64 where
  rc := fun c => if c = 1 then 1 else 0
  runtime := fun _ => 0
  handles := [⟨1, true, .held⟩]
  frames := []
  returned := []
  faults := []

theorem sound_sampleHandle : Sound sampleHandle := by
  refine ⟨rfl, fun c => ?_⟩
  show ((0 : Nat) : Int) + (sampleHandle.onHandles c : Nat) ≤ if c = 1 then 1 else 0
  by_cases hc : c = 1
  · subst hc
    decide
  · have hnone : sampleHandle.onHandles c = 0 := by
      refine List.countP_eq_zero.mpr fun r hr hholds => hc ?_
      rw [List.mem_singleton.mp hr] at hholds
      exact (of_decide_eq_true hholds).1.symm
    rw [hnone, if_neg hc]
    exact Int.le_refl 0

theorem runGC_resumes_handle : ∃ rt',
    Gc.runGC 1 (emptyHeap.rt.newObject (1 : Addr .struct64) .jsObject []) = some rt' ∧
      rt'.allocated 1 = true := by
  have hexact : Exact (fun q => emptyHeap.external q - ([] : List (Addr .struct64)).count q +
      if q = 1 then 1 else 0) (emptyHeap.rt.newObject 1 .jsObject []) := exact_newObject exact_empty (by decide)
  have hcovers : Covers sampleHandle (emptyHeap.rt.newObject (1 : Addr .struct64) .jsObject []) := by
    intro p hp
    have hp : Function.update (fun _ => false) 1 true p = true := hp
    by_cases h1 : p = 1
    · subst h1
      decide
    · rw [Function.update_of_ne h1] at hp
      cases hp
  obtain ⟨rt', hrt', -, -, hkeeps⟩ := runGC_resumes sound_sampleHandle hcovers hexact
    fun f hf => absurd hf List.not_mem_nil
  exact ⟨rt', hrt', hkeeps 1 (by decide) (by decide)⟩

end Bridge

end QuickJSBridge.Gc
