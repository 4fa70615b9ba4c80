import QuickJSBridge.Engine.PropertyLists
import QuickJSBridge.Lib.Chains

/-!
# Objects as programs see them

A heap without shapes: an object has a prototype, and a list of properties in the order in which they were added.

* `Op` — what is done with objects; `Heap.perform` — what it means;
* `Heap.Allowed` — what a caller has to see to: objects exist, names are new, a prototype that is in use stays, and a
  shape can count the properties;
* `Heap.Grounded` — prototypes exist, and chains of prototypes end; `Heap.perform_grounded` — operations keep this.
-/

namespace QuickJSBridge.Shapes

open Chains

variable {V : Type}

structure Entity (V : Type) where
  proto : Option Nat
  props : List (Property V)

/-- Flags and value of an own property. -/
def Entity.find (o : Entity V) (atom : Nat) : Option (Nat × V) := (o.props.find? fun x => x.1 = atom).map Prod.snd

structure Heap (V : Type) where
  obj : Nat → Option (Entity V)
  -- the prototype of the arrays of each context
  arrays : List (Option Nat)

inductive Op (V : Type) where
  | create (p : Nat) (proto : Option Nat)
  | newArrayShape (proto : Option Nat)
  | newArray (p k : Nat) (zero : V)
  | freeArrayShape (k : Nat)
  | own (p atom : Nat)
  | add (p atom flags : Nat) (v : V)
  | write (p atom : Nat) (v : V)
  | setFlags (p atom flags : Nat)
  | delete (p atom : Nat)
  | setPrototype (p : Nat) (proto : Option Nat)
  | lookup (p atom : Nat)
  | free (p : Nat)

inductive Result (V : Type) where
  | done
  | bool (b : Bool)
  | own (found : Option (Nat × V))
  | holder (found : Option (Nat × Nat × V))

namespace Heap

variable {h : Heap V} {p q : Nat} {proto start : Option Nat} {o : Entity V} {l : List Nat}

def empty : Heap V := ⟨fun _ => none, []⟩

def set (h : Heap V) (p : Nat) (o : Option (Entity V)) : Heap V := { h with obj := Function.update h.obj p o }

def modify (h : Heap V) (p : Nat) (f : Entity V → Entity V) : Heap V := h.set p ((h.obj p).map f)

def next (h : Heap V) (p : Nat) : Option Nat := (h.obj p).bind (·.proto)

/-- The objects from `start` up. -/
noncomputable def chain (h : Heap V) (start : Option Nat) : List Nat := chainOf h.next start

/-- The first on the chain that has the property. -/
noncomputable def lookup (h : Heap V) (atom : Nat) (start : Option Nat) : Option (Nat × Nat × V) :=
  (h.chain start).findSome? fun q => ((h.obj q).bind (·.find atom)).map fun x => (q, x)

open Classical in
noncomputable def perform (h : Heap V) : Op V → Result V × Heap V
  | .create p proto => (.done, h.set p (some ⟨proto, []⟩))
  | .newArrayShape proto => (.done, { h with arrays := h.arrays ++ [proto] })
  | .newArray p k zero => (.done, h.set p (some ⟨h.arrays.getD k none, [(atomLength, arrayLengthFlags, zero)]⟩))
  | .freeArrayShape k => (.done, { h with arrays := h.arrays.eraseIdx k })
  | .own p atom => (.own ((h.obj p).bind (·.find atom)), h)
  | .add p atom flags v => (.done, h.modify p fun o => { o with props := o.props ++ [(atom, flags, v)] })
  | .write p atom v =>
    (.bool ((h.obj p).bind (·.find atom)).isSome,
      h.modify p fun o => { o with props := o.props.map fun x => if x.1 = atom then (x.1, x.2.1, v) else x })
  | .setFlags p atom flags =>
    (.bool ((h.obj p).bind (·.find atom)).isSome,
      h.modify p fun o => { o with props := o.props.map fun x => if x.1 = atom then (x.1, flags, x.2.2) else x })
  | .delete p atom =>
    if ((h.obj p).bind (·.find atom)).any fun x => x.1 &&& propConfigurable = 0 then (.bool false, h)
    else (.bool true, h.modify p fun o => { o with props := o.props.filter fun x => x.1 ≠ atom })
  | .setPrototype p proto =>
    if p ∈ h.chain proto then (.bool false, h) else (.bool true, h.modify p fun o => { o with proto := proto })
  | .lookup p atom => (.holder (h.lookup atom (some p)), h)
  | .free p => (.done, h.set p none)

/-- A prototype that there is, or none. -/
def Exists (h : Heap V) (proto : Option Nat) : Prop := ∀ q, proto = some q → ∃ o, h.obj q = some o

def Allowed (h : Heap V) : Op V → Prop
  | .create p proto => h.obj p = none ∧ h.Exists proto
  | .newArrayShape proto => h.Exists proto
  | .newArray p k _ => h.obj p = none ∧ k < h.arrays.length
  | .freeArrayShape k => k < h.arrays.length
  | .own p atom => (∃ o, h.obj p = some o) ∧ atom ≠ 0
  | .add p atom flags _ =>
    ∃ o, h.obj p = some o ∧ atom ≠ 0 ∧ o.find atom = none ∧ flags < 2 ^ 6 ∧ 2 * o.props.length + 7 < 2 ^ 26
  | .write p atom _ => (∃ o, h.obj p = some o) ∧ atom ≠ 0
  | .setFlags p atom flags => (∃ o, h.obj p = some o) ∧ atom ≠ 0 ∧ flags < 2 ^ 6
  | .delete p atom => (∃ o, h.obj p = some o) ∧ atom ≠ 0
  | .setPrototype p proto => (∃ o, h.obj p = some o) ∧ h.Exists proto
  | .lookup p atom => (∃ o, h.obj p = some o) ∧ atom ≠ 0
  | .free p => (∃ o, h.obj p = some o) ∧ (∀ q o, h.obj q = some o → o.proto ≠ some p) ∧ some p ∉ h.arrays

/-! ## Prototypes -/

structure Grounded (h : Heap V) : Prop where
  protos : ∀ p o, h.obj p = some o → h.Exists o.proto
  arrays : ∀ proto ∈ h.arrays, h.Exists proto
  ends : ∀ start, Ends h.next start

theorem empty_grounded : (empty : Heap V).Grounded where
  protos := fun _ _ ho => by cases ho
  arrays := fun _ hproto => absurd hproto List.not_mem_nil
  ends := fun start => by
    cases start with
    | none => exact ends_none
    | some p => exact Ends.of_next ends_none

@[simp] theorem set_self (h : Heap V) (p : Nat) (o : Option (Entity V)) : (h.set p o).obj p = o :=
  Function.update_self _ _ _

theorem set_of_ne (h : Heap V) (hq : q ≠ p) (o : Option (Entity V)) : (h.set p o).obj q = h.obj q :=
  Function.update_of_ne hq _ _

theorem next_set (h : Heap V) (p : Nat) (o : Option (Entity V)) :
    (h.set p o).next = Function.update h.next p (o.bind (·.proto)) := by
  funext q
  unfold next
  by_cases hq : q = p
  · rw [hq, set_self, Function.update_self]
  · rw [set_of_ne h hq, Function.update_of_ne hq]

/-- What is on a chain exists. -/
theorem Grounded.mem_chain (hg : h.Grounded) (hl : Chain h.next start l) (hstart : h.Exists start) :
    ∀ x ∈ l, ∃ o, h.obj x = some o := by
  induction hl with
  | nil => exact fun x hx => absurd hx List.not_mem_nil
  | @cons a l _ ih =>
    obtain ⟨o, ho⟩ := hstart a rfl
    have hnext : h.next a = o.proto := by
      unfold next
      rw [ho]
      rfl
    intro x hx
    rcases List.mem_cons.mp hx with heq | hx
    · exact ⟨o, heq ▸ ho⟩
    · exact ih (hnext ▸ hg.protos a o ho) x hx

theorem exists_set (hproto : h.Exists proto) (o : Entity V) : (h.set p (some o)).Exists proto := by
  intro q hq
  by_cases hqp : q = p
  · exact ⟨o, hqp ▸ set_self h p (some o)⟩
  · obtain ⟨o', ho'⟩ := hproto q hq
    exact ⟨o', (set_of_ne h hqp _).trans ho'⟩

/-- An object is written, with a prototype whose chain does not lead to it. -/
theorem Grounded.set (hg : h.Grounded) (hproto : h.Exists o.proto) (hl : Chain h.next o.proto l) (hp : p ∉ l) :
    (h.set p (some o)).Grounded where
  protos := by
    intro q o' ho'
    by_cases hq : q = p
    · rw [hq, set_self] at ho'
      rw [← Option.some.inj ho']
      exact exists_set hproto o
    · rw [set_of_ne h hq] at ho'
      exact exists_set (hg.protos q o' ho') o
  arrays := fun proto hmem => exists_set (hg.arrays proto hmem) o
  ends := fun start => by
    rw [next_set]
    exact ends_update (hg.ends start) hl hp

theorem Grounded.not_mem_chain (hg : h.Grounded) (hp : h.obj p = none) (hproto : h.Exists proto) :
    p ∉ h.chain proto := fun hmem => by
  obtain ⟨o, ho⟩ := hg.mem_chain (hg.ends proto).chain hproto p hmem
  rw [hp] at ho
  cases ho

/-- The prototype of an object does not lead to it. -/
theorem Grounded.not_mem_proto (hg : h.Grounded) (ho : h.obj p = some o) : p ∉ h.chain o.proto := by
  have hnext : h.next p = o.proto := by
    unfold next
    rw [ho]
    rfl
  have hchain := (hg.ends (h.next p)).chain.cons.nodup
  rw [hnext] at hchain
  exact (List.nodup_cons.mp hchain).1

/-- Properties are changed, the prototype is not. -/
theorem Grounded.modify (hg : h.Grounded) (f : Entity V → Entity V) (hf : ∀ o, (f o).proto = o.proto)
    (hp : ∃ o, h.obj p = some o) : (h.modify p f).Grounded := by
  obtain ⟨o, ho⟩ := hp
  unfold Heap.modify
  rw [ho]
  refine hg.set ?_ (hg.ends _).chain ?_
  · rw [hf]
    exact hg.protos p o ho
  · rw [hf]
    exact hg.not_mem_proto ho

theorem Grounded.free (hg : h.Grounded) (hp : ∀ q o, h.obj q = some o → o.proto ≠ some p) (harrays : some p ∉ h.arrays) :
    (h.set p none).Grounded := by
  have hexists : ∀ proto, h.Exists proto → proto ≠ some p → (h.set p none).Exists proto := by
    intro proto hproto hne q hq
    obtain ⟨o, ho⟩ := hproto q hq
    have hqp : q ≠ p := fun heq => hne (hq.trans (congrArg some heq))
    exact ⟨o, (set_of_ne h hqp _).trans ho⟩
  refine ⟨fun q o ho => ?_, fun proto hmem => ?_, fun start => ?_⟩
  · by_cases hq : q = p
    · rw [hq, set_self] at ho
      cases ho
    · rw [set_of_ne h hq] at ho
      exact hexists _ (hg.protos q o ho) (hp q o ho)
  · exact hexists _ (hg.arrays proto hmem) fun heq => harrays (heq ▸ hmem)
  · rw [next_set]
    exact ends_update (hg.ends start) Chain.nil List.not_mem_nil

theorem perform_grounded (hg : h.Grounded) {op : Op V} (hop : h.Allowed op) : (h.perform op).2.Grounded := by
  cases op with
  | create p proto => exact hg.set hop.2 (hg.ends _).chain (hg.not_mem_chain hop.1 hop.2)
  | newArrayShape proto =>
    refine ⟨hg.protos, fun proto' hmem => ?_, hg.ends⟩
    rcases List.mem_append.mp hmem with hmem | hmem
    · exact hg.arrays proto' hmem
    · rw [List.mem_singleton.mp hmem]
      exact hop
  | newArray p k zero =>
    have hproto : h.Exists (h.arrays.getD k none) := by
      rw [List.getD_eq_getElem?_getD, List.getElem?_eq_getElem hop.2]
      exact hg.arrays _ (List.getElem_mem hop.2)
    exact hg.set hproto (hg.ends _).chain (hg.not_mem_chain hop.1 hproto)
  | freeArrayShape k => exact ⟨hg.protos, fun proto hmem => hg.arrays proto (List.mem_of_mem_eraseIdx hmem), hg.ends⟩
  | own p atom => exact hg
  | add p atom flags v =>
    obtain ⟨o, ho, -⟩ := hop
    exact hg.modify (fun o => { o with props := o.props ++ [(atom, flags, v)] }) (fun _ => rfl) ⟨o, ho⟩
  | write p atom v =>
    exact hg.modify (fun o => { o with props := o.props.map fun x => if x.1 = atom then (x.1, x.2.1, v) else x })
      (fun _ => rfl) hop.1
  | setFlags p atom flags =>
    exact hg.modify (fun o => { o with props := o.props.map fun x => if x.1 = atom then (x.1, flags, x.2.2) else x })
      (fun _ => rfl) hop.1
  | delete p atom =>
    simp only [perform]
    split
    · exact hg
    · exact hg.modify (fun o => { o with props := o.props.filter fun x => x.1 ≠ atom }) (fun _ => rfl) hop.1
  | setPrototype p proto =>
    obtain ⟨⟨o, ho⟩, hproto⟩ := hop
    simp only [perform]
    split
    · exact hg
    · next hmem =>
      show (h.set p ((h.obj p).map _)).Grounded
      rw [ho]
      exact hg.set hproto (hg.ends _).chain hmem
  | lookup p atom => exact hg
  | free p => exact hg.free hop.2.1 hop.2.2

/-! ## Runs -/

noncomputable def run (h : Heap V) : List (Op V) → List (Result V) × Heap V
  | [] => ([], h)
  | op :: rest => ((h.perform op).1 :: ((h.perform op).2.run rest).1, ((h.perform op).2.run rest).2)

def Permitted (h : Heap V) : List (Op V) → Prop
  | [] => True
  | op :: rest => h.Allowed op ∧ (h.perform op).2.Permitted rest

end Heap

end QuickJSBridge.Shapes
