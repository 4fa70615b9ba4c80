import QuickJSBridge.Jni.ArgumentVectors

/-!
# Constructors of registered classes

`registerClass` makes a function `js_worker_constructor` with `_newClass` and registers a callback for it. The
function does not use the callback id it was made with. When it is constructed it reads `java_caller_id` from
`new.target`, and hands `callJavaCallback` the low half of what it finds.

* `Heap` — who has a property `java_caller_id`, and the prototype chains; a script can put any heap in its place;
* `step` — `_newClass`, registrations, scripts, constructions and `close()`;
* `Right` — a construction made while the context is open runs the class's own callback with the arguments given;
* `Proper` — the id that is read is the one the class's callback has in the registry of its context, and no
  prototype of the array of arguments is in the way;
* `right_of_proper` — in a run of proper steps every construction is right;
* `owned_iff_direct` — for the callback alone the first half of the condition is exact.
-/

namespace QuickJSBridge.Constructors

open Arrays ArgumentVectors

variable {L : Layout}

/-! ## The property `java_caller_id` -/

inductive Own (L : Layout) where
  | data (v : JSVal L) (writable : Bool)
  -- an accessor, or any property of a proxy: a function of the script answers
  | userCode
  deriving DecidableEq

structure Heap (L : Layout) where
  -- the property `java_caller_id` of an object
  own : Nat → Option (Own L)
  -- the prototypes of an object, the nearest first
  protos : Nat → List Nat
  -- what the prototypes of arrays have at an index
  arrays : Setting L (JSVal L)

/-- `JS_GetPropertyStr` of `java_caller_id`; `none` where a function of the script answers. -/
def Heap.getCallerId (h : Heap L) (o : Nat) : Option (JSVal L) :=
  match (o :: h.protos o).findSome? h.own with
  | none => some .undefined
  | some (.data v _) => some v
  | some .userCode => none

/-- `JS_SetPropertyStr` of `java_caller_id` on a function without such a property. A setter of a prototype is
called in its place; what that does is a script's. -/
def Heap.setCallerId (h : Heap L) (func : Nat) (id : Hash) : Heap L :=
  match (h.protos func).findSome? h.own with
  | none | some (.data _ true) => { h with own := Function.update h.own func (some (.data (.int id) true)) }
  | some (.data _ false) | some .userCode => h

/-! ## The machine -/

/-- A function made by `_newClass`, in which context and for which callback. -/
structure Class where
  func : Nat
  context : Nat
  callback : Nat
  deriving DecidableEq

/-- What `registerClass` registers for the class. -/
def Class.registration (C : Class) : Callbacks.Registration := ⟨C.context, C.callback, false⟩

/-- A construction that waits for a function of the script to answer the read. -/
structure Pending (L : Layout) where
  cls : Class
  argv : List (JSVal L)

structure Constructed (L : Layout) where
  cls : Class
  contextOpen : Bool
  outcome : Callbacks.Outcome
  -- the arguments of the construction
  argv : List (JSVal L)
  -- the array that the callback gets
  args : ArrayObj L (JSVal L)

structure State (L : Layout) where
  registry : Callbacks.State
  heap : Heap L
  classes : List Class
  -- the innermost first
  waiting : List (Pending L)
  constructed : List (Constructed L)

def init (heap : Heap L) : State L := ⟨Callbacks.init, heap, [], [], []⟩

inductive Act (L : Layout) where
  -- `_newClass` in `registerClass`
  | newClass (C : Class)
  -- `_registerCallback`, in `registerClass` or anywhere else
  | register (r : Callbacks.Registration)
  -- whatever a script does to the heap
  | script (heap : Heap L)
  -- `new`, `super()` or `Reflect.construct`
  | construct (func newTarget : Nat) (argv : List (JSVal L))
  -- a function of the script answers the innermost read; it throws if `v` is `JS_EXCEPTION`
  | answer (v : JSVal L)
  | close (p : Nat)

/-- More arguments are a `RangeError` of `build_arg_list`. -/
def jsMaxLocalVars : Nat := 65536

/-- What `js_worker_constructor` does once `java_caller_id` is read. The engine has switched to the context that
the function was made in. -/
def jsWorkerConstructor (s : State L) (C : Class) (argv : List (JSVal L)) (v : JSVal L) : Constructed L where
  cls := C
  contextOpen := s.registry.isOpen C.context
  outcome := Callbacks.callJavaCallback s.registry C.context ⟨v.raw.getInt, false⟩
  argv := argv
  args := fillArgs s.heap.arrays 0 ((argBuf .undefined 1 argv).take argv.length) newArray

section

variable (hash : Nat → Hash)

def step (s : State L) : Act L → Option (State L)
  | .newClass C =>
    if s.registry.isOpen C.context ∧ (s.heap.own C.func).isNone ∧ ∀ C' ∈ s.classes, C'.func ≠ C.func then
      some { s with heap := s.heap.setCallerId C.func (hash C.callback), classes := C :: s.classes }
    else none
  | .register r => (Callbacks.step hash s.registry (.register r)).map fun registry => { s with registry := registry }
  | .script heap => some { s with heap := heap }
  | .construct func newTarget argv =>
    match s.classes.find? (·.func = func) with
    | none => none
    | some C =>
      if argv.length ≤ jsMaxLocalVars then
        match s.heap.getCallerId newTarget with
        | some v => some { s with constructed := s.constructed ++ [jsWorkerConstructor s C argv v] }
        | none => some { s with waiting := ⟨C, argv⟩ :: s.waiting }
      else none
  | .answer v =>
    match s.waiting with
    | [] => none
    | p :: waiting => some { s with
        waiting := waiting
        constructed := s.constructed ++ [jsWorkerConstructor s p.cls p.argv v] }
  | .close p => (Callbacks.step hash s.registry (.close p)).map fun registry => { s with registry := registry }

/-! ## The property and the guard -/

/-- The callback of the class ran, and no other. -/
def Constructed.Own (c : Constructed L) : Prop :=
  c.contextOpen = true → c.outcome = .invoked c.cls.callback false

/-- The callback's array has exactly the arguments of the construction. -/
def Constructed.Given (c : Constructed L) : Prop := Dense c.args c.argv

def Owned (s : State L) : Prop := ∀ c ∈ s.constructed, c.Own

def Right (s : State L) : Prop := ∀ c ∈ s.constructed, c.contextOpen = true → c.Own ∧ c.Given

/-- The value read is the id under which the class's callback was the last to be registered. -/
def Resolves (s : State L) (C : Class) (v : JSVal L) : Prop :=
  s.registry.isOpen C.context = true →
    Callbacks.latest hash s.registry.registrations C.context v.raw.getInt = some C.registration

/-- No prototype of an array has an accessor or a read-only property at the index of an argument. -/
def Unobstructed (s : State L) (argv : List (JSVal L)) : Prop := ∀ i < argv.length, free s.heap.arrays i = true

/-- The condition `P` holds of each `js_worker_constructor` that the step runs. -/
def AtConstruction (P : State L → Class → List (JSVal L) → JSVal L → Prop) (s : State L) : Act L → Prop
  | .construct func newTarget argv => ∀ C v,
      s.classes.find? (·.func = func) = some C → s.heap.getCallerId newTarget = some v → P s C argv v
  | .answer v => ∀ p, s.waiting.head? = some p → P s p.cls p.argv v
  | _ => True

/-- Where a construction of the class's own callback is bound to happen. -/
def Direct (s : State L) : Act L → Prop := AtConstruction (fun s C _ v => Resolves hash s C v) s

def Proper (s : State L) : Act L → Prop :=
  AtConstruction (fun s C argv v =>
    Resolves hash s C v ∧ (s.registry.isOpen C.context = true → Unobstructed s argv)) s

/-! ## What a step does -/

variable {hash}

/-- The step runs `js_worker_constructor`. -/
structure Constructs (s s' : State L) (a : Act L) (C : Class) (argv : List (JSVal L)) (v : JSVal L) : Prop where
  constructed : s'.constructed = s.constructed ++ [jsWorkerConstructor s C argv v]
  registry : s'.registry = s.registry
  waiting : ∀ p ∈ s'.waiting, p ∈ s.waiting
  bounded : argv.length ≤ jsMaxLocalVars ∨ ∃ p ∈ s.waiting, p.argv = argv
  guard : ∀ P, AtConstruction P s a ↔ P s C argv v

/-- The step does not. -/
structure Passes (hash : Nat → Hash) (s s' : State L) (a : Act L) : Prop where
  constructed : s'.constructed = s.constructed
  registry : s'.registry = s.registry ∨ ∃ b, Callbacks.step hash s.registry b = some s'.registry
  waiting : ∀ p ∈ s'.waiting, p ∈ s.waiting ∨ p.argv.length ≤ jsMaxLocalVars
  guard : ∀ P, AtConstruction P s a

theorem step_cases {s s' : State L} {a : Act L} (h : step hash s a = some s') :
    (∃ C argv v, Constructs s s' a C argv v) ∨ Passes hash s s' a := by
  cases a with
  | newClass C =>
    simp only [step] at h
    split at h
    · rw [← Option.some.inj h]
      exact .inr ⟨rfl, .inl rfl, fun _ hp => .inl hp, fun _ => trivial⟩
    · cases h
  | register r =>
    simp only [step, Option.map_eq_some_iff] at h
    obtain ⟨registry, hregistry, rfl⟩ := h
    exact .inr ⟨rfl, .inr ⟨_, hregistry⟩, fun _ hp => .inl hp, fun _ => trivial⟩
  | script heap =>
    rw [← Option.some.inj h]
    exact .inr ⟨rfl, .inl rfl, fun _ hp => .inl hp, fun _ => trivial⟩
  | construct func newTarget argv =>
    simp only [step] at h
    split at h
    · cases h
    · rename_i C hfind
      split at h
      · rename_i hlen
        split at h
        · rename_i v hread
          rw [← Option.some.inj h]
          refine .inl ⟨C, argv, v, rfl, rfl, fun _ hp => hp, .inl hlen, fun P => ⟨fun hP => hP C v hfind hread, ?_⟩⟩
          intro hP C' v' hfind' hread'
          rw [hfind] at hfind'
          rw [hread] at hread'
          rw [← Option.some.inj hfind', ← Option.some.inj hread']
          exact hP
        · -- a function of the script answers
          rename_i hread
          rw [← Option.some.inj h]
          refine .inr ⟨rfl, .inl rfl, fun p hp => ?_, fun P C' v' _ hread' => ?_⟩
          · rcases List.mem_cons.mp hp with rfl | hp
            · exact .inr hlen
            · exact .inl hp
          · rw [hread] at hread'
            cases hread'
      · cases h
  | answer v =>
    simp only [step] at h
    split at h
    · cases h
    · rename_i p waiting hwaiting
      rw [← Option.some.inj h]
      have hmem : ∀ q, q = p ∨ q ∈ waiting → q ∈ s.waiting := by
        intro q hq
        rw [hwaiting]
        exact List.mem_cons.mpr hq
      refine .inl ⟨p.cls, p.argv, v, rfl, rfl, fun q hq => hmem q (.inr hq), .inr ⟨p, hmem p (.inl rfl), rfl⟩,
        fun P => ⟨fun hP => hP p ?_, ?_⟩⟩
      · rw [hwaiting]
        rfl
      · intro hP p' hp'
        rw [hwaiting] at hp'
        rw [← Option.some.inj hp']
        exact hP
  | close p =>
    simp only [step, Option.map_eq_some_iff] at h
    obtain ⟨registry, hregistry, rfl⟩ := h
    exact .inr ⟨rfl, .inr ⟨_, hregistry⟩, fun _ hp => .inl hp, fun _ => trivial⟩

/-! ## The invariant -/

structure Inv (hash : Nat → Hash) (s : State L) : Prop where
  registry : Callbacks.Inv hash s.registry
  waiting : ∀ p ∈ s.waiting, p.argv.length ≤ jsMaxLocalVars

theorem inv_init (heap : Heap L) : Inv hash (init heap) where
  registry := Callbacks.inv_init
  waiting p hp := by cases hp

theorem inv_step {s s' : State L} {a : Act L} (hi : Inv hash s) (h : step hash s a = some s') : Inv hash s' := by
  rcases step_cases h with ⟨C, argv, v, hc⟩ | hp
  · exact ⟨hc.registry ▸ hi.registry, fun p hp => hi.waiting p (hc.waiting p hp)⟩
  · constructor
    · rcases hp.registry with hsame | ⟨b, hb⟩
      · rw [hsame]
        exact hi.registry
      · exact Callbacks.inv_step hi.registry hb
    · intro p hp'
      rcases hp.waiting p hp' with hold | hnew
      · exact hi.waiting p hold
      · exact hnew

/-! ## One construction -/

/-- The lookup in an open context invokes the callback of the last registration of the id there. -/
theorem callJavaCallback_eq_iff_latest {s : Callbacks.State} {p c : Nat} {id : Hash} (hi : Callbacks.Inv hash s)
    (hopen : s.isOpen p = true) :
    Callbacks.callJavaCallback s p ⟨id, false⟩ = .invoked c false ↔
      Callbacks.latest hash s.registrations p id = some ⟨p, c, false⟩ := by
  unfold Callbacks.callJavaCallback
  rw [if_pos hopen]
  simp only [hi.registry p hopen]
  cases hlatest : Callbacks.latest hash s.registrations p id with
  | none => simp
  | some r =>
    obtain ⟨_, hcontext, _⟩ := Callbacks.latest_has hlatest
    obtain ⟨context, callback, voidMethod⟩ := r
    cases voidMethod with
    | true => simp [Callbacks.Registration.descriptor]
    | false => simpa [Callbacks.Registration.descriptor] using fun _ => hcontext

theorem own_iff_resolves {s : State L} (hi : Inv hash s) (C : Class) (argv : List (JSVal L)) (v : JSVal L) :
    (jsWorkerConstructor s C argv v).Own ↔ Resolves hash s C v := by
  constructor
  · intro hown hopen
    exact (callJavaCallback_eq_iff_latest hi.registry hopen).mp (hown hopen)
  · intro hres hopen
    exact (callJavaCallback_eq_iff_latest hi.registry hopen).mpr (hres hopen)

theorem given_of_unobstructed {s : State L} {argv : List (JSVal L)} (hlen : argv.length ≤ jsMaxLocalVars)
    (h : Unobstructed s argv) (C : Class) (v : JSVal L) : (jsWorkerConstructor s C argv v).Given := by
  have hlt : argv.length ≤ 65536 := hlen
  show Dense (fillArgs s.heap.arrays 0 ((argBuf JSVal.undefined 1 argv).take argv.length) newArray) argv
  rw [take_argBuf]
  refine fillArgs_dense (fun i hi => h i ?_) dense_newArray ?_
  · simpa using hi
  · simp only [List.length_nil]
    omega

/-! ## Whole runs -/

theorem owned_step {s s' : State L} {a : Act L} (hi : Inv hash s) (howned : Owned s)
    (hst : step hash s a = some s') : Owned s' ↔ Direct hash s a := by
  rcases step_cases hst with ⟨C, argv, v, hc⟩ | hp
  · have hiff : Direct hash s a ↔ Resolves hash s C v := hc.guard _
    rw [hiff, ← own_iff_resolves hi C argv v]
    constructor
    · intro h
      exact h _ (by rw [hc.constructed]; exact List.mem_append_right _ List.mem_cons_self)
    · intro hown c hmem
      rw [hc.constructed] at hmem
      rcases List.mem_append.mp hmem with hmem | hmem
      · exact howned c hmem
      · rw [List.mem_singleton.mp hmem]
        exact hown
  · refine ⟨fun _ => hp.guard _, fun _ c hmem => ?_⟩
    rw [hp.constructed] at hmem
    exact howned c hmem

/-- In a run every construction runs the class's own callback iff every id that is read resolves to it. -/
theorem owned_iff_direct {heap : Heap L} {as : List (Act L)} {s : State L}
    (h : Machine.Run (step hash) (init heap) as s) :
    (∀ bs t, bs <+: as → Machine.Run (step hash) (init heap) bs t → Owned t) ↔
      Machine.GuardedRun (step hash) (Direct hash) (init heap) as s := by
  have howned : Owned (init heap) := fun c hc => by cases hc
  exact (Machine.guardedRun_iff_forall_prefix_under (I := Inv hash) (P := Owned)
    (fun _ _ _ hi hst => inv_step hi hst) (fun _ _ _ hi ho hst => owned_step hi ho hst)
    (inv_init heap) howned h).symm

theorem right_step {s s' : State L} {a : Act L} (hi : Inv hash s) (hright : Right s) (hg : Proper hash s a)
    (hst : step hash s a = some s') : Right s' := by
  rcases step_cases hst with ⟨C, argv, v, hc⟩ | hp
  · obtain ⟨hres, hfree⟩ := (hc.guard _).mp hg
    have hle : argv.length ≤ jsMaxLocalVars := by
      rcases hc.bounded with hle | ⟨p, hp, rfl⟩
      · exact hle
      · exact hi.waiting p hp
    intro c hmem
    rw [hc.constructed] at hmem
    rcases List.mem_append.mp hmem with hmem | hmem
    · exact hright c hmem
    · rw [List.mem_singleton.mp hmem]
      intro hopen
      exact ⟨(own_iff_resolves hi C argv v).mpr hres, given_of_unobstructed hle (hfree hopen) C v⟩
  · intro c hmem
    rw [hp.constructed] at hmem
    exact hright c hmem

/-- **Constructor dispatch.** In a run whose constructions are all proper, each construction made while the
context is open runs the class's own callback, with the arguments given. -/
theorem right_of_proper {heap : Heap L} {as : List (Act L)} {s : State L}
    (h : Machine.GuardedRun (step hash) (Proper hash) (init heap) as s) : Right s := by
  have hboth := h.invariant (I := fun s => Inv hash s ∧ Right s)
    (fun s a s' hs hg hst => ⟨inv_step hs.1 hst, right_step hs.1 hs.2 hg hst⟩)
    ⟨inv_init heap, fun c hc => by cases hc⟩
  exact hboth.2

end

/-- The class 10 and a subclass 20 of it; nobody has set `java_caller_id` yet. -/
def sampleHeap : Heap .struct64 where
  own := fun _ => none
  protos := fun o => if o = 20 then [10, 1, 2] else [1, 2]
  arrays := ⟨fun _ => none, fun _ a _ => a, fun _ _ => .undefined⟩

/-- A script makes an object of a subclass. -/
theorem right_of_proper_subclass :
    ∃ s, Machine.Run (step Callbacks.sampleHash) (init sampleHeap)
        [.newClass ⟨10, 0, 1⟩, .register ⟨0, 1, false⟩, .construct 10 20 [.int 5]] s ∧
      s.constructed.map (·.outcome) = [.invoked 1 false] ∧ Right s := by
  have hrun : ∃ s, Machine.GuardedRun (step Callbacks.sampleHash) (Proper Callbacks.sampleHash) (init sampleHeap)
        [.newClass ⟨10, 0, 1⟩, .register ⟨0, 1, false⟩, .construct 10 20 [.int 5]] s ∧
      s.constructed.map (·.outcome) = [.invoked 1 false] := by
    refine ⟨_, .cons trivial rfl (.cons trivial rfl (.cons ?_ rfl (.nil _))), rfl⟩
    intro C v hC hv
    cases hC
    cases hv
    exact ⟨fun _ => rfl, fun _ _ _ => rfl⟩
  obtain ⟨s, hrun, houtcome⟩ := hrun
  exact ⟨s, hrun.run, houtcome, right_of_proper hrun⟩

/-- A script assigns the id of the class 11 to the property of the class 10: constructing 10 runs the callback
of 11. -/
theorem not_right_redirected :
    ¬ ∀ (L : Layout) (hash : Nat → Hash) (heap : Heap L) as s,
      Machine.Run (step hash) (init heap) as s → Right s := by
  intro hall
  have hrun : ∃ s, Machine.Run (step Callbacks.sampleHash) (init sampleHeap)
        [.newClass ⟨10, 0, 1⟩, .register ⟨0, 1, false⟩, .newClass ⟨11, 0, 2⟩, .register ⟨0, 2, false⟩,
          .script { sampleHeap with own := fun o => if o = 10 ∨ o = 11 then some (.data (.int 2000) true) else none },
          .construct 10 10 []] s ∧
      s.constructed = [⟨⟨10, 0, 1⟩, true, .invoked 2 false, [], newArray⟩] := by
    refine ⟨_, .cons trivial rfl (.cons trivial rfl (.cons trivial rfl (.cons trivial rfl (.cons trivial rfl
      (.cons trivial rfl (.nil _)))))), rfl⟩
  obtain ⟨s, hrun, hconstructed⟩ := hrun
  obtain ⟨hown, _⟩ := hall .struct64 Callbacks.sampleHash sampleHeap _ s hrun _
    (by rw [hconstructed]; exact List.mem_cons_self) rfl
  cases hown rfl

end QuickJSBridge.Constructors
