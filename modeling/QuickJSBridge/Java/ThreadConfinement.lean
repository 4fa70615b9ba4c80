import QuickJSBridge.Java.EventQueue

/-!
# One thread in the engine

The engine of a runtime is used by one thread at a time: that is what `EventQueue` is for. Every method of
`QuickJSNative` but one sends its native call to the owner thread; `_createContext`, which the constructors of
all contexts call, runs on the thread that calls it.

* `step` — any number of clients and the owner thread, each with its stack of native calls and of the Java
  code called from them, for a runtime with a `Handler`;
* `Confined` — at most one thread is inside native code, and all native code runs on the owner thread;
* `CreatesOnOwner` — `_createContext` is called on the owner thread only;
* `confined_iff_createsOnOwner` — a run keeps the first iff its steps have the second.
-/

namespace QuickJSBridge.ThreadConfinement

open EventQueue (NativeMethod Route)

/-! ## The machine -/

inductive Thread where
  | owner
  | client (c : Nat)
  deriving DecidableEq

inductive Event where
  -- the lambda of `post` or `postVoid` around a native call
  | native (n : NativeMethod)
  -- a `Runnable` of `postEventQueue`
  | runnable
  deriving DecidableEq

def Event.route : Event → Route
  | native n => n.route
  | runnable => .postVoid

inductive Frame where
  | native (n : NativeMethod)
  -- a runnable, or Java code that a native call has called
  | java
  -- in `result.wait()`
  | waiting
  deriving DecidableEq

structure State where
  released : Bool
  interrupted : Bool
  queue : List Event
  -- innermost first; below the stack of the owner thread is the event loop, below that of a client its code
  stack : Thread → List Frame

def init : State where
  released := false
  interrupted := false
  queue := []
  stack := fun _ => []

inductive Act where
  -- the wrapper of a native method is called on thread `t`
  | call (t : Thread) (n : NativeMethod)
  | postEventQueue (t : Thread)
  -- the owner thread takes the first event
  | serve
  -- native code on thread `t` calls Java
  | callback (t : Thread)
  -- the innermost native call or Java code of thread `t` ends
  | finish (t : Thread)
  -- `wait()` returns: notified, interrupted or without a reason
  | resume (c : Nat)
  -- in `QuickJS.close`, on the owner thread
  | setReleased
  | interrupt
  deriving DecidableEq

namespace State

/-- The test at the head of `post` and `postVoid`. -/
def isReleased (s : State) : Bool := s.released || s.interrupted

def push (s : State) (t : Thread) (f : Frame) : State :=
  { s with stack := Function.update s.stack t (f :: s.stack t) }

/-- Java code runs on thread `t`. -/
def inJava (s : State) (t : Thread) : Bool :=
  match t, s.stack t with
  | _, .java :: _ => true
  | .client _, [] => true
  | _, _ => false

/-- `post` and `postVoid`; on the owner thread the event runs at once. -/
def post (s : State) (t : Thread) (e : Event) (block : Bool) (run : Frame) : State :=
  if s.isReleased then s
  else
    match t with
    | .owner => s.push .owner run
    | .client c =>
      let s := { s with queue := s.queue ++ [e] }
      if block then s.push (.client c) .waiting else s

/-- The wrapper of a native method. -/
def call (s : State) (t : Thread) (n : NativeMethod) : State :=
  match n.route with
  | .direct => s.push t (.native n)
  | .post | .postVoid => s.post t (.native n) true (.native n)

/-- The runnable that was given to `handler.post`. -/
def run (s : State) (e : Event) : State :=
  if e.route = .postVoid ∧ s.released = true then s
  else
    match e with
    | .native n => s.push .owner (.native n)
    | .runnable => s.push .owner .java

end State

def step (s : State) : Act → Option State
  | .call t n => if s.inJava t then some (s.call t n) else none
  | .postEventQueue t => if s.inJava t then some (s.post t .runnable false .java) else none
  | .serve =>
    match s.stack .owner, s.queue with
    | [], e :: rest => some ({ s with queue := rest }.run e)
    | _, _ => none
  | .callback t =>
    match s.stack t with
    | .native _ :: _ => some (s.push t .java)
    | _ => none
  | .finish t =>
    match s.stack t with
    | .native _ :: rest | .java :: rest => some { s with stack := Function.update s.stack t rest }
    | _ => none
  | .resume c =>
    match s.stack (.client c) with
    | .waiting :: rest => some { s with stack := Function.update s.stack (.client c) rest }
    | _ => none
  | .setReleased => if s.stack .owner ≠ [] ∧ s.inJava .owner then some { s with released := true } else none
  | .interrupt => if s.stack .owner ≠ [] ∧ s.inJava .owner then some { s with interrupted := true } else none

/-! ## The property and the guard -/

/-- Thread `t` is inside native code, or in Java code called from there. -/
def State.Inside (s : State) (t : Thread) : Prop := ∃ n, .native n ∈ s.stack t

structure Confined (s : State) : Prop where
  oneThread : ∀ t t', s.Inside t → s.Inside t' → t = t'
  onOwner : ∀ t, s.Inside t → t = .owner

def CreatesOnOwner (_ : State) : Act → Prop
  | .call t .createContext => t = .owner
  | _ => True

/-! ## The steps -/

section

variable {s s' : State} {t : Thread}

theorem confined_iff : Confined s ↔ ∀ t, s.Inside t → t = .owner := by
  refine ⟨fun h => h.onOwner, fun h => ⟨fun t t' ht ht' => ?_, h⟩⟩
  rw [h t ht, h t' ht']

theorem inside_update {stack : List Frame} {u : Thread} (hstack : s'.stack = Function.update s.stack t stack) :
    s'.Inside u ↔ if u = t then ∃ n, .native n ∈ stack else s.Inside u := by
  unfold State.Inside
  rw [hstack]
  split
  · rename_i hut
    rw [hut, Function.update_self]
  · rename_i hut
    rw [Function.update_of_ne hut]

/-- A frame that is not native, or that is on the owner thread. -/
theorem confined_push {f : Frame} (hs : Confined s) (h : t = .owner ∨ ∀ n, f ≠ .native n)
    (hstack : s'.stack = Function.update s.stack t (f :: s.stack t)) : Confined s' := by
  rw [confined_iff] at hs ⊢
  intro u hu
  rw [inside_update hstack] at hu
  split at hu
  · rename_i hut
    rcases h with rfl | hf
    · exact hut
    · obtain ⟨n, hn⟩ := hu
      rcases List.mem_cons.mp hn with hn | hn
      · exact absurd hn.symm (hf n)
      · exact hs u (hut ▸ ⟨n, hn⟩)
  · exact hs u hu

theorem confined_pop {f : Frame} {rest : List Frame} (hs : Confined s) (hpop : s.stack t = f :: rest)
    (hstack : s'.stack = Function.update s.stack t rest) : Confined s' := by
  rw [confined_iff] at hs ⊢
  intro u hu
  rw [inside_update hstack] at hu
  split at hu
  · rename_i hut
    obtain ⟨n, hn⟩ := hu
    exact hs u ⟨n, by rw [hut, hpop]; exact List.mem_cons_of_mem _ hn⟩
  · exact hs u hu

theorem confined_keep (hs : Confined s) (hstack : s'.stack = s.stack) : Confined s' := by
  have hinside : ∀ u, s'.Inside u ↔ s.Inside u := fun u => by rw [State.Inside, hstack, State.Inside]
  rw [confined_iff] at hs ⊢
  exact fun u hu => hs u ((hinside u).mp hu)

/-- What a step does to the stacks. -/
inductive Moves (s s' : State) : Act → Prop where
  | create (t : Thread)
      (hstack : s'.stack = Function.update s.stack t (.native .createContext :: s.stack t)) :
      Moves s s' (.call t .createContext)
  | keep {a : Act} (ha : CreatesOnOwner s a) (hstack : s'.stack = s.stack) : Moves s s' a
  | push {a : Act} (t : Thread) (f : Frame) (ha : CreatesOnOwner s a) (h : t = .owner ∨ ∀ n, f ≠ .native n)
      (hstack : s'.stack = Function.update s.stack t (f :: s.stack t)) : Moves s s' a
  | pop {a : Act} (t : Thread) (f : Frame) (rest : List Frame) (ha : CreatesOnOwner s a)
      (hpop : s.stack t = f :: rest) (hstack : s'.stack = Function.update s.stack t rest) : Moves s s' a

/-- `post` runs the event on the owner thread, and otherwise leaves the client in its wait at most. -/
theorem moves_post {a : Act} {e : Event} {block : Bool} {run : Frame} (ha : CreatesOnOwner s a) :
    Moves s (s.post t e block run) a := by
  unfold State.post
  split
  · exact .keep ha rfl
  · cases t with
    | owner => exact .push .owner run ha (Or.inl rfl) rfl
    | client c =>
      dsimp only
      split
      · exact .push (.client c) .waiting ha (Or.inr fun n h => by cases h) rfl
      · exact .keep ha rfl

theorem moves_run {a : Act} {e : Event} {queue : List Event} (ha : CreatesOnOwner s a) :
    Moves s ({ s with queue := queue }.run e) a := by
  unfold State.run
  split
  · exact .keep ha rfl
  · cases e with
    | native n => exact .push .owner (.native n) ha (Or.inl rfl) rfl
    | runnable => exact .push .owner .java ha (Or.inl rfl) rfl

theorem moves_call {n : NativeMethod} : Moves s (s.call t n) (.call t n) := by
  cases n with
  | createContext => exact .create t rfl
  | _ => exact moves_post trivial

theorem moves_of_step {a : Act} (h : step s a = some s') : Moves s s' a := by
  cases a with
  | call t n =>
    simp only [step] at h
    split at h
    · exact Option.some.inj h ▸ moves_call
    · cases h
  | postEventQueue t =>
    simp only [step] at h
    split at h
    · exact Option.some.inj h ▸ moves_post trivial
    · cases h
  | serve =>
    simp only [step] at h
    split at h
    · exact Option.some.inj h ▸ moves_run trivial
    · cases h
  | callback t =>
    simp only [step] at h
    split at h
    · exact .push t .java trivial (Or.inr fun n h => by cases h) (by rw [← Option.some.inj h]; rfl)
    · cases h
  | finish t =>
    simp only [step] at h
    split at h
    · rename_i hstack
      exact .pop t _ _ trivial hstack (by rw [← Option.some.inj h])
    · rename_i hstack
      exact .pop t _ _ trivial hstack (by rw [← Option.some.inj h])
    · cases h
  | resume c =>
    simp only [step] at h
    split at h
    · rename_i hstack
      exact .pop (.client c) _ _ trivial hstack (by rw [← Option.some.inj h])
    · cases h
  | setReleased | interrupt =>
    simp only [step] at h
    split at h
    · exact .keep trivial (by rw [← Option.some.inj h])
    · cases h

theorem confined_step {a : Act} (hs : Confined s) (h : step s a = some s') :
    Confined s' ↔ CreatesOnOwner s a := by
  cases moves_of_step h with
  | create t hstack =>
    constructor
    · intro hs'
      apply hs'.onOwner
      refine ⟨.createContext, ?_⟩
      rw [hstack, Function.update_self]
      exact List.mem_cons_self
    · intro ht
      exact confined_push hs (Or.inl ht) hstack
  | keep ha hstack => exact iff_of_true (confined_keep hs hstack) ha
  | push t f ha hf hstack => exact iff_of_true (confined_push hs hf hstack) ha
  | pop t f rest ha hpop hstack => exact iff_of_true (confined_pop hs hpop hstack) ha

/-! ## Whole runs -/

/-- **Confinement.** In a run one thread at a time is inside native code, the owner thread, iff
`_createContext` is called on the owner thread only. -/
theorem confined_iff_createsOnOwner {as : List Act} (h : Machine.Run step init as s) :
    (∀ bs t, bs <+: as → Machine.Run step init bs t → Confined t) ↔
      Machine.GuardedRun step CreatesOnOwner init as s := by
  have hinit : Confined init := confined_iff.mpr fun t ⟨n, hn⟩ => by cases hn
  exact (Machine.guardedRun_iff_forall_prefix (I := Confined)
    (fun _ _ _ hs hst => confined_step hs hst) hinit h).symm

end

/-- A client has a script executed, and the owner thread serves it. -/
def sampleScript : List Act := [.call (.client 1) .executeScript, .serve]

theorem confined_iff_createsOnOwner_script :
    ∃ s, Machine.Run step init (sampleScript ++ [.callback .owner, .call .owner .createContext]) s ∧
      s.stack .owner = [.native .createContext, .java, .native .executeScript] ∧ Confined s := by
  have hrun : ∃ s, Machine.GuardedRun step CreatesOnOwner init
        (sampleScript ++ [.callback .owner, .call .owner .createContext]) s ∧
      s.stack .owner = [.native .createContext, .java, .native .executeScript] :=
    ⟨_, .cons trivial rfl (.cons trivial rfl (.cons trivial rfl (.cons rfl rfl (.nil _)))), rfl⟩
  obtain ⟨s, hrun, hstack⟩ := hrun
  exact ⟨s, hrun.run, hstack,
    (confined_iff_createsOnOwner hrun.run).mpr hrun _ s List.prefix_rfl hrun.run⟩

/-- Meanwhile a second client creates a context: two threads are inside native code. -/
theorem not_confined_createContext :
    ∃ s, Machine.Run step init (sampleScript ++ [.call (.client 2) .createContext]) s ∧
      s.Inside .owner ∧ s.Inside (.client 2) ∧ ¬ Confined s := by
  have hrun : ∃ s, Machine.Run step init (sampleScript ++ [.call (.client 2) .createContext]) s ∧
      s.stack .owner = [.native .executeScript] ∧ s.stack (.client 2) = [.native .createContext] :=
    ⟨_, .cons trivial rfl (.cons trivial rfl (.cons trivial rfl (.nil _))), rfl, rfl⟩
  obtain ⟨s, hrun, howner, hclient⟩ := hrun
  have hinside : s.Inside (.client 2) := ⟨.createContext, by rw [hclient]; exact List.mem_cons_self⟩
  refine ⟨s, hrun, ⟨.executeScript, by rw [howner]; exact List.mem_cons_self⟩, hinside, fun h => ?_⟩
  cases h.onOwner _ hinside

end QuickJSBridge.ThreadConfinement
