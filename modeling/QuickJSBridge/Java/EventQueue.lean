import Mathlib.Data.List.Basic
import Mathlib.Logic.Function.Basic
import QuickJSBridge.Lib.Machine

/-!
# The event queue and the end of a runtime

`EventQueue` implements `QuickJSNative` by sending every call to the owner thread. A client thread
tests `isReleased()`, enqueues an event and waits; the owner thread serves the events in order.
There are three ways through (`Route`): `post` and `postVoid` test the flag on the calling thread,
`postVoid` tests it once more when its event is served, `post` does not, and `_createContext` calls
the native method at once on the calling thread.

* `EventQueue.step` — the machine: the clients' tests and enqueues, the owner thread's event loop,
  and the runnable of `QuickJS.close` split where other threads can see the difference;
* `NoLateStart` — no native method starts after `_releaseRuntime`;
* `Drained` — the schedules on which `_releaseRuntime` finds no `post` event in the queue, and
  neither a `post` event is enqueued nor `_createContext` called after it;
* `noLateStart_of_drained` — along such schedules `NoLateStart` holds in every state.
-/

namespace QuickJSBridge.EventQueue

/-! ## The native methods and their routes -/

/-- The methods of `QuickJSNative`. All but the first two take a context pointer. -/
inductive NativeMethod where
  | createContext
  | releaseRuntime
  | releaseContext
  | executeScript
  | getGlobalObject
  | set
  | get
  | arrayGet
  | arrayAdd
  | executeFunction
  | executeFunction2
  | initNewJSObject
  | initNewJSArray
  | initNewJSFunction
  | releasePtr
  | registerJavaMethod
  | getObjectType
  | contains
  | getKeys
  | isUndefined
  | undefined
  | getValue
  | arrayGetValue
  | getException
  | newClass
  deriving DecidableEq

inductive Route where
  | direct
  | post
  | postVoid
  deriving DecidableEq

def NativeMethod.route : NativeMethod → Route
  | .createContext => .direct
  | .releaseRuntime | .releaseContext | .set | .arrayAdd | .releasePtr => .postVoid
  | _ => .post

/-! ## The machine

The owner thread is a stack of what it is in the middle of: JS code called from an event may call
Java, which may call `QuickJS.close` again. Between `_releaseRuntime` and `released = true`, and
between that and `interrupt()`, the owner thread does nothing else, but a client may act. Waiting for
the result of an event is one of a client's schedules: a client that enqueued may also go on, as it
does after an `InterruptedException` or a non-blocking `postVoid`. -/

/-- A method that a client sends through the queue; `_releaseRuntime` is called by the runnable of
`QuickJS.close` only. -/
abbrev QueuedMethod := { n : NativeMethod // n.route ≠ .direct ∧ n ≠ .releaseRuntime }

/-- An event in the handler's queue. -/
inductive Event where
  | native (n : QueuedMethod)
  -- a `Runnable` of `postEventQueue`, the one of `JSContext.close` included
  | runnable
  -- the `Runnable` of `QuickJS.close`
  | close
  deriving DecidableEq

def Event.route : Event → Route
  | .native n => n.1.route
  | .runnable | .close => .postVoid

theorem Event.route_ne_direct (e : Event) : e.route ≠ .direct := by
  match e with
  | .native n => exact n.2.1
  | .runnable => exact Route.noConfusion
  | .close => exact Route.noConfusion

inductive Frame where
  -- in an event, or in Java code called from it
  | event
  -- in the runnable of `QuickJS.close`, before `_releaseRuntime`: the contexts are being closed
  | closing
  -- `_releaseRuntime` returned and `released = true` comes next
  | releasing
  -- `interrupt()` comes next
  | interrupting
  deriving DecidableEq

structure State where
  released : Bool
  interrupted : Bool
  -- `_releaseRuntime` was executed
  freed : Bool
  queue : List Event
  owner : List Frame
  -- the event that a client is about to enqueue
  admitted : Nat → Option Event
  -- the native methods that were started, in order
  started : List NativeMethod

def init : State where
  released := false
  interrupted := false
  freed := false
  queue := []
  owner := []
  admitted := fun _ => none
  started := []

inductive Act where
  -- client `c` is at the test of `post` or `postVoid`, with event `e` to enqueue
  | check (c : Nat) (e : Event)
  -- client `c` passes its event to `handler.post`
  | enqueue (c : Nat)
  -- a client calls `_createContext`
  | createContext
  -- the owner thread takes the first event
  | serve
  -- inside an event the owner thread calls a native method other than `_releaseRuntime`
  | call (n : NativeMethod)
  -- inside an event the owner thread calls `QuickJS.close`
  | close
  -- the runnable of `QuickJS.close` goes on to its next statement
  | release
  | setReleased
  | interrupt
  -- the event returns
  | finish
  deriving DecidableEq

/-- The test at the head of `post` and `postVoid`. -/
def State.isReleased (s : State) : Bool := s.released || s.interrupted

def State.start (s : State) (n : NativeMethod) : State := { s with started := s.started ++ [n] }

/-- `post` and `postVoid` on the owner thread, and the direct call. -/
def State.ownerCall (s : State) (n : NativeMethod) : State :=
  match n.route with
  | .direct => s.start n
  | .post | .postVoid => if s.isReleased then s else s.start n

/-- The runnable that `handler.post` was given, up to the code it calls. -/
def State.run (s : State) (e : Event) : State :=
  if e.route = .postVoid ∧ s.released then s
  else
    match e with
    | .native n => { s.start n.1 with owner := [.event] }
    | .runnable => { s with owner := [.event] }
    | .close => { s with owner := [.closing, .event] }

/-- Java code is running on the owner thread and may make any call. -/
def Frame.open : Frame → Bool
  | .event | .closing => true
  | .releasing | .interrupting => false

def State.ownerOpen (s : State) : Bool := s.owner.head?.any Frame.open

def step (s : State) : Act → Option State
  | .check c e =>
    if s.admitted c = none then
      some (if s.isReleased then s else { s with admitted := Function.update s.admitted c (some e) })
    else none
  | .enqueue c =>
    match s.admitted c with
    | some e =>
      some { s with queue := s.queue ++ [e], admitted := Function.update s.admitted c none }
    | none => none
  | .createContext => some (s.start .createContext)
  | .serve =>
    match s.owner, s.queue with
    | [], e :: rest => some ({ s with queue := rest }.run e)
    | _, _ => none
  | .call n =>
    if s.ownerOpen ∧ n ≠ .releaseRuntime then some (s.ownerCall n) else none
  | .close =>
    if s.ownerOpen then
      some (if s.isReleased then s else { s with owner := .closing :: s.owner })
    else none
  | .release =>
    match s.owner with
    | .closing :: rest =>
      some { (if s.isReleased then s else { s.start .releaseRuntime with freed := true }) with
        owner := .releasing :: rest }
    | _ => none
  | .setReleased =>
    match s.owner with
    | .releasing :: rest => some { s with released := true, owner := .interrupting :: rest }
    | _ => none
  | .interrupt =>
    match s.owner with
    | .interrupting :: rest => some { s with interrupted := true, owner := rest }
    | _ => none
  | .finish =>
    match s.owner with
    | .event :: rest => some { s with owner := rest }
    | _ => none

/-! ## The property and the guard -/

/-- No native method starts after `_releaseRuntime`. -/
def NoLateStart (started : List NativeMethod) : Prop :=
  Machine.NothingAfter .releaseRuntime started

/-- `_releaseRuntime` is executed only while no `post` event is queued; once it was executed no
client enqueues a `post` event, and nobody calls `_createContext`. -/
def Drained (s : State) : Act → Prop
  | .enqueue c => s.freed = true → ∀ e, s.admitted c = some e → e.route ≠ .post
  | .createContext => s.freed = false
  | .call n => n = .createContext → s.freed = false
  | .release => s.isReleased = false → ∀ e ∈ s.queue, e.route ≠ .post
  | _ => True

/-! ## The invariant -/

structure Inv (s : State) : Prop where
  -- only inside the runnable of `QuickJS.close` is the runtime freed and the flag not set
  window : s.freed = true → s.released = true ∨ s.owner.head? = some .releasing
  drained : s.freed = true → ∀ e ∈ s.queue, e.route ≠ .post
  fresh : s.freed = false → .releaseRuntime ∉ s.started
  last : NoLateStart s.started

theorem inv_init : Inv init where
  window h := by cases h
  drained h := by cases h
  fresh _ h := by cases h
  last := Machine.nothingAfter_of_not_mem List.not_mem_nil

/-! ## The step lemmas -/

/-- A step that starts nothing and neither frees nor enqueues. -/
theorem Inv.of_quiet {s s' : State} (hi : Inv s) (hfreed : s'.freed = s.freed)
    (hstarted : s'.started = s.started) (hqueue : s'.queue ⊆ s.queue)
    (hwindow : s.freed = true → s'.released = true ∨ s'.owner.head? = some .releasing) :
    Inv s' where
  window h := hwindow (by rw [← hfreed]; exact h)
  drained h e he := hi.drained (by rw [← hfreed]; exact h) e (hqueue he)
  fresh h := by
    rw [hstarted]
    exact hi.fresh (by rw [← hfreed]; exact h)
  last := by
    rw [hstarted]
    exact hi.last

/-- Starting a method other than `_releaseRuntime` while the runtime is not freed. -/
theorem Inv.start {s : State} {n : NativeMethod} (hi : Inv s) (hf : s.freed = false)
    (hn : n ≠ .releaseRuntime) : Inv (s.start n) := by
  have hfresh : .releaseRuntime ∉ (s.start n).started := by
    intro hmem
    rcases List.mem_append.mp hmem with hmem | hmem
    · exact hi.fresh hf hmem
    · exact hn (List.mem_singleton.mp hmem).symm
  exact {
    window := hi.window
    drained := hi.drained
    fresh := fun _ => hfresh
    last := Machine.nothingAfter_of_not_mem hfresh }

theorem Inv.freed_eq_false {s : State} (hi : Inv s) (hrel : s.isReleased = false)
    (howner : s.owner.head? ≠ some .releasing) : s.freed = false := by
  cases hf : s.freed with
  | false => rfl
  | true =>
    rcases hi.window hf with h | h
    · rw [State.isReleased, h] at hrel
      cases hrel
    · exact absurd h howner

theorem ownerOpen_head {s : State} (h : s.ownerOpen = true) : s.owner.head? ≠ some .releasing := by
  intro hhead
  rw [State.ownerOpen, hhead] at h
  cases h

theorem inv_check {s s' : State} {c : Nat} {e : Event} (hi : Inv s)
    (h : step s (.check c e) = some s') : Inv s' := by
  simp only [step] at h
  split at h
  · rw [← Option.some.inj h]
    split
    · exact hi
    · exact hi.of_quiet rfl rfl (fun _ h => h) hi.window
  · cases h

theorem inv_enqueue {s s' : State} {c : Nat} (hi : Inv s) (hg : Drained s (.enqueue c))
    (h : step s (.enqueue c) = some s') : Inv s' := by
  simp only [step] at h
  split at h
  · rename_i e hadm
    rw [← Option.some.inj h]
    exact {
      window := hi.window
      drained := by
        intro hf e' he'
        rcases List.mem_append.mp he' with he' | he'
        · exact hi.drained hf e' he'
        · rw [List.mem_singleton.mp he']
          exact hg hf e hadm
      fresh := hi.fresh
      last := hi.last }
  · cases h

/-- Once the runtime is freed only a `postVoid` event can be at the head of the queue, and that one
tests the flag again. -/
theorem Inv.run {s : State} {e : Event} (hi : Inv s) (hidle : s.owner = [])
    (hroute : s.freed = true → e.route ≠ .post) : Inv (s.run e) := by
  unfold State.run
  split
  · exact hi
  · rename_i hnot
    have hf : s.freed = false := by
      cases hf : s.freed with
      | false => rfl
      | true =>
        exfalso
        apply hnot
        refine ⟨?_, ?_⟩
        · cases hr : e.route with
          | direct => exact absurd hr e.route_ne_direct
          | post => exact absurd hr (hroute hf)
          | postVoid => rfl
        · rcases hi.window hf with h | h
          · exact h
          · rw [hidle] at h
            cases h
    have hwindow : s.freed = true → ∀ owner : List Frame,
        s.released = true ∨ owner.head? = some .releasing := by
      intro hf'
      rw [hf] at hf'
      cases hf'
    split
    · rename_i n
      exact (hi.start hf n.2.2).of_quiet rfl rfl (fun _ h => h) fun hf' => hwindow hf' _
    · exact hi.of_quiet rfl rfl (fun _ h => h) fun hf' => hwindow hf' _
    · exact hi.of_quiet rfl rfl (fun _ h => h) fun hf' => hwindow hf' _

theorem inv_serve {s s' : State} (hi : Inv s) (h : step s .serve = some s') : Inv s' := by
  simp only [step] at h
  split at h
  · rename_i e rest howner hqueue
    rw [← Option.some.inj h]
    have htail : rest ⊆ s.queue := by
      rw [hqueue]
      exact List.subset_cons_self e rest
    have hhead : s.freed = true → e.route ≠ .post := by
      intro hf
      apply hi.drained hf
      rw [hqueue]
      exact List.mem_cons_self
    have hi' : Inv { s with queue := rest } := hi.of_quiet rfl rfl htail hi.window
    exact hi'.run howner hhead
  · cases h

theorem inv_call {s s' : State} {n : NativeMethod} (hi : Inv s) (hg : Drained s (.call n))
    (h : step s (.call n) = some s') : Inv s' := by
  simp only [step] at h
  split at h
  · rename_i hopen
    obtain ⟨hopen, hn⟩ := hopen
    rw [← Option.some.inj h]
    unfold State.ownerCall
    have hpost : Inv (if s.isReleased then s else s.start n) := by
      split
      · exact hi
      · rename_i hrel
        exact hi.start (hi.freed_eq_false (by simpa using hrel) (ownerOpen_head hopen)) hn
    cases hr : n.route with
    | direct =>
      have hcreate : n = .createContext := by
        cases n <;> first | rfl | cases hr
      exact hi.start (hg hcreate) hn
    | post => exact hpost
    | postVoid => exact hpost
  · cases h

theorem inv_close {s s' : State} (hi : Inv s) (h : step s .close = some s') : Inv s' := by
  simp only [step] at h
  split at h
  · rename_i hopen
    rw [← Option.some.inj h]
    split
    · exact hi
    · rename_i hrel
      have hf := hi.freed_eq_false (by simpa using hrel) (ownerOpen_head hopen)
      refine hi.of_quiet rfl rfl (fun _ h => h) fun hf' => ?_
      rw [hf] at hf'
      cases hf'
  · cases h

theorem inv_release {s s' : State} (hi : Inv s) (hg : Drained s .release)
    (h : step s .release = some s') : Inv s' := by
  simp only [step] at h
  split at h
  · rename_i rest howner
    rw [← Option.some.inj h]
    split
    · exact hi.of_quiet rfl rfl (fun _ h => h) fun _ => Or.inr rfl
    · rename_i hrel
      have hrel : s.isReleased = false := by simpa using hrel
      have hf : s.freed = false := hi.freed_eq_false hrel (by rw [howner]; exact fun h => by cases h)
      exact {
        window := fun _ => Or.inr rfl
        drained := fun _ => hg hrel
        fresh := fun hf' => by cases hf'
        last := Machine.nothingAfter_concat (hi.fresh hf) }
  · cases h

theorem inv_setReleased {s s' : State} (hi : Inv s) (h : step s .setReleased = some s') :
    Inv s' := by
  simp only [step] at h
  split at h
  · rw [← Option.some.inj h]
    exact hi.of_quiet rfl rfl (fun _ h => h) fun _ => Or.inl rfl
  · cases h

/-- Popping a frame other than `releasing` keeps the window closed. -/
theorem Inv.window_of_head {s : State} {f : Frame} {rest : List Frame} (hi : Inv s)
    (howner : s.owner = f :: rest) (hf : f ≠ .releasing) : s.freed = true → s.released = true := by
  intro hfreed
  rcases hi.window hfreed with h | h
  · exact h
  · rw [howner] at h
    exact absurd (Option.some.inj h) hf

theorem inv_interrupt {s s' : State} (hi : Inv s) (h : step s .interrupt = some s') : Inv s' := by
  simp only [step] at h
  split at h
  · rename_i rest howner
    rw [← Option.some.inj h]
    exact hi.of_quiet rfl rfl (fun _ h => h) fun hf =>
      Or.inl (hi.window_of_head howner Frame.noConfusion hf)
  · cases h

theorem inv_finish {s s' : State} (hi : Inv s) (h : step s .finish = some s') : Inv s' := by
  simp only [step] at h
  split at h
  · rename_i rest howner
    rw [← Option.some.inj h]
    exact hi.of_quiet rfl rfl (fun _ h => h) fun hf =>
      Or.inl (hi.window_of_head howner Frame.noConfusion hf)
  · cases h

theorem inv_step {s s' : State} {a : Act} (hi : Inv s) (hg : Drained s a)
    (h : step s a = some s') : Inv s' := by
  cases a with
  | check c e => exact inv_check hi h
  | enqueue c => exact inv_enqueue hi hg h
  | createContext =>
    rw [← Option.some.inj h]
    exact hi.start hg NativeMethod.noConfusion
  | serve => exact inv_serve hi h
  | call n => exact inv_call hi hg h
  | close => exact inv_close hi h
  | release => exact inv_release hi hg h
  | setReleased => exact inv_setReleased hi h
  | interrupt => exact inv_interrupt hi h
  | finish => exact inv_finish hi h

/-! ## The end of the runtime -/

/-- **No late start.** Along a schedule whose steps are all drained no native method starts after
`_releaseRuntime`. -/
theorem noLateStart_of_drained {as : List Act} {s : State}
    (h : Machine.GuardedRun step Drained init as s) : NoLateStart s.started :=
  (h.invariant (fun _ _ _ hi hg hst => inv_step hi hg hst) inv_init).last

/-- The steps of `QuickJS.close` by client `c`, served with an empty queue before it. -/
def closeRun (c : Nat) : List Act :=
  [.check c .close, .enqueue c, .serve, .release, .setReleased, .interrupt, .finish]

theorem noLateStart_of_drained_close :
    ∃ s, Machine.GuardedRun step Drained init (closeRun 1) s ∧
      s.started = [.releaseRuntime] ∧ NoLateStart s.started := by
  have hrun : ∃ s, Machine.GuardedRun step Drained init (closeRun 1) s ∧
      s.started = [.releaseRuntime] := by
    refine ⟨_, .cons trivial rfl (.cons (fun hf => by cases hf) rfl (.cons trivial rfl
      (.cons (fun _ e he => by cases he) rfl (.cons trivial rfl (.cons trivial rfl
      (.cons trivial rfl (.nil _))))))), rfl⟩
  obtain ⟨s, hrun, hstarted⟩ := hrun
  exact ⟨s, hrun, hstarted, noLateStart_of_drained hrun⟩

/-- `executeScript` passes its test, the runtime is closed, and the event is served after that. -/
theorem lateStart_after_close :
    ¬ ∀ as s, Machine.Run step init as s → NoLateStart s.started := by
  intro hall
  obtain ⟨s, hrun, hstarted⟩ := Machine.exists_run_of_exec step init
    (.check 2 (.native ⟨.executeScript, by decide⟩) :: closeRun 1 ++ [.enqueue 2, .serve])
    (fun s => decide (s.started = [.releaseRuntime, .executeScript])) (by decide)
  have hlate := hall _ s hrun [] [.executeScript] (of_decide_eq_true hstarted)
  cases hlate

end QuickJSBridge.EventQueue
