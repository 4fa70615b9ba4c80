import Mathlib.Data.List.Basic
import Mathlib.Logic.Function.Basic
import QuickJSBridge.Lib.Machine

/-!
# Run to completion

An event that another thread posts is served when the owner thread has returned to its loop. An event that is
posted *on* the owner thread runs at once, and the owner thread may be deep inside JS code there: a script calls
Java, and Java calls `postEventQueue`, `JSContext.close` or `QuickJS.close`.

* `step` — the owner thread's stack, the queue, and the calls that Java code makes on the owner thread;
* `RunsToCompletion` — events start with no `_executeScript`, `_executeFunction` or `_executeFunction2` on the
  stack, and contexts and the runtime are freed with no JS code on it;
* `PostsOutsideScripts` — Java code called by a script posts nothing, and a close that a getter started does
  not come to its release;
* `completes_iff_postsOutside` — a run keeps the first iff its steps have the second.
-/

namespace QuickJSBridge.RunToCompletion

/-! ## The machine -/

/-- What is given to `postEventQueue`. -/
inductive Runnable where
  | other
  -- of `JSContext.close`
  | closeContext (ctx : Nat)
  -- of `QuickJS.close`
  | closeRuntime
  deriving DecidableEq

/-- An event in the handler's queue. -/
inductive Event where
  -- the lambda of `post` around one of the three native calls that execute
  | execute
  -- the lambda of `post` or `postVoid` around another native call
  | native
  | runnable (r : Runnable)
  deriving DecidableEq

/-- What the owner thread is in the middle of. -/
inductive Frame where
  -- `_executeScript`, `_executeFunction` or `_executeFunction2`
  | execute
  -- another native call, which may run JS code: a getter, a trap, a conversion to text
  | native
  -- Java code that JS code called
  | callback
  -- a runnable
  | event
  -- the runnable of `JSContext.close` before `_releaseContext`
  | closingContext (ctx : Nat)
  -- the runnable of `QuickJS.close` before `_releaseRuntime`
  | closingRuntime
  deriving DecidableEq

namespace Frame

/-- Java code runs in the frame. -/
def inJava : Frame → Bool
  | .execute | .native => false
  | _ => true

/-- JS code runs, or may run, in the frame. -/
def inJS : Frame → Bool
  | .execute | .native => true
  | _ => false

/-- A runnable that was given to `postEventQueue`. -/
def isRunnable : Frame → Bool
  | .event | .closingContext _ | .closingRuntime => true
  | _ => false

end Frame

inductive What where
  | event (r : Runnable)
  | releaseContext (ctx : Nat)
  | releaseRuntime
  deriving DecidableEq

/-- Something that was started, and whether code that it should have waited for was on the stack. -/
structure Start where
  what : What
  underneath : Bool
  deriving DecidableEq

structure State where
  released : Bool
  interrupted : Bool
  queue : List Event
  -- innermost first; below it is the event loop, or the code of the thread that created the runtime
  stack : List Frame
  -- the contexts whose `released` is set
  closed : Nat → Bool
  started : List Start

def init : State where
  released := false
  interrupted := false
  queue := []
  stack := []
  closed := fun _ => false
  started := []

inductive Act where
  -- another thread, past its test of the flags, passes an event to `handler.post`
  | post (e : Event)
  -- the owner thread takes the first event
  | serve
  -- Java code on the owner thread calls `postEventQueue`, `JSContext.close` or `QuickJS.close`
  | postOnOwner (r : Runnable)
  -- Java code on the owner thread makes a native call
  | execute
  | native
  -- JS code calls Java
  | callback
  -- a close goes on to its release
  | releaseContext
  | releaseRuntime
  -- the innermost frame returns or is left by an exception
  | finish
  deriving DecidableEq

namespace State

/-- The test at the head of `post` and `postVoid`. -/
def isReleased (s : State) : Bool := s.released || s.interrupted

def executing (s : State) : Bool := s.stack.any (· = .execute)

def runsJS (s : State) : Bool := s.stack.any Frame.inJS

/-- Java code runs on the owner thread. -/
def inJava (s : State) : Bool := s.stack.head?.all Frame.inJava

def push (s : State) (f : Frame) : State := { s with stack := f :: s.stack }

def log (s : State) (what : What) (underneath : Bool) : State :=
  { s with started := s.started ++ [⟨what, underneath⟩] }

/-- The frame of a runnable; a close that finds its flag set returns at once. -/
def frameOf (s : State) : Runnable → Frame
  | .other => .event
  | .closeContext ctx => if s.closed ctx then .event else .closingContext ctx
  | .closeRuntime => if s.released then .event else .closingRuntime

/-- `event.run()` -/
def run (s : State) (r : Runnable) : State := (s.log (.event r) s.executing).push (s.frameOf r)

end State

def step (s : State) : Act → Option State
  | .post e => some { s with queue := s.queue ++ [e] }
  | .serve =>
    match s.stack, s.queue with
    | [], e :: rest =>
      let s := { s with queue := rest }
      match e with
      | .execute => some (s.push .execute)
      | .native => some (s.push .native)
      | .runnable r => some (if s.released then s else s.run r)
    | _, _ => none
  | .postOnOwner r => if s.inJava then some (if s.isReleased then s else s.run r) else none
  | .execute => if s.inJava then some (if s.isReleased then s else s.push .execute) else none
  | .native => if s.inJava then some (if s.isReleased then s else s.push .native) else none
  | .callback => if s.stack.head?.any Frame.inJS then some (s.push .callback) else none
  | .releaseContext =>
    match s.stack with
    | .closingContext ctx :: rest =>
      let s := { s with closed := Function.update s.closed ctx true }
      -- `_releaseContext` goes through `postVoid` once more
      some { (if s.isReleased then s else s.log (.releaseContext ctx) s.runsJS) with stack := rest }
    | _ => none
  | .releaseRuntime =>
    match s.stack with
    | .closingRuntime :: rest =>
      some { (if s.isReleased then s else s.log .releaseRuntime s.runsJS) with
        stack := rest, released := true, interrupted := true }
    | _ => none
  | .finish =>
    match s.stack with
    | _ :: rest => some { s with stack := rest }
    | [] => none

/-! ## The property and the guard -/

/-- Nothing was started underneath code that it should have waited for. -/
def RunsToCompletion (s : State) : Prop := ∀ e ∈ s.started, e.underneath = false

/-- On the owner thread nothing is posted while a script or function executes, and no close comes to its release
underneath another native call. -/
def PostsOutsideScripts (s : State) : Act → Prop
  | .postOnOwner _ => s.isReleased = true ∨ s.executing = false
  | .releaseContext | .releaseRuntime => s.isReleased = true ∨ .native ∉ s.stack
  | _ => True

instance (s : State) : (a : Act) → Decidable (PostsOutsideScripts s a)
  | .postOnOwner _ => inferInstanceAs (Decidable (_ = _ ∨ _ = _))
  | .releaseContext | .releaseRuntime => inferInstanceAs (Decidable (_ = _ ∨ _ ∉ _))
  | .post _ | .serve | .execute | .native | .callback | .finish => inferInstanceAs (Decidable True)

/-! ## The invariant -/

/-- No runnable is underneath a script or function that executes. -/
def Layered : List Frame → Prop
  | [] => True
  | f :: rest => (f.isRunnable = true → .execute ∉ rest) ∧ Layered rest

structure Inv (s : State) : Prop where
  layered : Layered s.stack
  completes : RunsToCompletion s

theorem executing_eq_false {s : State} : s.executing = false ↔ .execute ∉ s.stack := by
  unfold State.executing
  rw [List.any_eq_false]
  exact ⟨fun h hmem => h _ hmem (decide_eq_true rfl), fun h f hf hdec => h (of_decide_eq_true hdec ▸ hf)⟩

theorem runsToCompletion_log {s : State} {what : What} {b : Bool} :
    RunsToCompletion (s.log what b) ↔ RunsToCompletion s ∧ b = false := by
  simp [RunsToCompletion, State.log, or_imp, forall_and]

theorem Inv.push {s : State} {f : Frame} (hi : Inv s) (hf : f.isRunnable = false) : Inv (s.push f) where
  layered := ⟨fun h => absurd h (by rw [hf]; exact Bool.false_ne_true), hi.layered⟩
  completes := hi.completes

theorem Inv.run {s : State} (hi : Inv s) (r : Runnable) (h : s.executing = false) : Inv (s.run r) where
  layered := ⟨fun _ => executing_eq_false.mp h, hi.layered⟩
  completes := runsToCompletion_log.mpr ⟨hi.completes, h⟩

/-- A close at the top of a layered stack, with no other native call below it, has no JS code below it. -/
theorem runsJS_eq_false {s : State} {f : Frame} {rest : List Frame} (hi : Inv s) (hstack : s.stack = f :: rest)
    (hf : f.isRunnable = true) (hnative : .native ∉ s.stack) : s.runsJS = false := by
  have hlayered := hi.layered
  rw [hstack] at hlayered hnative
  have hexecute := hlayered.1 hf
  unfold State.runsJS
  rw [hstack, List.any_eq_false]
  intro g hg
  cases g with
  | execute =>
    rcases List.mem_cons.mp hg with rfl | hg
    · cases hf
    · exact absurd hg hexecute
  | native => exact absurd hg hnative
  | callback | event | closingContext _ | closingRuntime => exact Bool.false_ne_true

theorem not_native_of_runsJS {s : State} (h : s.runsJS = false) : .native ∉ s.stack := by
  unfold State.runsJS at h
  rw [List.any_eq_false] at h
  intro hmem
  exact h .native hmem rfl

/-! ## The step lemmas -/

theorem Inv.of_stack {s s' : State} (hi : Inv s) (hlayered : Layered s'.stack) (hstarted : s'.started = s.started) :
    Inv s' where
  layered := hlayered
  completes := by
    unfold RunsToCompletion
    rw [hstarted]
    exact hi.completes

theorem Layered.tail {f : Frame} {rest : List Frame} (h : Layered (f :: rest)) : Layered rest := h.2

/-- Only a call of Java code on the owner thread starts a runnable with something on the stack. -/
theorem inv_serve {s s' : State} (hi : Inv s) (h : step s .serve = some s') : Inv s' := by
  simp only [step] at h
  split at h
  · rename_i e rest hstack hqueue
    have hi' : Inv { s with queue := rest } := hi.of_stack hi.layered rfl
    cases e with
    | execute => exact Option.some.inj h ▸ hi'.push rfl
    | native => exact Option.some.inj h ▸ hi'.push rfl
    | runnable r =>
      rw [← Option.some.inj h]
      split
      · exact hi'
      · apply hi'.run
        rw [executing_eq_false]
        show Frame.execute ∉ s.stack
        rw [hstack]
        exact List.not_mem_nil
  · cases h

theorem inv_postOnOwner {s s' : State} {r : Runnable} (hi : Inv s) (h : step s (.postOnOwner r) = some s') :
    (RunsToCompletion s' → PostsOutsideScripts s (.postOnOwner r)) ∧
      (PostsOutsideScripts s (.postOnOwner r) → Inv s') := by
  simp only [step] at h
  split at h
  · rw [← Option.some.inj h]
    by_cases hrel : s.isReleased = true
    · rw [if_pos hrel]
      exact ⟨fun _ => Or.inl hrel, fun _ => hi⟩
    · rw [if_neg hrel]
      exact ⟨fun hc => Or.inr (runsToCompletion_log.mp hc).2, fun hg => hi.run r (hg.resolve_left hrel)⟩
  · cases h

/-- A close that comes to its release: what is logged, and when nothing is. -/
theorem inv_release {s s' : State} {f : Frame} {rest : List Frame} (what : What) (t : State) (hi : Inv s)
    (hstack : s.stack = f :: rest) (hf : f.isRunnable = true)
    (ht : t.stack = s.stack ∧ t.started = s.started)
    (hlayered : s'.stack = rest)
    (hstarted : s'.started = (if s.isReleased then t else t.log what t.runsJS).started) :
    (RunsToCompletion s' → s.isReleased = true ∨ .native ∉ s.stack) ∧
      (s.isReleased = true ∨ .native ∉ s.stack → Inv s') := by
  have htail : Layered s'.stack := by
    have hs := hi.layered
    rw [hstack] at hs
    rw [hlayered]
    exact hs.tail
  have hruns : t.runsJS = s.runsJS := by
    unfold State.runsJS
    rw [ht.1]
  by_cases hrel : s.isReleased = true
  · rw [if_pos hrel] at hstarted
    exact ⟨fun _ => Or.inl hrel, fun _ => hi.of_stack htail (hstarted.trans ht.2)⟩
  · rw [if_neg hrel] at hstarted
    have hlog : RunsToCompletion s' ↔ RunsToCompletion s ∧ s.runsJS = false := by
      unfold RunsToCompletion
      rw [hstarted, ← ht.2, ← hruns]
      exact runsToCompletion_log (s := t)
    constructor
    · intro hc
      exact Or.inr (not_native_of_runsJS (hlog.mp hc).2)
    · intro hg
      have hnative := hg.resolve_left hrel
      exact ⟨htail, hlog.mpr ⟨hi.completes, runsJS_eq_false hi hstack hf hnative⟩⟩

theorem inv_releaseContext {s s' : State} (hi : Inv s) (h : step s .releaseContext = some s') :
    (RunsToCompletion s' → PostsOutsideScripts s .releaseContext) ∧
      (PostsOutsideScripts s .releaseContext → Inv s') := by
  simp only [step] at h
  split at h
  · rename_i ctx rest hstack
    rw [← Option.some.inj h]
    exact inv_release (.releaseContext ctx) { s with closed := Function.update s.closed ctx true } hi hstack rfl
      ⟨rfl, rfl⟩ rfl rfl
  · cases h

theorem inv_releaseRuntime {s s' : State} (hi : Inv s) (h : step s .releaseRuntime = some s') :
    (RunsToCompletion s' → PostsOutsideScripts s .releaseRuntime) ∧
      (PostsOutsideScripts s .releaseRuntime → Inv s') := by
  simp only [step] at h
  split at h
  · rename_i rest hstack
    rw [← Option.some.inj h]
    exact inv_release .releaseRuntime s hi hstack rfl ⟨rfl, rfl⟩ rfl rfl
  · cases h

/-- The frames that are pushed without a post. -/
theorem inv_call {s s' : State} {c : Prop} [Decidable c] {f : Frame} (hi : Inv s) (hf : f.isRunnable = false)
    (h : (if c then some (if s.isReleased then s else s.push f) else none) = some s') : Inv s' := by
  split at h
  · rw [← Option.some.inj h]
    split
    · exact hi
    · exact hi.push hf
  · cases h

theorem inv_callback {s s' : State} (hi : Inv s) (h : step s .callback = some s') : Inv s' := by
  simp only [step] at h
  split at h
  · exact Option.some.inj h ▸ hi.push rfl
  · cases h

theorem inv_finish {s s' : State} (hi : Inv s) (h : step s .finish = some s') : Inv s' := by
  simp only [step] at h
  split at h
  · rename_i f rest hstack
    rw [← Option.some.inj h]
    have hs := hi.layered
    rw [hstack] at hs
    exact hi.of_stack hs.tail rfl
  · cases h

/-- A step from a good state: it is guarded if it leads to a good state, and leads to one if it is guarded. -/
theorem inv_step {s s' : State} {a : Act} (hi : Inv s) (h : step s a = some s') :
    (RunsToCompletion s' → PostsOutsideScripts s a) ∧ (PostsOutsideScripts s a → Inv s') := by
  cases a with
  | post e => exact ⟨fun _ => trivial, fun _ => Option.some.inj h ▸ hi.of_stack hi.layered rfl⟩
  | serve => exact ⟨fun _ => trivial, fun _ => inv_serve hi h⟩
  | postOnOwner r => exact inv_postOnOwner hi h
  | execute => exact ⟨fun _ => trivial, fun _ => inv_call hi rfl h⟩
  | native => exact ⟨fun _ => trivial, fun _ => inv_call hi rfl h⟩
  | callback => exact ⟨fun _ => trivial, fun _ => inv_callback hi h⟩
  | releaseContext => exact inv_releaseContext hi h
  | releaseRuntime => exact inv_releaseRuntime hi h
  | finish => exact ⟨fun _ => trivial, fun _ => inv_finish hi h⟩

theorem inv_init : Inv init where
  layered := trivial
  completes := fun _ h => absurd h List.not_mem_nil

/-! ## Runs -/

/-- **Run to completion.** In every state of a run whatever was started waited for the scripts iff every step of
the run posts outside of scripts. -/
theorem completes_iff_postsOutside {as : List Act} {s : State} (h : Machine.Run step init as s) :
    Machine.GuardedRun step PostsOutsideScripts init as s ↔
      ∀ bs t, bs <+: as → Machine.Run step init bs t → RunsToCompletion t :=
  Machine.guardedRun_iff_forall_prefix_of (I := Inv) (P := RunsToCompletion)
    (fun _ _ _ hi hg hst => (inv_step hi hst).2 hg) (fun _ hi => hi.completes)
    (fun _ _ _ hi hst hc => (inv_step hi hst).1 hc) inv_init h

/-- An event of another thread closes a context after the script that was running has returned. -/
def closeAfterScript : List Act :=
  [.post .execute, .serve, .callback, .post (.runnable (.closeContext 0)), .finish, .finish, .serve, .releaseContext]

theorem completes_iff_postsOutside_after :
    ∃ s, Machine.Run step init closeAfterScript s ∧
      ∀ bs t, bs <+: closeAfterScript → Machine.Run step init bs t → RunsToCompletion t := by
  obtain ⟨s, hrun, _⟩ := Machine.exists_guardedRun_of_execGuarded step PostsOutsideScripts init closeAfterScript
    (fun _ => true) (by decide)
  exact ⟨s, hrun.run, (completes_iff_postsOutside hrun.run).mp hrun⟩

/-- A callback of a script closes its context: the context is freed underneath the script. -/
theorem not_completes_close_in_callback :
    ¬ ∀ as s, Machine.Run step init as s → RunsToCompletion s := by
  intro hall
  obtain ⟨s, hrun, hstarted⟩ := Machine.exists_run_of_exec step init
    [.execute, .callback, .postOnOwner (.closeContext 0), .releaseContext]
    (fun s => decide (⟨.releaseContext 0, true⟩ ∈ s.started)) (by decide)
  have hunder := hall _ s hrun _ (of_decide_eq_true hstarted)
  cases hunder

end QuickJSBridge.RunToCompletion
