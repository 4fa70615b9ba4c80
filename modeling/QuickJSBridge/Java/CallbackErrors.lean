import QuickJSBridge.Lib.Machine

/-!
# Java exceptions in callbacks

A JS call of a registered callback, or the construction of a registered class, runs Java code through a
trampoline (`callJavaCallback`, `js_worker_constructor`). If that code throws, the exception is left pending
in the `JNIEnv` and the trampoline returns `JobjectToJSValue` of null. The exception is raised when the next
native call returns to Java.

* `Client` — the JS programs and the Java code, as automata that call each other;
* `step` — one step of the code that runs, over the stack of its callers;
* `Stops` — a call whose Java code throws completes abruptly, and the operation fails if nothing catches it;
* `CallbackReturns` — the Java code of a callback does not throw;
* `stops_iff_callbackReturns` — a run has the first iff its steps have the second.
-/

namespace QuickJSBridge.CallbackErrors

variable {V E S J : Type}

/-! ## Clients -/

/-- How JS code completes. -/
inductive Completion (V : Type) where
  | returned (v : V)
  | threw (v : V)
  deriving DecidableEq

/-- How a native call that evaluates JS code ends for the Java code that made it. -/
inductive Ending (V E : Type) where
  | completed (c : Completion V)
  -- it returns with this exception pending
  | threw (e : E)
  deriving DecidableEq

/-- What JS code does next. -/
inductive JSAct (V S J : Type) where
  | statement (s : S)
  | completes (c : Completion V)
  -- a call expression; `resume` goes on with its completion
  | calls (callback : J) (resume : Completion V → S)

/-- What Java code does next. -/
inductive JavaAct (V E S J : Type) where
  | statement (j : J)
  | returns (v : V)
  | throws (e : E)
  -- an operation that evaluates a program; `resume` goes on with its ending
  | evaluates (program : S) (resume : Ending V E → J)

/-- The states of JS code are `S`, those of Java code are `J`. -/
structure Client (V E S J : Type) where
  js : S → JSAct V S J
  java : J → JavaAct V E S J
  -- `JS_NULL`
  null : V

/-! ## The machine -/

/-- A call that JS code made of a callback and that has ended. -/
structure EndedCall (V E S : Type) where
  -- by the Java code of the callback
  thrown : Option E
  resume : Completion V → S
  completion : Completion V

/-- What runs; a program with its ended calls. -/
inductive Running (V E S J : Type) where
  | script (s : S) (calls : List (EndedCall V E S))
  | java (j : J)

/-- What waits for the code above it. -/
inductive Caller (V E S J : Type) where
  | script (resume : Completion V → S) (calls : List (EndedCall V E S))
  | java (resume : Ending V E → J)

structure EndedOperation (V E S : Type) where
  calls : List (EndedCall V E S)
  ending : Ending V E

structure State (V E S J : Type) where
  running : Running V E S J
  -- innermost first
  callers : List (Caller V E S J)
  -- the exception pending in the `JNIEnv`
  pending : Option E
  ended : List (EndedOperation V E S)

def init (main : J) : State V E S J := ⟨.java main, [], none, []⟩

/-- A native call returns to Java. -/
def endingOf (pending : Option E) (c : Completion V) : Ending V E :=
  match pending with
  | some e => .threw e
  | none => .completed c

section

variable (c : Client V E S J)

def stepScript (s : State V E S J) (code : S) (calls : List (EndedCall V E S)) :
    Option (State V E S J) :=
  match c.js code with
  | .statement code' => some { s with running := .script code' calls }
  | .calls callback resume =>
    some { s with running := .java callback, callers := .script resume calls :: s.callers }
  | .completes completion =>
    match s.callers with
    | .java resume :: rest =>
      some
        { running := .java (resume (endingOf s.pending completion))
          callers := rest
          pending := none
          ended := s.ended ++ [⟨calls, endingOf s.pending completion⟩] }
    | _ => none

/-- `callJavaCallback`, `js_worker_constructor`: the Java code has returned, or thrown, and the call
expression gets `JobjectToJSValue` of the result. -/
def endCall (s : State V E S J) (thrown : Option E) (v : V) : Option (State V E S J) :=
  match s.callers with
  | .script resume calls :: rest =>
    some { s with
      running := .script (resume (.returned v)) (calls ++ [⟨thrown, resume, .returned v⟩])
      callers := rest
      pending := thrown <|> s.pending }
  | _ => none

def stepJava (s : State V E S J) (code : J) : Option (State V E S J) :=
  match c.java code with
  | .statement code' => some { s with running := .java code' }
  | .evaluates program resume =>
    some { s with running := .script program [], callers := .java resume :: s.callers }
  | .returns v => endCall s none v
  -- the result of the call is null
  | .throws e => endCall s (some e) c.null

def step (s : State V E S J) (_ : Unit) : Option (State V E S J) :=
  match s.running with
  | .script code calls => stepScript c s code calls
  | .java code => stepJava c s code

end

/-! ## The property and the guard -/

def Running.calls : Running V E S J → List (EndedCall V E S)
  | script _ calls => calls
  | java _ => []

def Caller.calls : Caller V E S J → List (EndedCall V E S)
  | script _ calls => calls
  | java _ => []

/-- The calls that have ended, in programs that still run and in others. -/
def State.calls (s : State V E S J) : List (EndedCall V E S) :=
  s.running.calls ++ s.callers.flatMap Caller.calls ++ s.ended.flatMap EndedOperation.calls

/-- The call completed abruptly if its Java code threw. -/
def EndedCall.Stopped (call : EndedCall V E S) : Prop :=
  call.thrown.isSome → ∃ v, call.completion = .threw v

/-- The JS code around the call lets its exception pass. -/
def EndedCall.Uncaught (c : Client V E S J) (call : EndedCall V E S) : Prop :=
  ∀ v, c.js (call.resume (.threw v)) = .completes (.threw v)

/-- Each call whose Java code threw completed abruptly; and where the JS code did not catch it, the
operation failed. `fails` says which endings are failures with an exception or with one that carries it. -/
structure Stops (c : Client V E S J) (fails : Ending V E → E → Prop) (s : State V E S J) : Prop where
  stopped : ∀ call ∈ s.calls, call.Stopped
  failed : ∀ op ∈ s.ended, ∀ call ∈ op.calls, ∀ e, call.thrown = some e → call.Uncaught c →
    fails op.ending e

/-- The step is not one in which the Java code of a callback throws. -/
def CallbackReturns (c : Client V E S J) (s : State V E S J) (_ : Unit) : Prop :=
  ∀ j e, s.running = .java j → c.java j = .throws e →
    ∀ resume calls rest, s.callers ≠ .script resume calls :: rest

/-! ## What a step does to the calls -/

section

variable {c : Client V E S J} {s s' : State V E S J}

theorem mem_calls_iff {call : EndedCall V E S} :
    call ∈ s.calls ↔ call ∈ s.running.calls ∨ (∃ f ∈ s.callers, call ∈ f.calls) ∨
      ∃ op ∈ s.ended, call ∈ op.calls := by
  unfold State.calls
  rw [List.mem_append, List.mem_append, List.mem_flatMap, List.mem_flatMap, or_assoc]

@[simp] theorem Running.calls_script (code : S) (calls : List (EndedCall V E S)) :
    (Running.script (J := J) code calls).calls = calls := rfl

@[simp] theorem Running.calls_java (j : J) : (Running.java (V := V) (E := E) (S := S) j).calls = [] := rfl

@[simp] theorem Caller.calls_script (resume : Completion V → S) (calls : List (EndedCall V E S)) :
    (Caller.script (J := J) resume calls).calls = calls := rfl

@[simp] theorem Caller.calls_java (resume : Ending V E → J) :
    (Caller.java (S := S) resume).calls = [] := rfl

/-- JS code that runs moves its calls at most, to its caller's frame or to the ended operation. -/
theorem calls_stepScript {code : S} {calls : List (EndedCall V E S)}
    (hrun : s.running = .script code calls) (h : stepScript c s code calls = some s')
    (call : EndedCall V E S) : call ∈ s'.calls ↔ call ∈ s.calls := by
  rw [mem_calls_iff, mem_calls_iff, hrun]
  unfold stepScript at h
  split at h
  · rw [← Option.some.inj h]
    exact Iff.rfl
  · rw [← Option.some.inj h]
    simp only [Running.calls_java, Running.calls_script, Caller.calls_script, List.mem_cons,
      List.not_mem_nil, exists_eq_or_imp, false_or, or_assoc]
  · split at h
    · rename_i hcallers
      rw [← Option.some.inj h, hcallers]
      simp only [Running.calls_java, Running.calls_script, List.mem_cons, List.mem_append,
        Caller.calls_java, List.not_mem_nil, false_or, or_and_right, exists_or, exists_eq_left, or_false]
      rw [← or_assoc, or_comm]
    · cases h

/-- A callback's Java code that ends adds its call. -/
theorem calls_endCall {j : J} {thrown : Option E} {v : V} (hrun : s.running = .java j)
    (h : endCall s thrown v = some s') :
    ∃ resume calls rest, s.callers = .script resume calls :: rest ∧
      ∀ call, call ∈ s'.calls ↔ call ∈ s.calls ∨ call = ⟨thrown, resume, .returned v⟩ := by
  unfold endCall at h
  split at h
  · rename_i resume calls rest hcallers
    rw [← Option.some.inj h]
    refine ⟨resume, calls, rest, hcallers, fun call => ?_⟩
    rw [mem_calls_iff, mem_calls_iff, hrun, hcallers]
    simp only [Running.calls_java, Running.calls_script, Caller.calls_script, List.mem_cons,
      List.mem_append, List.not_mem_nil, exists_eq_or_imp, or_false, false_or]
    rw [or_right_comm, ← or_assoc]
  · cases h

/-- **What a step does to the calls.** They stay, or the callback that runs has ended: then there is one
more, and it completed normally. -/
theorem calls_step (h : step c s () = some s') :
    (CallbackReturns c s () ∧ ∀ call, call ∈ s'.calls ↔ call ∈ s.calls) ∨
      ∃ thrown resume v, (thrown = none ↔ CallbackReturns c s ()) ∧
        ∀ call, call ∈ s'.calls ↔ call ∈ s.calls ∨ call = ⟨thrown, resume, .returned v⟩ := by
  unfold step at h
  split at h
  · rename_i code calls hrun
    refine Or.inl ⟨fun j e hjava => ?_, calls_stepScript hrun h⟩
    rw [hrun] at hjava
    cases hjava
  · rename_i j hrun
    have hreturns : (∀ e, c.java j ≠ .throws e) → CallbackReturns c s () := by
      intro hnot j' e hjava hthrows
      rw [hrun] at hjava
      cases hjava
      exact absurd hthrows (hnot e)
    unfold stepJava at h
    split at h
    · rename_i hjava
      rw [← Option.some.inj h]
      refine Or.inl ⟨hreturns (fun e he => by rw [hjava] at he; cases he), fun call => ?_⟩
      rw [mem_calls_iff, mem_calls_iff, hrun]
      exact Iff.rfl
    · rename_i hjava
      rw [← Option.some.inj h]
      refine Or.inl ⟨hreturns (fun e he => by rw [hjava] at he; cases he), fun call => ?_⟩
      rw [mem_calls_iff, mem_calls_iff, hrun]
      simp only [Running.calls_java, Running.calls_script, Caller.calls_java, List.mem_cons,
        List.not_mem_nil, exists_eq_or_imp, false_or]
    · rename_i v hjava
      obtain ⟨resume, _, _, _, hcalls⟩ := calls_endCall hrun h
      have hquiet := hreturns fun e he => by rw [hjava] at he; cases he
      exact Or.inr ⟨none, resume, v, iff_of_true rfl hquiet, hcalls⟩
    · rename_i e hjava
      obtain ⟨resume, calls, rest, hcallers, hcalls⟩ := calls_endCall hrun h
      refine Or.inr ⟨some e, resume, c.null, iff_of_false (fun h => by cases h) ?_, hcalls⟩
      intro hret
      exact hret j e hrun hjava resume calls rest hcallers

end

/-! ## The invariant

Whatever the Java code does, the call completes normally. So a call whose Java code threw is one that did not
complete abruptly. -/

def Inv (s : State V E S J) : Prop := ∀ call ∈ s.calls, ∃ v, call.completion = .returned v

/-- No Java code of a callback has thrown. -/
def Quiet (s : State V E S J) : Prop := ∀ call ∈ s.calls, call.thrown = none

section

variable {c : Client V E S J} {fails : Ending V E → E → Prop} {s s' : State V E S J}

theorem inv_step (hi : Inv s) (h : step c s () = some s') : Inv s' := by
  intro call hcall
  rcases calls_step h with ⟨_, hsame⟩ | ⟨_, _, v, _, hcalls⟩
  · exact hi call ((hsame call).mp hcall)
  · rcases (hcalls call).mp hcall with hold | rfl
    · exact hi call hold
    · exact ⟨v, rfl⟩

theorem stops_iff_quiet (hi : Inv s) : Stops c fails s ↔ Quiet s := by
  constructor
  · intro hstops call hcall
    obtain ⟨v, hv⟩ := hi call hcall
    cases hthrown : call.thrown with
    | none => rfl
    | some e =>
      obtain ⟨w, hw⟩ := hstops.stopped call hcall (by rw [hthrown]; rfl)
      rw [hv] at hw
      cases hw
  · intro hquiet
    refine ⟨fun call hcall hthrown => ?_, fun op hop call hcall e he => ?_⟩
    · rw [hquiet call hcall] at hthrown
      cases hthrown
    · rw [hquiet call (mem_calls_iff.mpr (Or.inr (Or.inr ⟨op, hop, hcall⟩)))] at he
      cases he

theorem quiet_step (hq : Quiet s) (h : step c s () = some s') : Quiet s' ↔ CallbackReturns c s () := by
  rcases calls_step h with ⟨hguard, hsame⟩ | ⟨thrown, resume, v, hthrown, hcalls⟩
  · exact ⟨fun _ => hguard, fun _ call hcall => hq call ((hsame call).mp hcall)⟩
  · rw [← hthrown]
    constructor
    · intro hq'
      exact hq' _ ((hcalls _).mpr (Or.inr rfl))
    · intro hnone call hcall
      rcases (hcalls call).mp hcall with hold | rfl
      · exact hq call hold
      · exact hnone

theorem stops_step (hi : Inv s) (hstops : Stops c fails s) (h : step c s () = some s') :
    Stops c fails s' ↔ CallbackReturns c s () := by
  have hquiet : Quiet s := (stops_iff_quiet hi).mp hstops
  exact (stops_iff_quiet (inv_step hi h)).trans (quiet_step hquiet h)

/-- **Exceptions of callbacks.** In a run every call whose Java code throws stops its program iff the Java
code of no callback throws. -/
theorem stops_iff_callbackReturns {main : J} {as : List Unit}
    (h : Machine.Run (step c) (init main) as s) :
    (∀ bs t, bs <+: as → Machine.Run (step c) (init main) bs t → Stops c fails t) ↔
      Machine.GuardedRun (step c) (CallbackReturns c) (init main) as s := by
  have hinit : Inv (init main : State V E S J) := fun call hcall => by cases hcall
  have hquiet : Quiet (init main : State V E S J) := fun call hcall => by cases hcall
  exact (Machine.guardedRun_iff_forall_prefix_under (I := Inv) (P := Stops c fails)
    (fun _ _ _ hi hst => inv_step hi hst) (fun _ _ _ hi hstops hst => stops_step hi hstops hst)
    hinit ((stops_iff_quiet hinit).mpr hquiet) h).symm

end

/-! ## Two callbacks -/

/-- The script `f(); g()`, where `f` throws the exception 5 if `throws` holds. -/
def sample (throws : Bool) : Client Nat Nat Nat Nat where
  js
    | 0 => .calls 1 fun _ => 1
    | 1 => .calls 2 fun _ => 2
    | _ => .completes (.returned 0)
  java
    | 0 => .evaluates 0 fun _ => 3
    | 1 => if throws then .throws 5 else .returns 7
    | _ => .returns 8
  null := 0

/-- The operation fails with this exception itself. -/
def sampleFails (ending : Ending Nat Nat) (e : Nat) : Prop := ending = .threw e

theorem stops_iff_callbackReturns_sample :
    ∃ s, Machine.Run (step (sample false)) (init 0) [(), (), (), (), (), ()] s ∧ s.ended.length = 1 ∧
      Stops (sample false) sampleFails s := by
  have hrun : ∃ s, Machine.GuardedRun (step (sample false)) (CallbackReturns (sample false)) (init 0)
      [(), (), (), (), (), ()] s ∧ s.ended.length = 1 := by
    have hguard : ∀ s, CallbackReturns (sample false) s () := by
      intro s j e _ hthrows
      match j with
      | 0 => cases hthrows
      | 1 => cases hthrows
      | n + 2 => cases hthrows
    exact ⟨_, .cons (hguard _) rfl (.cons (hguard _) rfl (.cons (hguard _) rfl (.cons (hguard _) rfl
      (.cons (hguard _) rfl (.cons (hguard _) rfl (.nil _)))))), rfl⟩
  obtain ⟨s, hrun, hended⟩ := hrun
  exact ⟨s, hrun.run, hended,
    (stops_iff_callbackReturns hrun.run).mpr hrun _ s List.prefix_rfl hrun.run⟩

/-- `f` throws: its call completes with null, and then `g` is called. -/
theorem not_stops_second_callback :
    ∃ s, Machine.Run (step (sample true)) (init 0) [(), (), (), ()] s ∧ s.running = .java 2 ∧
      ¬ Stops (sample true) sampleFails s := by
  have hrun : ∃ s, Machine.Run (step (sample true)) (init 0) [(), (), (), ()] s ∧ s.running = .java 2 ∧
      ∃ resume, ⟨some 5, resume, .returned 0⟩ ∈ s.calls :=
    ⟨_, .cons trivial rfl (.cons trivial rfl (.cons trivial rfl (.cons trivial rfl (.nil _)))), rfl, _,
      List.mem_cons_self⟩
  obtain ⟨s, hrun, hrunning, resume, hcall⟩ := hrun
  refine ⟨s, hrun, hrunning, fun hstops => ?_⟩
  obtain ⟨v, hv⟩ := hstops.stopped _ hcall rfl
  cases hv

end QuickJSBridge.CallbackErrors
