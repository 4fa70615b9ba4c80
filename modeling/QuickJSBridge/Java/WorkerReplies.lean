import Mathlib.Data.List.Basic
import Mathlib.Logic.Function.Basic
import QuickJSBridge.Lib.Machine

/-!
# Messages from a worker

A worker that calls `postMessage` posts an event to its parent's queue. When the parent's owner thread serves it,
the event reads `onmessage` of the worker's object and calls it, with no look at `terminate`; in a closed context
`checkReleased` throws an `Error`, which the queue does not catch.

* `step` — workers that send, and the parent's owner thread, where scripts terminate workers and contexts close;
* `Quiet` — no handler is called after `terminate()` or after the close of its context, and no `Error` leaves an
  event;
* `BeforeEnd` — an event is processed in an open context, and finds a function only before `terminate()`;
* `quiet_iff_beforeEnd` — a run keeps the first iff its steps have the second.
-/

namespace QuickJSBridge.WorkerReplies

/-! ## The machine -/

/-- A `Worker`, and the context of its object in the parent. -/
structure Worker where
  id : Nat
  context : Nat
  deriving DecidableEq

/-- An event in the parent's queue. -/
inductive Event where
  -- the runnable of `sendMessageReceiver`
  | message (w : Worker)
  -- the runnable of `JSContext.close`
  | close (c : Nat)
  -- an event that runs JS code
  | other
  deriving DecidableEq

/-- What the parent's owner thread is in the middle of. -/
inductive Frame where
  -- JS code
  | script
  -- Java code that JS code called
  | callback
  -- the runnable of a message: before `getObject("onmessage")`, in its native `_get`, and after the call
  | looking (w : Worker)
  | reading (w : Worker)
  | event
  -- the runnable of `JSContext.close` before `released = true`: plugins are called
  | closing (c : Nat)
  deriving DecidableEq

namespace Frame

/-- JS code runs, or a getter may. -/
def inJS : Frame → Bool
  | .script | .reading _ => true
  | _ => false

/-- Java code that may call anything runs. -/
def inJava : Frame → Bool
  | .callback | .closing _ => true
  | _ => false

end Frame

/-- What happened on the owner thread. -/
inductive Entry where
  -- the handler of the worker's object was called
  | invoked (w : Worker)
  -- an `Error` left the event of a message
  | escaped (w : Worker)
  | terminated (w : Worker)
  -- `released = true`
  | closed (c : Nat)
  deriving DecidableEq

structure State where
  queue : List Event
  -- innermost first
  stack : List Frame
  terminated : Worker → Bool
  -- the contexts whose `released` is set
  closed : Nat → Bool
  -- the workers whose runtime has been closed
  stopped : Worker → Bool
  log : List Entry

def init : State where
  queue := []
  stack := []
  terminated := fun _ => false
  closed := fun _ => false
  stopped := fun _ => false
  log := []

inductive Act where
  -- the worker's script calls `postMessage`
  | send (w : Worker)
  -- the close that `terminate` posted to the worker's queue has run
  | stop (w : Worker)
  -- another thread posts an event
  | post (c : Nat)
  | postOther
  -- the owner thread takes the first event
  | serve
  -- the runnable of a message; the property is a function or not
  | look
  | read (isFunction : Bool)
  -- Java code on the owner thread makes a native call that runs JS code; JS code calls Java
  | script
  | callback
  -- JS code calls `worker.terminate()`, or a plugin closes the worker
  | terminate (w : Worker)
  -- Java code on the owner thread calls `JSContext.close`
  | closeOnOwner (c : Nat)
  -- the runnable of `JSContext.close` sets `released`
  | close
  -- the innermost frame returns or is left by an exception
  | finish
  deriving DecidableEq

namespace State

def push (s : State) (f : Frame) : State := { s with stack := f :: s.stack }

/-- The runnable of `JSContext.close`, which returns at once in a closed context. -/
def runClose (s : State) (c : Nat) : State := if s.closed c then s else s.push (.closing c)

end State

def step (s : State) : Act → Option State
  | .send w => if s.stopped w then none else some { s with queue := s.queue ++ [.message w] }
  | .stop w => if s.terminated w then some { s with stopped := Function.update s.stopped w true } else none
  | .post c => some { s with queue := s.queue ++ [.close c] }
  | .postOther => some { s with queue := s.queue ++ [.other] }
  | .serve =>
    match s.stack, s.queue with
    | [], e :: rest =>
      let s := { s with queue := rest }
      match e with
      | .message w => some (s.push (.looking w))
      | .close c => some (s.runClose c)
      | .other => some (s.push .script)
    | _, _ => none
  | .look =>
    match s.stack with
    -- `checkReleased` throws an `Error`
    | .looking w :: rest =>
      some (if s.closed w.context then { s with stack := rest, log := s.log ++ [.escaped w] }
        else { s with stack := .reading w :: rest })
    | _ => none
  | .read isFunction =>
    match s.stack with
    | .reading w :: rest =>
      some (if isFunction then
          -- `new JSArray`, `push` and `call`, with `checkReleased` once more
          if s.closed w.context then { s with stack := rest, log := s.log ++ [.escaped w] }
          else { s with stack := .script :: .event :: rest, log := s.log ++ [.invoked w] }
        else { s with stack := rest })
    | _ => none
  | .script => if s.stack.head?.any Frame.inJava then some (s.push .script) else none
  | .callback => if s.stack.head?.any Frame.inJS then some (s.push .callback) else none
  | .terminate w =>
    if s.stack.head?.any Frame.inJava then
      some (if s.terminated w then s
        else { s with terminated := Function.update s.terminated w true, log := s.log ++ [.terminated w] })
    else none
  | .closeOnOwner c => if s.stack.head?.any Frame.inJava then some (s.runClose c) else none
  | .close =>
    match s.stack with
    | .closing c :: rest =>
      some { s with stack := rest, closed := Function.update s.closed c true, log := s.log ++ [.closed c] }
    | _ => none
  | .finish =>
    match s.stack with
    | _ :: rest => some { s with stack := rest }
    | [] => none

/-! ## The property and the guard -/

/-- After the entry the handler must not be called. -/
def Entry.ends (w : Worker) : Entry → Prop
  | .terminated u => u = w
  | .closed c => c = w.context
  | .invoked _ | .escaped _ => False

/-- No handler is called after the end, and no `Error` leaves an event. -/
structure Quiet (log : List Entry) : Prop where
  late : log.Pairwise fun e e' => ∀ w, e' = .invoked w → ¬ e.ends w
  caught : ∀ w, .escaped w ∉ log

/-- `terminate()` has run, or the context is closed. -/
def State.ended (s : State) (w : Worker) : Bool := s.terminated w || s.closed w.context

/-- The worker whose message the owner thread is about to look at, or whose property is being read. -/
def State.looking? (s : State) : Option Worker :=
  match s.stack with
  | .looking w :: _ => some w
  | _ => none

def State.reading? (s : State) : Option Worker :=
  match s.stack with
  | .reading w :: _ => some w
  | _ => none

/-- A message is looked at in an open context, and a function is found only before the end. -/
def BeforeEnd (s : State) : Act → Prop
  | .look => ∀ w ∈ s.looking?, s.closed w.context = false
  | .read isFunction => isFunction = true → ∀ w ∈ s.reading?, s.ended w = false
  | _ => True

instance (s : State) : (a : Act) → Decidable (BeforeEnd s a)
  | .look => inferInstanceAs (Decidable (∀ w ∈ s.looking?, _))
  | .read _ => inferInstanceAs (Decidable (_ → ∀ w ∈ s.reading?, _))
  | .send _ | .stop _ | .post _ | .postOther | .serve | .script | .callback | .terminate _ | .closeOnOwner _ | .close
  | .finish => inferInstanceAs (Decidable True)

/-! ## The invariant -/

structure Inv (s : State) : Prop where
  -- the flags and the log agree
  ended : ∀ w, s.ended w = true ↔ ∃ e ∈ s.log, e.ends w
  quiet : Quiet s.log

theorem quiet_invoked {log : List Entry} {w : Worker} :
    Quiet (log ++ [.invoked w]) ↔ Quiet log ∧ ∀ e ∈ log, ¬ e.ends w := by
  constructor
  · rintro ⟨hlate, hcaught⟩
    obtain ⟨hlog, hlast⟩ := Machine.pairwise_concat.mp hlate
    exact ⟨⟨hlog, fun u hu => hcaught u (List.mem_append_left _ hu)⟩, fun e he => hlast e he w rfl⟩
  · rintro ⟨⟨hlog, hcaught⟩, hlast⟩
    constructor
    · refine Machine.pairwise_concat.mpr ⟨hlog, fun e he u hu => ?_⟩
      rw [← Entry.invoked.inj hu]
      exact hlast e he
    · intro u hu
      rcases List.mem_append.mp hu with hu | hu
      · exact hcaught u hu
      · cases List.mem_singleton.mp hu

theorem not_quiet_escaped {log : List Entry} {w : Worker} : ¬ Quiet (log ++ [.escaped w]) :=
  fun h => h.caught w (List.mem_append_right _ List.mem_cons_self)

/-- An entry that is neither a call nor an `Error`. -/
theorem Quiet.concat {log : List Entry} {e : Entry} (h : Quiet log) (hinvoked : ∀ w, e ≠ .invoked w)
    (hescaped : ∀ w, e ≠ .escaped w) : Quiet (log ++ [e]) where
  late := Machine.pairwise_concat.mpr ⟨h.late, fun _ _ u hu => absurd hu (hinvoked u)⟩
  caught u hu := by
    rcases List.mem_append.mp hu with hu | hu
    · exact h.caught u hu
    · exact hescaped u (List.mem_singleton.mp hu).symm

theorem exists_ends_concat {log : List Entry} {e : Entry} {w : Worker} :
    (∃ e' ∈ log ++ [e], e'.ends w) ↔ (∃ e' ∈ log, e'.ends w) ∨ e.ends w := by
  simp [or_and_right, exists_or]

/-! ## The step lemmas -/

/-- A step that logs nothing and sets no flag. -/
theorem Inv.of_quiet {s s' : State} (hi : Inv s) (hlog : s'.log = s.log)
    (hflags : s'.terminated = s.terminated ∧ s'.closed = s.closed) : Inv s' where
  ended w := by
    unfold State.ended
    rw [hflags.1, hflags.2, hlog]
    exact hi.ended w
  quiet := by
    rw [hlog]
    exact hi.quiet

theorem Inv.runClose {s : State} (hi : Inv s) (c : Nat) : Inv (s.runClose c) := by
  unfold State.runClose
  split
  · exact hi
  · exact hi.of_quiet rfl ⟨rfl, rfl⟩

theorem inv_serve {s s' : State} (hi : Inv s) (h : step s .serve = some s') : Inv s' := by
  simp only [step] at h
  split at h
  · rename_i e rest _ _
    have hdrop : Inv { s with queue := rest } := hi.of_quiet rfl ⟨rfl, rfl⟩
    cases e with
    | message w => exact Option.some.inj h ▸ hdrop.of_quiet rfl ⟨rfl, rfl⟩
    | close c => exact Option.some.inj h ▸ hdrop.runClose c
    | other => exact Option.some.inj h ▸ hdrop.of_quiet rfl ⟨rfl, rfl⟩
  · cases h

/-- In a closed context the `Error` leaves the event. -/
theorem inv_look {s s' : State} (hi : Inv s) (h : step s .look = some s') :
    (Quiet s'.log → BeforeEnd s .look) ∧ (BeforeEnd s .look → Inv s') := by
  simp only [step] at h
  split at h
  · rename_i w rest hstack
    have hlooking : s.looking? = some w := by
      unfold State.looking?
      rw [hstack]
    have hguard : BeforeEnd s .look ↔ s.closed w.context = false := by
      show (∀ u ∈ s.looking?, s.closed u.context = false) ↔ _
      rw [hlooking]
      exact ⟨fun hg => hg w rfl, fun hc u hu => by cases hu; exact hc⟩
    rw [hguard, ← Option.some.inj h]
    cases hclosed : s.closed w.context with
    | true => exact ⟨fun hq => absurd hq not_quiet_escaped, fun hg => nomatch hg⟩
    | false => exact ⟨fun _ => rfl, fun _ => hi.of_quiet rfl ⟨rfl, rfl⟩⟩
  · cases h

/-- A function that is found is called, whether or not `terminate()` has run. -/
theorem inv_read {s s' : State} {isFunction : Bool} (hi : Inv s) (h : step s (.read isFunction) = some s') :
    (Quiet s'.log → BeforeEnd s (.read isFunction)) ∧ (BeforeEnd s (.read isFunction) → Inv s') := by
  simp only [step] at h
  split at h
  · rename_i w rest hstack
    have hreading : s.reading? = some w := by
      unfold State.reading?
      rw [hstack]
    have hguard : BeforeEnd s (.read isFunction) ↔ (isFunction = true → s.ended w = false) := by
      show (isFunction = true → ∀ u ∈ s.reading?, s.ended u = false) ↔ _
      rw [hreading]
      exact ⟨fun hg hf => hg hf w rfl, fun hg hf u hu => by cases hu; exact hg hf⟩
    rw [hguard, ← Option.some.inj h]
    cases isFunction with
    | false => exact ⟨fun _ hf => (nomatch hf), fun _ => hi.of_quiet rfl ⟨rfl, rfl⟩⟩
    | true =>
      rw [if_pos rfl]
      by_cases hclosed : s.closed w.context = true
      · rw [if_pos hclosed]
        refine ⟨fun hq => absurd hq not_quiet_escaped, fun hg => ?_⟩
        have hended := hg rfl
        rw [State.ended, hclosed, Bool.or_true] at hended
        cases hended
      · rw [if_neg hclosed]
        have hcall : Quiet (s.log ++ [.invoked w]) ↔ s.ended w = false := by
          rw [quiet_invoked, ← Bool.not_eq_true, hi.ended w, not_exists]
          exact ⟨fun hq e he => hq.2 e he.1 he.2, fun hn => ⟨hi.quiet, fun e he hends => hn e ⟨he, hends⟩⟩⟩
        constructor
        · exact fun hq _ => hcall.mp hq
        · intro hg
          refine ⟨fun u => ?_, hcall.mpr (hg rfl)⟩
          show s.ended u = true ↔ ∃ e ∈ s.log ++ [.invoked w], e.ends u
          rw [exists_ends_concat, hi.ended u]
          exact ⟨Or.inl, fun h => h.resolve_right id⟩
  · cases h

theorem inv_terminate {s s' : State} {w : Worker} (hi : Inv s) (h : step s (.terminate w) = some s') : Inv s' := by
  simp only [step] at h
  split at h
  · rw [← Option.some.inj h]
    split
    · exact hi
    · refine ⟨fun u => ?_, hi.quiet.concat (fun _ => Entry.noConfusion) fun _ => Entry.noConfusion⟩
      have hended := hi.ended u
      show (Function.update s.terminated w true u || s.closed u.context) = true ↔
        ∃ e ∈ s.log ++ [.terminated w], e.ends u
      rw [exists_ends_concat]
      by_cases huw : u = w
      · rw [huw, Function.update_self]
        exact ⟨fun _ => Or.inr rfl, fun _ => rfl⟩
      · rw [Function.update_of_ne huw]
        exact ⟨fun hu => Or.inl (hended.mp hu), fun hu => hended.mpr (hu.resolve_right fun hwu => huw hwu.symm)⟩
  · cases h

theorem inv_close {s s' : State} (hi : Inv s) (h : step s .close = some s') : Inv s' := by
  simp only [step] at h
  split at h
  · rename_i c rest _
    rw [← Option.some.inj h]
    refine ⟨fun u => ?_, hi.quiet.concat (fun _ => Entry.noConfusion) fun _ => Entry.noConfusion⟩
    have hended := hi.ended u
    show (s.terminated u || Function.update s.closed c true u.context) = true ↔
      ∃ e ∈ s.log ++ [.closed c], e.ends u
    rw [exists_ends_concat]
    by_cases huc : u.context = c
    · rw [huc, Function.update_self, Bool.or_true]
      exact ⟨fun _ => Or.inr huc.symm, fun _ => rfl⟩
    · rw [Function.update_of_ne huc]
      exact ⟨fun hu => Or.inl (hended.mp hu), fun hu => hended.mpr (hu.resolve_right fun hcu => huc hcu.symm)⟩
  · cases h

/-- The steps that start or leave something, or post. -/
theorem inv_ite {s' t : State} {c : Prop} [Decidable c] (h : (if c then some t else none) = some s')
    (hi : Inv t) : Inv s' := by
  split at h
  · exact Option.some.inj h ▸ hi
  · cases h

theorem inv_step {s s' : State} {a : Act} (hi : Inv s) (h : step s a = some s') :
    (Quiet s'.log → BeforeEnd s a) ∧ (BeforeEnd s a → Inv s') := by
  cases a with
  | look => exact inv_look hi h
  | read isFunction => exact inv_read hi h
  | send w =>
    refine ⟨fun _ => trivial, fun _ => ?_⟩
    simp only [step] at h
    split at h
    · cases h
    · exact Option.some.inj h ▸ hi.of_quiet rfl ⟨rfl, rfl⟩
  | stop w =>
    exact ⟨fun _ => trivial, fun _ => inv_ite h (hi.of_quiet rfl ⟨rfl, rfl⟩)⟩
  | post c => exact ⟨fun _ => trivial, fun _ => Option.some.inj h ▸ hi.of_quiet rfl ⟨rfl, rfl⟩⟩
  | postOther => exact ⟨fun _ => trivial, fun _ => Option.some.inj h ▸ hi.of_quiet rfl ⟨rfl, rfl⟩⟩
  | serve => exact ⟨fun _ => trivial, fun _ => inv_serve hi h⟩
  | script => exact ⟨fun _ => trivial, fun _ => inv_ite h (hi.of_quiet rfl ⟨rfl, rfl⟩)⟩
  | callback => exact ⟨fun _ => trivial, fun _ => inv_ite h (hi.of_quiet rfl ⟨rfl, rfl⟩)⟩
  | terminate w => exact ⟨fun _ => trivial, fun _ => inv_terminate hi h⟩
  | closeOnOwner c => exact ⟨fun _ => trivial, fun _ => inv_ite h (hi.runClose c)⟩
  | close => exact ⟨fun _ => trivial, fun _ => inv_close hi h⟩
  | finish =>
    refine ⟨fun _ => trivial, fun _ => ?_⟩
    simp only [step] at h
    split at h
    · exact Option.some.inj h ▸ hi.of_quiet rfl ⟨rfl, rfl⟩
    · cases h

theorem inv_init : Inv init where
  ended w := by
    constructor
    · intro h
      cases h
    · rintro ⟨e, he, _⟩
      exact absurd he List.not_mem_nil
  quiet := ⟨List.Pairwise.nil, fun _ => List.not_mem_nil⟩

/-! ## Runs -/

/-- **Replies.** In every state of a run the workers that have ended are quiet iff each message was looked at in an
open context, and found a function only before the end. -/
theorem quiet_iff_beforeEnd {as : List Act} {s : State} (h : Machine.Run step init as s) :
    Machine.GuardedRun step BeforeEnd init as s ↔
      ∀ bs t, bs <+: as → Machine.Run step init bs t → Quiet t.log :=
  Machine.guardedRun_iff_forall_prefix_of (I := Inv) (P := fun t => Quiet t.log)
    (fun _ _ _ hi hg hst => (inv_step hi hst).2 hg) (fun _ hi => hi.quiet)
    (fun _ _ _ hi hst hq => (inv_step hi hst).1 hq) inv_init h

/-- A worker of context 0. -/
def worker : Worker := { id := 0, context := 0 }

/-- The handler of the worker terminates it; the next message finds no function. -/
def terminateInHandler : List Act :=
  [.send worker, .send worker, .serve, .look, .read true, .callback, .terminate worker, .finish, .finish, .finish,
    .stop worker, .serve, .look, .read false]

theorem quiet_iff_beforeEnd_terminate :
    ∃ s, Machine.Run step init terminateInHandler s ∧ s.log = [.invoked worker, .terminated worker] ∧
      ∀ bs t, bs <+: terminateInHandler → Machine.Run step init bs t → Quiet t.log := by
  obtain ⟨s, hrun, hlog⟩ := Machine.exists_guardedRun_of_execGuarded step BeforeEnd init terminateInHandler
    (fun s => decide (s.log = [.invoked worker, .terminated worker])) (by decide)
  exact ⟨s, hrun.run, of_decide_eq_true hlog, (quiet_iff_beforeEnd hrun.run).mp hrun⟩

/-- The parent context is closed with a message in the queue: the `Error` leaves the event. -/
theorem not_quiet_closed : ¬ ∀ as s, Machine.Run step init as s → Quiet s.log := by
  intro hall
  obtain ⟨s, hrun, hlog⟩ := Machine.exists_run_of_exec step init
    [.post 0, .send worker, .serve, .close, .serve, .look]
    (fun s => decide (.escaped worker ∈ s.log)) (by decide)
  exact (hall _ s hrun).caught worker (of_decide_eq_true hlog)

end QuickJSBridge.WorkerReplies
