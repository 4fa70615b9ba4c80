import Mathlib.Data.List.Basic
import Mathlib.Logic.Function.Basic
import QuickJSBridge.Lib.Machine

/-!
# Timers

`setTimeout` starts a thread that sleeps and then posts an event to the runtime's queue; the event tests
`isReleased()` and calls the function. Until then a timer is in one place: its thread, the queue, or the event
on the owner thread.

* `step` — the timer threads, the queue, and the owner thread with what can close a context on it;
* `NeverLate` — no function is invoked after the context of its `setTimeout` was closed, or the runtime released;
* `AtMostOnce` — no function is invoked twice for one `setTimeout`;
* `fires_atMostOnce_neverLate` — both hold in every state of every run.
-/

namespace QuickJSBridge.Timers

/-! ## The machine -/

/-- A call of `setTimeout`. -/
structure Timer where
  id : Nat
  -- the context of the `setTimeout` that was called
  context : Nat
  deriving DecidableEq

inductive Runnable where
  | other
  -- of `JSContext.close`
  | closeContext (c : Nat)
  -- of `QuickJS.close`
  | closeRuntime
  deriving DecidableEq

/-- An event in the handler's queue. -/
inductive Event where
  | timer (t : Timer)
  | runnable (r : Runnable)
  -- the lambda of `post` around a native call, which may run JS code
  | native
  deriving DecidableEq

/-- What the owner thread is in the middle of. -/
inductive Frame where
  -- JS code
  | script
  -- Java code that JS code called
  | callback
  -- a runnable
  | event
  -- the runnable of `setTimeout`: before its test, before the test of `func.call`, before `_executeFunction2`
  | testing (t : Timer)
  | calling (t : Timer)
  | executing (t : Timer)
  -- the runnable of `JSContext.close` before `released = true`: plugins are called
  | closing (c : Nat)
  -- the runnable of `QuickJS.close` before `_releaseRuntime`: the contexts are closed
  | closingRuntime
  -- before `released = true` and before `interrupt()`
  | releasing
  | interrupting
  deriving DecidableEq

namespace Frame

/-- Java code that may call anything runs in the frame. -/
def inJava : Frame → Bool
  | .callback | .event | .closing _ | .closingRuntime => true
  | _ => false

/-- Something can run on top of the frame. -/
def mayCall : Frame → Bool
  | .script => true
  | f => f.inJava

/-- The runnable of the timer, before the function is invoked. -/
def carries (t : Timer) : Frame → Bool
  | .testing u | .calling u | .executing u => u = t
  | _ => false

/-- The frame can be left by a return or by an exception. -/
def mayFinish : Frame → Bool
  | .releasing | .interrupting => false
  | _ => true

end Frame

/-- What happened on the owner thread. -/
inductive Entry where
  | invoked (t : Timer)
  -- `released = true` of a context
  | closed (c : Nat)
  -- `_releaseRuntime`
  | released
  deriving DecidableEq

structure State where
  released : Bool
  interrupted : Bool
  queue : List Event
  -- innermost first
  stack : List Frame
  -- the contexts whose `released` is set
  closed : Nat → Bool
  -- the calls of `setTimeout` so far
  count : Nat
  -- the timer threads in `Thread.sleep`, and those past the test of `postVoid`
  sleeping : List Timer
  admitted : List Timer
  log : List Entry

def init : State where
  released := false
  interrupted := false
  queue := []
  stack := []
  closed := fun _ => false
  count := 0
  sleeping := []
  admitted := []
  log := []

inductive Act where
  -- another thread, past its test, passes an event to `handler.post`
  | post (r : Runnable)
  | postNative
  -- a timer thread wakes up, by time or by an interrupt, and is at the test of `postVoid`
  | wake (t : Timer)
  | enqueue (t : Timer)
  -- the owner thread takes the first event
  | serve
  -- the runnable of `setTimeout`
  | test
  | check
  | invoke
  -- Java code on the owner thread makes a native call that runs JS code
  | script
  -- JS code calls Java
  | callback
  -- JS code calls `setTimeout` of context `c`
  | setTimeout (c : Nat)
  -- Java code on the owner thread calls `postEventQueue`, `JSContext.close` or `QuickJS.close`
  | postOnOwner (r : Runnable)
  -- the closes go on
  | close
  | releaseRuntime
  | setReleased
  | interrupt
  -- the innermost frame returns or is left by an exception
  | finish
  deriving DecidableEq

namespace State

/-- The test at the head of `post` and `postVoid`. -/
def isReleased (s : State) : Bool := s.released || s.interrupted

/-- `JSContext.isReleased` -/
def contextReleased (s : State) (c : Nat) : Bool := s.released || s.closed c

def push (s : State) (f : Frame) : State := { s with stack := f :: s.stack }

/-- `event.run()`; a close that finds its flag set returns at once. -/
def run (s : State) : Runnable → State
  | .other => s.push .event
  | .closeContext c => s.push (if s.closed c then .event else .closing c)
  | .closeRuntime => s.push (if s.released then .event else .closingRuntime)

end State

def step (s : State) : Act → Option State
  | .post r => some { s with queue := s.queue ++ [.runnable r] }
  | .postNative => some { s with queue := s.queue ++ [.native] }
  | .wake t =>
    if t ∈ s.sleeping then
      some { s with
        sleeping := s.sleeping.erase t
        admitted := if s.isReleased then s.admitted else t :: s.admitted }
    else none
  | .enqueue t =>
    if t ∈ s.admitted then
      some { s with admitted := s.admitted.erase t, queue := s.queue ++ [.timer t] }
    else none
  | .serve =>
    match s.stack, s.queue with
    | [], e :: rest =>
      let s := { s with queue := rest }
      match e with
      | .timer t => some (if s.released then s else s.push (.testing t))
      | .runnable r => some (if s.released then s else s.run r)
      | .native => some (s.push .script)
    | _, _ => none
  | .test =>
    match s.stack with
    | .testing t :: rest =>
      some { s with stack := if s.contextReleased t.context then rest else .calling t :: rest }
    | _ => none
  | .check =>
    match s.stack with
    -- `checkReleased`, whose Error would leave the event
    | .calling t :: rest =>
      some { s with stack := if s.contextReleased t.context then rest else .executing t :: rest }
    | _ => none
  | .invoke =>
    match s.stack with
    | .executing t :: rest =>
      some (if s.isReleased then { s with stack := rest }
        else { s with stack := .script :: .event :: rest, log := s.log ++ [.invoked t] })
    | _ => none
  | .script =>
    if s.stack.head?.any Frame.inJava then some (if s.isReleased then s else s.push .script) else none
  | .callback => if s.stack.head? = some .script then some (s.push .callback) else none
  | .setTimeout c =>
    if s.stack.head? = some .script then
      some (if s.contextReleased c then s
        else { s with count := s.count + 1, sleeping := ⟨s.count, c⟩ :: s.sleeping })
    else none
  | .postOnOwner r =>
    if s.stack.head?.any Frame.inJava then some (if s.isReleased then s else s.run r) else none
  | .close =>
    match s.stack with
    | .closing c :: rest =>
      some { s with stack := rest, closed := Function.update s.closed c true, log := s.log ++ [.closed c] }
    | _ => none
  | .releaseRuntime =>
    match s.stack with
    | .closingRuntime :: rest =>
      some { s with
        stack := .releasing :: rest
        log := if s.isReleased then s.log else s.log ++ [.released] }
    | _ => none
  | .setReleased =>
    match s.stack with
    | .releasing :: rest => some { s with stack := .interrupting :: rest, released := true }
    | _ => none
  | .interrupt =>
    match s.stack with
    | .interrupting :: rest => some { s with stack := rest, interrupted := true }
    | _ => none
  | .finish =>
    match s.stack with
    | f :: rest => if f.mayFinish then some { s with stack := rest } else none
    | [] => none

/-! ## The property -/

/-- After the entry the timer must not fire. -/
def Entry.ends (t : Timer) : Entry → Prop
  | .invoked _ => False
  | .closed c => c = t.context
  | .released => True

/-- Nothing is invoked after what ends it. -/
def NeverLate (log : List Entry) : Prop := log.Pairwise fun e e' => ∀ t, e' = .invoked t → ¬ e.ends t

def AtMostOnce (log : List Entry) : Prop := ∀ t, log.count (.invoked t) ≤ 1

/-! ## The invariant -/

/-- How often the timer is in its thread, in the queue, on the stack and in the log. -/
def State.weight (s : State) (t : Timer) : Nat :=
  s.sleeping.count t + s.admitted.count t + s.queue.count (.timer t) + s.stack.countP (Frame.carries t) +
    s.log.count (.invoked t)

structure Inv (s : State) : Prop where
  once : ∀ t, s.weight t ≤ 1
  -- the next `setTimeout` is a new timer
  fresh : ∀ t, s.count ≤ t.id → s.weight t = 0
  -- what is below the innermost frame is waiting for it
  below : ∀ f ∈ s.stack.tail, f.mayCall = true
  ready : ∀ t, s.stack.head? = some (.executing t) → s.contextReleased t.context = false
  closed : ∀ c, .closed c ∈ s.log → s.closed c = true
  released : .released ∈ s.log → s.released = true ∨ s.stack.head? = some .releasing
  late : NeverLate s.log

/-! ## The step lemmas -/

theorem neverLate_concat {log : List Entry} {e : Entry} :
    NeverLate (log ++ [e]) ↔ NeverLate log ∧ ∀ e' ∈ log, ∀ t, e = .invoked t → ¬ e'.ends t :=
  Machine.pairwise_concat

/-- A step that logs nothing, closes nothing and leaves each timer where it is or drops it. -/
theorem Inv.of_quiet {s s' : State} (hi : Inv s) (hweight : ∀ t, s'.weight t ≤ s.weight t)
    (hcount : s'.count = s.count) (hlog : s'.log = s.log) (hclosed : s'.closed = s.closed)
    (hreleased : s.released = true → s'.released = true)
    (hwindow : s.stack.head? = some .releasing → s'.released = true ∨ s'.stack.head? = some .releasing)
    (hbelow : ∀ f ∈ s'.stack.tail, f.mayCall = true)
    (hready : ∀ t, s'.stack.head? = some (.executing t) → s'.contextReleased t.context = false) : Inv s' where
  once t := Nat.le_trans (hweight t) (hi.once t)
  fresh t ht := by
    rw [hcount] at ht
    have hzero := hi.fresh t ht
    have hle := hweight t
    omega
  below := hbelow
  ready := hready
  closed := by
    rw [hlog, hclosed]
    exact hi.closed
  released := by
    rw [hlog]
    intro hmem
    rcases hi.released hmem with hrel | hhead
    · exact Or.inl (hreleased hrel)
    · exact hwindow hhead
  late := by
    rw [hlog]
    exact hi.late

/-- A step off the owner thread. -/
theorem Inv.of_client {s s' : State} (hi : Inv s) (hweight : ∀ t, s'.weight t ≤ s.weight t)
    (hcount : s'.count = s.count) (hlog : s'.log = s.log) (hclosed : s'.closed = s.closed)
    (hreleased : s'.released = s.released) (hstack : s'.stack = s.stack) : Inv s' := by
  apply hi.of_quiet hweight hcount hlog hclosed
  · rw [hreleased]
    exact id
  · rw [hreleased, hstack]
    exact Or.inr
  · rw [hstack]
    exact hi.below
  · unfold State.contextReleased
    rw [hstack, hreleased, hclosed]
    exact hi.ready

theorem mayCall_of_tail {s : State} {f : Frame} {rest : List Frame} (hi : Inv s) (hstack : s.stack = f :: rest) :
    ∀ g ∈ rest, g.mayCall = true := by
  have hbelow := hi.below
  rw [hstack] at hbelow
  exact hbelow

/-- The innermost frame is replaced or left. A frame that nothing can run on top of comes only with its test. -/
theorem Inv.replace {s s' : State} {f : Frame} {rest : List Frame} (top : List Frame) (hi : Inv s)
    (hstack : s.stack = f :: rest) (hs' : s'.stack = top ++ rest)
    (hcarries : ∀ t, top.countP (Frame.carries t) ≤ [f].countP (Frame.carries t))
    (hsame : s'.sleeping = s.sleeping ∧ s'.admitted = s.admitted ∧ s'.queue = s.queue ∧ s'.count = s.count ∧
      s'.log = s.log ∧ s'.closed = s.closed)
    (hreleased : s.released = true → s'.released = true) (hwindow : f = .releasing → s'.released = true)
    (htop : ∀ g ∈ top.tail, g.mayCall = true)
    (hready : ∀ t, top.head? = some (.executing t) → s'.contextReleased t.context = false) : Inv s' := by
  obtain ⟨hsleeping, hadmitted, hqueue, hcount, hlog, hclosed⟩ := hsame
  have hrest := mayCall_of_tail hi hstack
  apply hi.of_quiet _ hcount hlog hclosed hreleased
  · rw [hstack]
    intro hhead
    exact Or.inl (hwindow (Option.some.inj hhead))
  · rw [hs']
    cases top with
    | nil => exact fun g hg => hrest g (List.mem_of_mem_tail hg)
    | cons g top =>
      intro h hh
      rcases List.mem_append.mp hh with hh | hh
      · exact htop h hh
      · exact hrest h hh
  · rw [hs']
    cases top with
    | nil =>
      -- a timer's frame is not below another
      intro t hhead
      have hmem := List.mem_of_mem_head? (Option.mem_def.mpr hhead)
      exact nomatch hrest _ hmem
    | cons g top => exact hready
  · intro t
    unfold State.weight
    rw [hsleeping, hadmitted, hqueue, hlog, hs', hstack, List.countP_append, ← List.singleton_append,
      List.countP_append]
    have hle := hcarries t
    omega

theorem Inv.leave {s : State} {f : Frame} {rest : List Frame} (hi : Inv s) (hstack : s.stack = f :: rest)
    (hf : f ≠ .releasing) : Inv { s with stack := rest } :=
  hi.replace [] hstack rfl (fun _ => Nat.zero_le _) ⟨rfl, rfl, rfl, rfl, rfl, rfl⟩ id (fun h => absurd h hf)
    (fun _ hg => absurd hg List.not_mem_nil) fun _ hhead => nomatch hhead

/-- The next frame carries the timer that the last one carried. -/
theorem Inv.goto {s : State} {f g : Frame} {rest : List Frame} (hi : Inv s) (hstack : s.stack = f :: rest)
    (hf : f ≠ .releasing) (hcarries : ∀ t, g.carries t = f.carries t)
    (hready : ∀ t, g = .executing t → s.contextReleased t.context = false) : Inv { s with stack := g :: rest } := by
  refine hi.replace [g] hstack rfl (fun t => Nat.le_of_eq ?_) ⟨rfl, rfl, rfl, rfl, rfl, rfl⟩ id
    (fun h => absurd h hf) (fun _ hg => absurd hg List.not_mem_nil) fun t hhead => hready t (Option.some.inj hhead)
  rw [List.countP_singleton, List.countP_singleton, hcarries t]

/-- Something runs on top of frames that wait for it. -/
theorem Inv.push {s : State} {f : Frame} (hi : Inv s) (hstack : ∀ g ∈ s.stack, g.mayCall = true)
    (hf : ∀ t, f.carries t = false) : Inv (s.push f) := by
  refine hi.of_quiet ?_ rfl rfl rfl id ?_ hstack ?_
  · intro t
    apply Nat.le_of_eq
    unfold State.weight State.push
    rw [List.countP_cons_of_neg (by rw [hf t]; exact Bool.false_ne_true)]
  · intro hhead
    have hmem := List.mem_of_mem_head? (Option.mem_def.mpr hhead)
    exact nomatch hstack _ hmem
  · intro t hhead
    have hcarries := hf t
    rw [Option.some.inj hhead, Frame.carries, decide_eq_false_iff_not] at hcarries
    exact absurd rfl hcarries

theorem mayCall_of_head {s : State} (hi : Inv s) (h : s.stack.head?.any Frame.mayCall = true) :
    ∀ g ∈ s.stack, g.mayCall = true := by
  have hbelow := hi.below
  cases hstack : s.stack with
  | nil => exact fun g hg => absurd hg List.not_mem_nil
  | cons f rest =>
    rw [hstack] at h hbelow
    intro g hg
    rcases List.mem_cons.mp hg with rfl | hg
    · exact h
    · exact hbelow g hg

theorem mayCall_of_inJava {s : State} (h : s.stack.head?.any Frame.inJava = true) :
    s.stack.head?.any Frame.mayCall = true := by
  cases hstack : s.stack with
  | nil =>
    rw [hstack] at h
    cases h
  | cons f rest =>
    rw [hstack] at h
    have hf : f.inJava = true := h
    show f.mayCall = true
    cases f <;> first | rfl | exact hf

theorem Inv.run {s : State} (hi : Inv s) (hstack : ∀ g ∈ s.stack, g.mayCall = true) (r : Runnable) :
    Inv (s.run r) := by
  cases r with
  | other => exact hi.push hstack fun _ => rfl
  | closeContext c =>
    apply hi.push hstack
    intro t
    split <;> rfl
  | closeRuntime =>
    apply hi.push hstack
    intro t
    split <;> rfl

theorem weight_erase (l : List Timer) (t u : Timer) (h : t ∈ l) :
    (l.erase t).count u + (if t = u then 1 else 0) = l.count u := by
  rw [List.count_erase]
  by_cases htu : t = u
  · have hpos := List.count_pos_iff.mpr h
    subst htu
    rw [beq_self_eq_true, if_pos rfl, if_pos rfl]
    omega
  · rw [if_neg htu, if_neg (by rw [beq_iff_eq]; exact htu)]
    omega

theorem inv_wake {s s' : State} {t : Timer} (hi : Inv s) (h : step s (.wake t) = some s') : Inv s' := by
  simp only [step] at h
  split at h
  · rename_i hmem
    rw [← Option.some.inj h]
    refine hi.of_client ?_ rfl rfl rfl rfl rfl
    intro u
    have herase := weight_erase s.sleeping t u hmem
    unfold State.weight
    dsimp only
    split
    · omega
    · rw [List.count_cons]
      simp only [beq_iff_eq]
      omega
  · cases h

theorem inv_enqueue {s s' : State} {t : Timer} (hi : Inv s) (h : step s (.enqueue t) = some s') : Inv s' := by
  simp only [step] at h
  split at h
  · rename_i hmem
    rw [← Option.some.inj h]
    refine hi.of_client ?_ rfl rfl rfl rfl rfl
    intro u
    have herase := weight_erase s.admitted t u hmem
    unfold State.weight
    dsimp only
    rw [List.count_append, List.count_singleton]
    simp only [beq_iff_eq, Event.timer.injEq]
    omega
  · cases h

/-- The timer's event goes from the queue to the stack. -/
theorem inv_serve {s s' : State} (hi : Inv s) (h : step s .serve = some s') : Inv s' := by
  simp only [step] at h
  split at h
  · rename_i e rest hstack hqueue
    have hempty : ∀ g ∈ s.stack, g.mayCall = true := by
      rw [hstack]
      exact fun g hg => absurd hg List.not_mem_nil
    have hdrop : Inv { s with queue := rest } := by
      refine hi.of_client ?_ rfl rfl rfl rfl rfl
      intro t
      unfold State.weight
      rw [hqueue, List.count_cons]
      dsimp only
      omega
    cases e with
    | timer t =>
      rw [← Option.some.inj h]
      split
      · exact hdrop
      · refine hi.of_quiet ?_ rfl rfl rfl id ?_ hempty fun u hhead => nomatch hhead
        · intro u
          unfold State.weight State.push
          rw [hqueue, List.count_cons, List.countP_cons]
          simp only [Frame.carries, decide_eq_true_eq, beq_iff_eq, Event.timer.injEq]
          omega
        · rw [hstack]
          exact fun hhead => nomatch hhead
    | runnable r =>
      rw [← Option.some.inj h]
      split
      · exact hdrop
      · exact hdrop.run hempty r
    | native =>
      rw [← Option.some.inj h]
      exact hdrop.push hempty fun _ => rfl
  · cases h

theorem inv_test {s s' : State} (hi : Inv s) (h : step s .test = some s') : Inv s' := by
  simp only [step] at h
  split at h
  · rename_i t rest hstack
    rw [← Option.some.inj h]
    split
    · exact hi.leave hstack Frame.noConfusion
    · exact hi.goto hstack Frame.noConfusion (fun _ => rfl) fun _ hg => nomatch hg
  · cases h

theorem inv_check {s s' : State} (hi : Inv s) (h : step s .check = some s') : Inv s' := by
  simp only [step] at h
  split at h
  · rename_i t rest hstack
    rw [← Option.some.inj h]
    split
    · exact hi.leave hstack Frame.noConfusion
    · rename_i hopen
      refine hi.goto hstack Frame.noConfusion (fun _ => rfl) fun u hg => ?_
      rw [← Frame.executing.inj hg]
      exact Bool.not_eq_true _ ▸ hopen
  · cases h

/-- The function is invoked in the state that was tested: nothing else ran on the owner thread. -/
theorem inv_invoke {s s' : State} (hi : Inv s) (h : step s .invoke = some s') : Inv s' := by
  simp only [step] at h
  split at h
  · rename_i t rest hstack
    rw [← Option.some.inj h]
    split
    · exact hi.leave hstack Frame.noConfusion
    · have hready := hi.ready t (by rw [hstack]; rfl)
      unfold State.contextReleased at hready
      rw [Bool.or_eq_false_iff] at hready
      have hlog : .released ∉ s.log := by
        intro hmem
        rcases hi.released hmem with hrel | hhead
        · exact nomatch hready.1.symm.trans hrel
        · rw [hstack] at hhead
          cases hhead
      have hweight : ∀ u, State.weight { s with
          stack := .script :: .event :: rest, log := s.log ++ [.invoked t] } u = s.weight u := by
        intro u
        unfold State.weight
        rw [hstack, List.count_append, List.count_singleton, List.countP_cons, List.countP_cons, List.countP_cons]
        simp only [Frame.carries, decide_eq_true_eq, beq_iff_eq, Entry.invoked.injEq, Bool.false_eq_true, if_false]
        omega
      exact {
        once := fun u => by rw [hweight u]; exact hi.once u
        fresh := fun u hu => by rw [hweight u]; exact hi.fresh u hu
        below := by
          intro g hg
          rcases List.mem_cons.mp hg with rfl | hg
          · rfl
          · exact mayCall_of_tail hi hstack g hg
        ready := fun u hhead => nomatch hhead
        closed := by
          intro c hc
          rcases List.mem_append.mp hc with hc | hc
          · exact hi.closed c hc
          · cases List.mem_singleton.mp hc
        released := by
          intro hmem
          rcases List.mem_append.mp hmem with hmem | hmem
          · exact absurd hmem hlog
          · cases List.mem_singleton.mp hmem
        late := by
          rw [neverLate_concat]
          refine ⟨hi.late, ?_⟩
          intro e he u hu
          cases hu
          cases e with
          | invoked v => exact id
          | closed c =>
            rintro rfl
            exact nomatch hready.2.symm.trans (hi.closed _ he)
          | released => exact absurd he hlog }
  · cases h

theorem inv_script {s s' : State} (hi : Inv s) (h : step s .script = some s') : Inv s' := by
  simp only [step] at h
  split at h
  · rename_i hhead
    rw [← Option.some.inj h]
    split
    · exact hi
    · exact hi.push (mayCall_of_head hi (mayCall_of_inJava hhead)) fun _ => rfl
  · cases h

theorem inv_callback {s s' : State} (hi : Inv s) (h : step s .callback = some s') : Inv s' := by
  simp only [step] at h
  split at h
  · rename_i hhead
    rw [← Option.some.inj h]
    exact hi.push (mayCall_of_head hi (by rw [hhead]; rfl)) fun _ => rfl
  · cases h

theorem inv_postOnOwner {s s' : State} {r : Runnable} (hi : Inv s) (h : step s (.postOnOwner r) = some s') :
    Inv s' := by
  simp only [step] at h
  split at h
  · rename_i hhead
    rw [← Option.some.inj h]
    split
    · exact hi
    · exact hi.run (mayCall_of_head hi (mayCall_of_inJava hhead)) r
  · cases h

theorem inv_setTimeout {s s' : State} {c : Nat} (hi : Inv s) (h : step s (.setTimeout c) = some s') : Inv s' := by
  simp only [step] at h
  split at h
  · rw [← Option.some.inj h]
    split
    · exact hi
    · have hweight : ∀ t, State.weight { s with count := s.count + 1, sleeping := ⟨s.count, c⟩ :: s.sleeping } t =
          s.weight t + if (⟨s.count, c⟩ : Timer) = t then 1 else 0 := by
        intro t
        unfold State.weight
        rw [List.count_cons]
        simp only [beq_iff_eq]
        omega
      exact {
        once := by
          intro t
          rw [hweight t]
          split
          · rename_i heq
            have hzero := hi.fresh t (Nat.le_of_eq (by rw [← heq]))
            omega
          · exact hi.once t
        fresh := by
          intro t ht
          have ht : s.count + 1 ≤ t.id := ht
          rw [hweight t, hi.fresh t (by omega), if_neg]
          rintro rfl
          exact absurd ht (Nat.not_succ_le_self _)
        below := hi.below
        ready := hi.ready
        closed := hi.closed
        released := hi.released
        late := hi.late }
  · cases h

/-- An entry that is no call of a function. -/
theorem Inv.record {s : State} {e : Entry} (hi : Inv s) (he : ∀ t, e ≠ .invoked t)
    (hclosed : ∀ c, e = .closed c → s.closed c = true)
    (hreleased : e = .released → s.released = true ∨ s.stack.head? = some .releasing) :
    Inv { s with log := s.log ++ [e] } := by
  have hweight : ∀ t, State.weight { s with log := s.log ++ [e] } t = s.weight t := by
    intro t
    unfold State.weight
    rw [List.count_append, List.count_singleton, if_neg (by rw [beq_iff_eq]; exact he t)]
    rfl
  exact {
    once := fun t => by rw [hweight t]; exact hi.once t
    fresh := fun t ht => by rw [hweight t]; exact hi.fresh t ht
    below := hi.below
    ready := hi.ready
    closed := by
      intro c hc
      rcases List.mem_append.mp hc with hc | hc
      · exact hi.closed c hc
      · exact hclosed c (List.mem_singleton.mp hc).symm
    released := by
      intro hmem
      rcases List.mem_append.mp hmem with hmem | hmem
      · exact hi.released hmem
      · exact hreleased (List.mem_singleton.mp hmem).symm
    late := neverLate_concat.mpr ⟨hi.late, fun _ _ t ht => absurd ht (he t)⟩ }

/-- A context is closed while no timer is past its tests. -/
theorem Inv.shut {s : State} (hi : Inv s) (hstack : ∀ g ∈ s.stack, g.mayCall = true) (c : Nat) :
    Inv { s with closed := Function.update s.closed c true } := {
  hi with
  ready := by
    intro t hhead
    have hmem := List.mem_of_mem_head? (Option.mem_def.mpr hhead)
    exact nomatch hstack _ hmem
  closed := by
    intro d hd
    show Function.update s.closed c true d = true
    by_cases hdc : d = c
    · rw [hdc, Function.update_self]
    · rw [Function.update_of_ne hdc]
      exact hi.closed d hd }

theorem inv_close {s s' : State} (hi : Inv s) (h : step s .close = some s') : Inv s' := by
  simp only [step] at h
  split at h
  · rename_i c rest hstack
    have hshut := (hi.leave hstack Frame.noConfusion).shut (mayCall_of_tail hi hstack) c
    rw [← Option.some.inj h]
    refine hshut.record (fun _ => Entry.noConfusion) (fun d hd => ?_) fun he => nomatch he
    rw [← Entry.closed.inj hd]
    exact Function.update_self c true s.closed
  · cases h

theorem inv_releaseRuntime {s s' : State} (hi : Inv s) (h : step s .releaseRuntime = some s') : Inv s' := by
  simp only [step] at h
  split at h
  · rename_i rest hstack
    have hgo : Inv { s with stack := .releasing :: rest } :=
      hi.goto hstack Frame.noConfusion (fun _ => rfl) fun _ hg => nomatch hg
    rw [← Option.some.inj h]
    split
    · exact hgo
    · exact hgo.record (fun _ => Entry.noConfusion) (fun _ hd => nomatch hd) fun _ => Or.inr rfl
  · cases h

theorem inv_setReleased {s s' : State} (hi : Inv s) (h : step s .setReleased = some s') : Inv s' := by
  simp only [step] at h
  split at h
  · rename_i rest hstack
    rw [← Option.some.inj h]
    exact hi.replace [.interrupting] hstack rfl (fun _ => Nat.le_refl _) ⟨rfl, rfl, rfl, rfl, rfl, rfl⟩
      (fun _ => rfl) (fun _ => rfl) (fun _ hg => absurd hg List.not_mem_nil) fun _ hhead => nomatch hhead
  · cases h

theorem inv_interrupt {s s' : State} (hi : Inv s) (h : step s .interrupt = some s') : Inv s' := by
  simp only [step] at h
  split at h
  · rename_i rest hstack
    rw [← Option.some.inj h]
    exact hi.replace [] hstack rfl (fun _ => Nat.zero_le _) ⟨rfl, rfl, rfl, rfl, rfl, rfl⟩ id
      (fun hf => nomatch hf) (fun _ hg => absurd hg List.not_mem_nil) fun _ hhead => nomatch hhead
  · cases h

theorem inv_finish {s s' : State} (hi : Inv s) (h : step s .finish = some s') : Inv s' := by
  simp only [step] at h
  split at h
  · rename_i f rest hstack
    split at h
    · rename_i hf
      rw [← Option.some.inj h]
      apply hi.leave hstack
      intro hreleasing
      rw [hreleasing] at hf
      cases hf
    · cases h
  · cases h

theorem inv_post {s : State} {e : Event} (hi : Inv s) (he : ∀ t, e ≠ .timer t) :
    Inv { s with queue := s.queue ++ [e] } := by
  refine hi.of_client ?_ rfl rfl rfl rfl rfl
  intro t
  unfold State.weight
  rw [List.count_append, List.count_singleton, if_neg (by rw [beq_iff_eq]; exact he t)]
  exact Nat.le_refl _

theorem inv_step {s s' : State} {a : Act} (hi : Inv s) (h : step s a = some s') : Inv s' := by
  cases a with
  | post r => exact Option.some.inj h ▸ inv_post hi fun _ => Event.noConfusion
  | postNative => exact Option.some.inj h ▸ inv_post hi fun _ => Event.noConfusion
  | wake t => exact inv_wake hi h
  | enqueue t => exact inv_enqueue hi h
  | serve => exact inv_serve hi h
  | test => exact inv_test hi h
  | check => exact inv_check hi h
  | invoke => exact inv_invoke hi h
  | script => exact inv_script hi h
  | callback => exact inv_callback hi h
  | setTimeout c => exact inv_setTimeout hi h
  | postOnOwner r => exact inv_postOnOwner hi h
  | close => exact inv_close hi h
  | releaseRuntime => exact inv_releaseRuntime hi h
  | setReleased => exact inv_setReleased hi h
  | interrupt => exact inv_interrupt hi h
  | finish => exact inv_finish hi h

theorem inv_init : Inv init where
  once _ := Nat.zero_le _
  fresh _ _ := rfl
  below _ hf := absurd hf List.not_mem_nil
  ready _ hhead := nomatch hhead
  closed _ hc := absurd hc List.not_mem_nil
  released hmem := absurd hmem List.not_mem_nil
  late := List.Pairwise.nil

/-! ## Runs -/

/-- **Timers.** In every state of every run each `setTimeout` has invoked its function at most once, and never
after its context was closed or the runtime released. -/
theorem fires_atMostOnce_neverLate {as : List Act} {s : State} (h : Machine.Run step init as s) :
    AtMostOnce s.log ∧ NeverLate s.log := by
  have hi : Inv s := h.invariant (fun _ _ _ hi _ hst => inv_step hi hst) inv_init
  refine ⟨fun t => ?_, hi.late⟩
  have honce := hi.once t
  unfold State.weight at honce
  omega

/-- A timer fires and sets another; its context is closed when the second event is queued already. -/
def closeBehindTimer : List Act :=
  [.postNative, .serve, .setTimeout 0, .finish, .wake ⟨0, 0⟩, .enqueue ⟨0, 0⟩, .serve, .test, .check, .invoke,
    .setTimeout 0, .finish, .finish, .post (.closeContext 0), .wake ⟨1, 0⟩, .enqueue ⟨1, 0⟩, .serve, .close,
    .serve, .test]

theorem fires_atMostOnce_neverLate_closed :
    ∃ s, Machine.Run step init closeBehindTimer s ∧ s.log = [.invoked ⟨0, 0⟩, .closed 0] ∧
      AtMostOnce s.log ∧ NeverLate s.log := by
  obtain ⟨s, hrun, hlog⟩ := Machine.exists_run_of_exec step init closeBehindTimer
    (fun s => decide (s.log = [.invoked ⟨0, 0⟩, .closed 0])) (by decide)
  exact ⟨s, hrun, of_decide_eq_true hlog, fires_atMostOnce_neverLate hrun⟩

end QuickJSBridge.Timers
