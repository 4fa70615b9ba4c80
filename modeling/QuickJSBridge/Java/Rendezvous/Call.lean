import QuickJSBridge.Lib.Machine

/-!
# One call of `post` or `postVoid`

A client hands a `Runnable` to the handler of the owner thread and waits for it: two cells for the outcome
(`result[0]`, `errors[0]`), a flag (`result[1]`) and the monitor of `result`, made anew by each call. Every
statement is a step; a party in its `synchronized` block holds the monitor, and the cells are read outside it.

* `Call` — the control points of the caller and of the runnable, and the cells;
* `Call.step` — the next statement of either, what `event.run()` may end with, and a `wait()` that returns
  without a notification;
* `Call.Control` — what keeps a notification from being lost: who may be where, given the flag;
* `Call.Control.exists_done` — once the event has run, the two parties go on to the end of the call.
-/

namespace QuickJSBridge.Rendezvous

variable {V X : Type}

/-! ## One call -/

inductive Kind where
  | post
  | postVoid (block : Bool)
  deriving DecidableEq

/-- The caller waits for the event. -/
def Kind.blocks : Kind → Bool
  | post => true
  | postVoid block => block

/-- How `event.run()` ends. A value is a reference; that of a `postVoid` is not used. -/
inductive Outcome (V X : Type) where
  | value (v : Option V)
  | runtimeException (x : X)
  -- what `catch (RuntimeException e)` lets through
  | error (x : X)
  deriving DecidableEq

/-- How `post` or `postVoid` ends. -/
inductive Reply (V X : Type) where
  | returned (v : Option V)
  | threw (x : X)
  deriving DecidableEq

/-- What the call is to answer. -/
def Kind.answer : Kind → Outcome V X → Reply V X
  | post, .value v => .returned v
  | postVoid _, .value _ => .returned none
  | _, .runtimeException x | _, .error x => .threw x

inductive Event (V X : Type) where
  | queued
  | running
  | ended (o : Outcome V X)
  -- a `postVoid` event that is served after the release is not run
  | dropped
  deriving DecidableEq

/-- Where the caller is, from `handler.post` on. -/
inductive Caller (V X : Type) where
  -- before `synchronized (result)`
  | entering
  -- in the monitor, before `result[1] == null`
  | testing
  -- before `result.wait()`
  | parking
  | waiting
  -- notified, interrupted or woken without a reason; `wait()` takes the monitor again
  | waking
  -- in the monitor, past the wait
  | leaving
  -- before `errors[0] != null`
  | catching
  -- before `return (T) result[0]`, or the end of `postVoid`
  | fetching
  | done (r : Reply V X)
  deriving DecidableEq

/-- Where the owner thread is in the runnable. -/
inductive Runnable (V X : Type) where
  | queued
  -- in `event.run()`
  | running
  -- before `result[0] = ..`
  | assigning (v : Option V)
  -- before `errors[0] = e`
  | catching (x : X)
  -- before `synchronized (result)`
  | locking
  -- before `result[1] = true`
  | setting
  -- before `result.notifyAll()`
  | notifying
  -- at the end of the block
  | unlocking
  | finished
  -- left by an `Error`
  | died
  deriving DecidableEq

structure Call (V X : Type) where
  kind : Kind
  event : Event V X
  caller : Caller V X
  runnable : Runnable V X
  -- `result[0]`
  value : Option V
  -- `result[1]`
  flag : Bool
  -- `errors[0]`
  error : Option X
  deriving DecidableEq

/-- The caller is in its `synchronized` block, and not in `wait()`. -/
def Caller.inMonitor : Caller V X → Bool
  | testing | parking | leaving => true
  | _ => false

/-- What `notifyAll()` makes of the caller. -/
def Caller.notified : Caller V X → Caller V X
  | waiting => waking
  | p => p

/-- The runnable is in its `synchronized` block. -/
def Runnable.inMonitor : Runnable V X → Bool
  | setting | notifying | unlocking => true
  | _ => false

namespace Call

/-- A call whose runnable was given to the handler. -/
def posted (kind : Kind) : Call V X where
  kind := kind
  event := .queued
  caller := if kind.blocks then .entering else .done (.returned none)
  runnable := .queued
  value := none
  flag := false
  error := none

/-- `(T) result[0]`; `postVoid` returns nothing. -/
def result (k : Call V X) : Option V :=
  match k.kind with
  | .post => k.value
  | .postVoid _ => none

/-- The next statement of the caller. -/
def callerNext (k : Call V X) : Option (Call V X) :=
  match k.caller with
  | .entering => if k.runnable.inMonitor then none else some { k with caller := .testing }
  | .testing => some { k with caller := if k.flag then .leaving else .parking }
  | .parking => some { k with caller := .waiting }
  | .waiting => none
  | .waking => if k.runnable.inMonitor then none else some { k with caller := .leaving }
  | .leaving => some { k with caller := .catching }
  | .catching =>
    match k.error with
    | some x => some { k with caller := .done (.threw x) }
    | none => some { k with caller := .fetching }
  | .fetching => some { k with caller := .done (.returned k.result) }
  | .done _ => none

/-- `wait()` returns: a spurious wake-up, or an interrupt. -/
def wake (k : Call V X) : Option (Call V X) :=
  match k.caller with
  | .waiting => some { k with caller := .waking }
  | _ => none

/-- `if (block)`, or the `synchronized` block of `post`. -/
def afterRun (kind : Kind) : Runnable V X :=
  if kind.blocks then .locking else .finished

/-- The `try` statement around `event.run()`. -/
def afterEvent (kind : Kind) : Outcome V X → Runnable V X
  | .value v =>
    match kind with
    | .post => .assigning v
    | .postVoid _ => afterRun kind
  | .runtimeException x => .catching x
  | .error _ => .died

/-- The owner thread takes the runnable. -/
def serve (k : Call V X) (released : Bool) : Option (Call V X) :=
  match k.runnable with
  | .queued =>
    if k.kind ≠ .post ∧ released = true then
      some { k with event := .dropped, runnable := afterRun k.kind }
    else some { k with event := .running, runnable := .running }
  | _ => none

/-- `event.run()` ends. -/
def finish (k : Call V X) (o : Outcome V X) : Option (Call V X) :=
  match k.runnable with
  | .running =>
    some { k with event := .ended o, runnable := afterEvent k.kind o }
  | _ => none

/-- The next statement of the runnable after `event.run()`. -/
def runnableNext (k : Call V X) : Option (Call V X) :=
  match k.runnable with
  | .assigning v => some { k with value := v, runnable := afterRun k.kind }
  | .catching x => some { k with error := some x, runnable := afterRun k.kind }
  | .locking => if k.caller.inMonitor then none else some { k with runnable := .setting }
  | .setting => some { k with flag := true, runnable := .notifying }
  | .notifying =>
    some { k with caller := k.caller.notified, runnable := .unlocking }
  | .unlocking => some { k with runnable := .finished }
  | _ => none

end Call

inductive Move (V X : Type) where
  | caller
  | wake
  | serve (released : Bool)
  | finish (o : Outcome V X)
  | runnable

def Call.step (k : Call V X) : Move V X → Option (Call V X)
  | .caller => k.callerNext
  | .wake => k.wake
  | .serve released => k.serve released
  | .finish o => k.finish o
  | .runnable => k.runnableNext

/-! ## What the two parties do -/

section

variable {k k' : Call V X} {m : Move V X}

/-- The caller of `k` goes to a control point. -/
inductive Call.CallerGoes (k : Call V X) : Caller V X → Prop where
  | enter (hp : k.caller = .entering) (hfree : k.runnable.inMonitor = false) : CallerGoes k .testing
  | pass (hp : k.caller = .testing) (hflag : k.flag = true) : CallerGoes k .leaving
  | park (hp : k.caller = .testing) (hflag : k.flag = false) : CallerGoes k .parking
  | wait (hp : k.caller = .parking) : CallerGoes k .waiting
  | reenter (hp : k.caller = .waking) (hfree : k.runnable.inMonitor = false) : CallerGoes k .leaving
  | leave (hp : k.caller = .leaving) : CallerGoes k .catching
  | fetch (hp : k.caller = .catching) (herror : k.error = none) : CallerGoes k .fetching
  | throws (x : X) (hp : k.caller = .catching) (herror : k.error = some x) : CallerGoes k (.done (.threw x))
  | returns (hp : k.caller = .fetching) : CallerGoes k (.done (.returned k.result))

/-- The runnable of `k` goes on, to `k'`. -/
inductive Call.RunnableGoes (k : Call V X) : Call V X → Prop where
  | assign (v : Option V) (hr : k.runnable = .assigning v) :
      RunnableGoes k { k with value := v, runnable := afterRun k.kind }
  | catches (x : X) (hr : k.runnable = .catching x) :
      RunnableGoes k { k with error := some x, runnable := afterRun k.kind }
  | lock (hr : k.runnable = .locking) (hfree : k.caller.inMonitor = false) :
      RunnableGoes k { k with runnable := .setting }
  | set (hr : k.runnable = .setting) : RunnableGoes k { k with flag := true, runnable := .notifying }
  | notify (hr : k.runnable = .notifying) :
      RunnableGoes k { k with caller := k.caller.notified, runnable := .unlocking }
  | unlock (hr : k.runnable = .unlocking) : RunnableGoes k { k with runnable := .finished }

theorem callerNext_iff : k.callerNext = some k' ↔ ∃ p, k.CallerGoes p ∧ k' = { k with caller := p } := by
  constructor
  · intro h
    unfold Call.callerNext at h
    split at h
    · rename_i hp
      split at h
      · cases h
      · rename_i hfree
        exact ⟨_, .enter hp (by simpa using hfree), (Option.some.inj h).symm⟩
    · rename_i hp
      by_cases hflag : k.flag = true
      · exact ⟨_, .pass hp hflag, by rw [← Option.some.inj h, if_pos hflag]⟩
      · exact ⟨_, .park hp (by simpa using hflag), by rw [← Option.some.inj h, if_neg hflag]⟩
    · rename_i hp
      exact ⟨_, .wait hp, (Option.some.inj h).symm⟩
    · cases h
    · rename_i hp
      split at h
      · cases h
      · rename_i hfree
        exact ⟨_, .reenter hp (by simpa using hfree), (Option.some.inj h).symm⟩
    · rename_i hp
      exact ⟨_, .leave hp, (Option.some.inj h).symm⟩
    · rename_i hp
      split at h
      · rename_i x herror
        exact ⟨_, .throws x hp herror, (Option.some.inj h).symm⟩
      · rename_i herror
        exact ⟨_, .fetch hp herror, (Option.some.inj h).symm⟩
    · rename_i hp
      exact ⟨_, .returns hp, (Option.some.inj h).symm⟩
    · cases h
  · rintro ⟨p, hgoes, rfl⟩
    unfold Call.callerNext
    cases hgoes with
    | enter hp hfree | reenter hp hfree =>
      rw [hp]
      dsimp only
      rw [hfree]
      rfl
    | pass hp hflag | park hp hflag =>
      rw [hp]
      dsimp only
      rw [hflag]
      rfl
    | wait hp | leave hp | returns hp =>
      rw [hp]
    | fetch hp herror | throws x hp herror =>
      rw [hp]
      dsimp only
      rw [herror]

theorem runnableNext_iff : k.runnableNext = some k' ↔ k.RunnableGoes k' := by
  constructor
  · intro h
    unfold Call.runnableNext at h
    split at h
    · rename_i v hr
      exact Option.some.inj h ▸ .assign v hr
    · rename_i x hr
      exact Option.some.inj h ▸ .catches x hr
    · rename_i hr
      split at h
      · cases h
      · rename_i hfree
        exact Option.some.inj h ▸ .lock hr (by simpa using hfree)
    · rename_i hr
      exact Option.some.inj h ▸ .set hr
    · rename_i hr
      exact Option.some.inj h ▸ .notify hr
    · rename_i hr
      exact Option.some.inj h ▸ .unlock hr
    · cases h
  · intro h
    unfold Call.runnableNext
    cases h with
    | assign v hr | catches x hr | set hr | notify hr | unlock hr => rw [hr]
    | lock hr hfree =>
      rw [hr]
      dsimp only
      rw [hfree]
      rfl

theorem runnable_callerNext (h : k.callerNext = some k') : k'.runnable = k.runnable := by
  obtain ⟨p, -, rfl⟩ := callerNext_iff.mp h
  rfl

theorem runnable_wake (h : k.wake = some k') : k'.runnable = k.runnable := by
  unfold Call.wake at h
  split at h
  · rw [← Option.some.inj h]
  · cases h

end

/-! ## The monitor and the flag

What keeps a notification from being lost. It holds of the calls that wait, disturbed or not. -/

/-- The runnable has set the flag. -/
def Runnable.hasSet : Runnable V X → Bool
  | notifying | unlocking | finished => true
  | _ => false

def Runnable.hasNotified : Runnable V X → Bool
  | unlocking | finished => true
  | _ => false

structure Call.Control (k : Call V X) : Prop where
  exclusive : k.caller.inMonitor = true → k.runnable.inMonitor = false
  flag : k.flag = k.runnable.hasSet
  parking : k.caller = .parking → k.flag = false
  waiting : k.caller = .waiting → k.runnable.hasNotified = false

section

variable {k k' : Call V X} {m : Move V X}

theorem control_posted {kind : Kind} : (Call.posted kind : Call V X).Control where
  exclusive _ := rfl
  flag := rfl
  parking _ := rfl
  waiting _ := rfl

theorem Call.Control.hasNotified (hk : k.Control) (hflag : k.flag = false) : k.runnable.hasNotified = false := by
  have hset := hk.flag
  rw [hflag] at hset
  cases hr : k.runnable with
  | unlocking | finished =>
    rw [hr] at hset
    cases hset
  | _ => rfl

/-- While the runnable holds the monitor the caller is not between its test and the wait. -/
theorem Call.Control.outside (hk : k.Control) (hr : k.runnable.inMonitor = true) :
    k.caller.inMonitor ≠ true := by
  intro h
  rw [hk.exclusive h] at hr
  cases hr

/-- The caller goes to a point other than those before and in `wait()`. -/
theorem Call.Control.goto (hk : k.Control) {p : Caller V X} (hparking : p ≠ .parking) (hwaiting : p ≠ .waiting)
    (hmonitor : p.inMonitor = true → k.runnable.inMonitor = false) : { k with caller := p }.Control where
  exclusive := hmonitor
  flag := hk.flag
  parking h := absurd h hparking
  waiting h := absurd h hwaiting

theorem Call.Control.callerGoes {p : Caller V X} (hk : k.Control) (h : k.CallerGoes p) :
    { k with caller := p }.Control := by
  cases h with
  | enter _ hfree | reenter _ hfree =>
    exact hk.goto (fun h => by cases h) (fun h => by cases h) fun _ => hfree
  | pass hp _ =>
    exact hk.goto (fun h => by cases h) (fun h => by cases h) fun _ => hk.exclusive (by rw [hp]; rfl)
  | park hp hflag => exact {
      exclusive := fun _ => hk.exclusive (by rw [hp]; rfl)
      flag := hk.flag
      parking := fun _ => hflag
      waiting := fun h => by cases h }
  | wait hp => exact {
      exclusive := fun h => by cases h
      flag := hk.flag
      parking := fun h => by cases h
      -- it has held the monitor since it found the flag unset
      waiting := fun _ => hk.hasNotified (hk.parking hp) }
  | leave _ | fetch _ _ | throws _ _ _ | returns _ =>
    exact hk.goto (fun h => by cases h) (fun h => by cases h) fun h => by cases h

theorem notified_ne_waiting (p : Caller V X) : p.notified ≠ .waiting := by
  cases p with
  | _ => exact fun h => by cases h

theorem inMonitor_notified (p : Caller V X) : p.notified.inMonitor = p.inMonitor := by
  cases p with
  | _ => rfl

theorem afterRun_of_blocks {kind : Kind} (h : kind.blocks = true) :
    (Call.afterRun kind : Runnable V X) = .locking := by
  unfold Call.afterRun
  rw [h]
  rfl

theorem Call.Control.runnableGoes (hk : k.Control) (hblocks : k.kind.blocks = true) (h : k.RunnableGoes k') :
    k'.Control := by
  have hset := hk.flag
  cases h with
  | assign v hr | catches x hr =>
    rw [hr] at hset
    rw [afterRun_of_blocks hblocks]
    exact {
      exclusive := fun _ => rfl
      flag := hset
      parking := hk.parking
      waiting := fun _ => rfl }
  | lock hr hfree =>
    rw [hr] at hset
    exact {
      exclusive := fun h => by rw [hfree] at h; cases h
      flag := hset
      parking := hk.parking
      waiting := fun _ => rfl }
  | set hr =>
    have hcaller := hk.outside (by rw [hr]; rfl)
    exact {
      exclusive := fun h => absurd h hcaller
      flag := rfl
      parking := fun h => absurd (congrArg Caller.inMonitor h) hcaller
      waiting := fun _ => rfl }
  | notify hr =>
    have hcaller := hk.outside (by rw [hr]; rfl)
    rw [hr] at hset
    have hmonitor : k.caller.notified.inMonitor ≠ true := by
      rw [inMonitor_notified]
      exact hcaller
    exact {
      exclusive := fun h => absurd h hmonitor
      flag := hset
      parking := fun h => absurd (congrArg Caller.inMonitor h) hmonitor
      waiting := fun h => absurd h (notified_ne_waiting _) }
  | unlock hr =>
    rw [hr] at hset
    exact {
      exclusive := fun _ => rfl
      flag := hset
      parking := hk.parking
      waiting := fun h => by
        have hnotified := hk.waiting h
        rw [hr] at hnotified
        cases hnotified }

end

/-! ## Both go on to their ends -/

/-- The caller and the runnable go on with their next statements from `k` to `k'`. -/
def Call.Goes (k k' : Call V X) : Prop :=
  ∃ ms, (∀ m ∈ ms, m = .caller ∨ m = .runnable) ∧ Machine.Run Call.step k ms k'

/-- The runnable is past `event.run()`, and not by an `Error`. -/
def Runnable.hasRun : Runnable V X → Bool
  | queued | running | died => false
  | _ => true

/-- How many statements are left at most. -/
def Caller.left : Caller V X → Nat
  | entering => 8
  | testing => 7
  | parking => 6
  | waiting => 5
  | waking => 4
  | leaving => 3
  | catching => 2
  | fetching => 1
  | done _ => 0

def Runnable.left : Runnable V X → Nat
  | queued | running | assigning _ | catching _ => 5
  | locking => 4
  | setting => 3
  | notifying => 2
  | unlocking => 1
  | finished | died => 0

def Call.left (k : Call V X) : Nat := k.caller.left + k.runnable.left

section

variable {k k' k'' : Call V X} {m : Move V X}

theorem Call.Goes.refl : k.Goes k := ⟨[], List.forall_mem_nil _, .nil k⟩

theorem Call.Goes.head (hm : m = .caller ∨ m = .runnable) (hstep : k.step m = some k') (h : k'.Goes k'') :
    k.Goes k'' := by
  obtain ⟨ms, hms, hrun⟩ := h
  refine ⟨m :: ms, fun m' hm' => ?_, .cons trivial hstep hrun⟩
  rcases List.mem_cons.mp hm' with rfl | hm'
  · exact hm
  · exact hms m' hm'

theorem Call.Goes.caller {p : Caller V X} (h : k.CallerGoes p) (hgoes : { k with caller := p }.Goes k'') :
    k.Goes k'' :=
  hgoes.head (Or.inl rfl) (callerNext_iff.mpr ⟨p, h, rfl⟩)

theorem Call.Goes.runnable (h : k.RunnableGoes k') (hgoes : k'.Goes k'') : k.Goes k'' :=
  hgoes.head (Or.inr rfl) (runnableNext_iff.mpr h)

/-- What the statements of both parties keep, the call keeps as they go on. -/
theorem Call.Goes.invariant {I : Call V X → Prop} (h : k.Goes k')
    (hcaller : ∀ k p, I k → k.CallerGoes p → I { k with caller := p })
    (hrunnable : ∀ k k', I k → k.RunnableGoes k' → I k') (hk : I k) : I k' := by
  obtain ⟨ms, hms, hrun⟩ := h
  induction ms generalizing k with
  | nil =>
    cases hrun
    exact hk
  | cons m ms ih =>
    cases hrun with
    | cons _ hstep hrest =>
      refine ih ?_ (fun m' hm' => hms m' (List.mem_cons_of_mem _ hm')) hrest
      rcases hms m List.mem_cons_self with rfl | rfl
      · obtain ⟨p, hgoes, rfl⟩ := callerNext_iff.mp hstep
        exact hcaller k p hk hgoes
      · exact hrunnable k _ hk (runnableNext_iff.mp hstep)

theorem left_callerGoes {p : Caller V X} (h : k.CallerGoes p) : { k with caller := p }.left < k.left := by
  have hlt : p.left < k.caller.left := by
    cases h with
    | enter hp _ | pass hp _ | park hp _ | wait hp | reenter hp _ | leave hp | fetch hp _ | throws _ hp _
      | returns hp =>
      simp [hp, Caller.left]
  exact Nat.add_lt_add_right hlt _

theorem left_notified (p : Caller V X) : p.notified.left ≤ p.left := by
  cases p with
  | waiting => simp [Caller.notified, Caller.left]
  | _ => exact Nat.le_refl _

theorem left_afterRun (kind : Kind) : (Call.afterRun kind : Runnable V X).left ≤ 4 := by
  unfold Call.afterRun
  split <;> simp [Runnable.left]

theorem left_runnableGoes (h : k.RunnableGoes k') : k'.left < k.left := by
  have hafter := left_afterRun (V := V) (X := X) k.kind
  unfold Call.left
  cases h with
  | assign v hr | catches x hr =>
    rw [hr]
    exact Nat.add_lt_add_left (Nat.lt_succ_of_le hafter) _
  | lock hr _ | set hr | unlock hr =>
    rw [hr]
    exact Nat.add_lt_add_left (by simp [Runnable.left]) _
  | notify hr =>
    rw [hr]
    exact Nat.add_lt_add_of_le_of_lt (left_notified _) (by simp [Runnable.left])

theorem hasRun_runnableGoes (h : k.RunnableGoes k') : k'.runnable.hasRun = true := by
  cases h with
  | assign v hr | catches x hr =>
    show (Call.afterRun k.kind).hasRun = true
    unfold Call.afterRun
    split <;> rfl
  | lock | set | notify | unlock => rfl

theorem kind_event_runnableGoes (h : k.RunnableGoes k') : k'.kind = k.kind ∧ k'.event = k.event := by
  cases h with
  | _ => exact ⟨rfl, rfl⟩

/-- Once the event has run one of the two parties can go on, until the caller is through. -/
theorem Call.Control.progress (hk : k.Control) (hrun : k.runnable.hasRun = true) :
    (∃ r, k.caller = .done r) ∨ (∃ p, k.CallerGoes p) ∨ ∃ k', k.RunnableGoes k' := by
  have hmonitor : k.runnable.inMonitor = true → ∃ k', k.RunnableGoes k' := by
    intro h
    cases hr : k.runnable with
    | setting => exact ⟨_, .set hr⟩
    | notifying => exact ⟨_, .notify hr⟩
    | unlocking => exact ⟨_, .unlock hr⟩
    | _ => rw [hr] at h; cases h
  cases hp : k.caller with
  | entering | waking =>
    cases hfree : k.runnable.inMonitor with
    | true => exact Or.inr (Or.inr (hmonitor hfree))
    | false =>
      first
      | exact Or.inr (Or.inl ⟨_, .enter hp hfree⟩)
      | exact Or.inr (Or.inl ⟨_, .reenter hp hfree⟩)
  | testing =>
    cases hflag : k.flag with
    | true => exact Or.inr (Or.inl ⟨_, .pass hp hflag⟩)
    | false => exact Or.inr (Or.inl ⟨_, .park hp hflag⟩)
  | parking => exact Or.inr (Or.inl ⟨_, .wait hp⟩)
  | waiting =>
    -- the notification is still to come
    have hnot := hk.waiting hp
    refine Or.inr (Or.inr ?_)
    cases hr : k.runnable with
    | queued | running | died => rw [hr] at hrun; cases hrun
    | unlocking | finished => rw [hr] at hnot; cases hnot
    | assigning v => exact ⟨_, .assign v hr⟩
    | catching x => exact ⟨_, .catches x hr⟩
    | locking => exact ⟨_, .lock hr (by rw [hp]; rfl)⟩
    | setting => exact ⟨_, .set hr⟩
    | notifying => exact ⟨_, .notify hr⟩
  | leaving => exact Or.inr (Or.inl ⟨_, .leave hp⟩)
  | catching =>
    cases herror : k.error with
    | none => exact Or.inr (Or.inl ⟨_, .fetch hp herror⟩)
    | some x => exact Or.inr (Or.inl ⟨_, .throws x hp herror⟩)
  | fetching => exact Or.inr (Or.inl ⟨_, .returns hp⟩)
  | done r => exact Or.inl ⟨r, rfl⟩

/-- Once the event has run the two parties go on to the end of the call. -/
theorem Call.Control.exists_done (hk : k.Control) (hblocks : k.kind.blocks = true)
    (hrun : k.runnable.hasRun = true) : ∃ k' r, k.Goes k' ∧ k'.caller = .done r := by
  -- every statement leaves fewer statements
  induction hn : k.left using Nat.strongRecOn generalizing k with
  | _ n ih =>
    subst hn
    rcases hk.progress hrun with ⟨r, hr⟩ | ⟨p, hgoes⟩ | ⟨k', hgoes⟩
    · exact ⟨k, r, .refl, hr⟩
    · obtain ⟨k', r, h, hr⟩ := ih _ (left_callerGoes hgoes) (hk.callerGoes hgoes) hblocks hrun rfl
      exact ⟨k', r, h.caller hgoes, hr⟩
    · have hblocks' : k'.kind.blocks = true := by rw [(kind_event_runnableGoes hgoes).1]; exact hblocks
      obtain ⟨k'', r, h, hr⟩ := ih _ (left_runnableGoes hgoes) (hk.runnableGoes hblocks hgoes) hblocks'
        (hasRun_runnableGoes hgoes) rfl
      exact ⟨k'', r, h.runnable hgoes, hr⟩

end

end QuickJSBridge.Rendezvous
