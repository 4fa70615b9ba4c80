import Mathlib.Logic.Function.Basic
import QuickJSBridge.Engine.Exception
import QuickJSBridge.Lib.Machine

/-!
# Error delivery through the event queue

With `createRuntimeWithEventQueue` an operation such as `JSContext.executeScript` is two events,
posted one after the other by the client thread and served in FIFO order by the owner thread: the
evaluation (`_executeScript`, `_executeFunction`, `_executeFunction2`), and the `_getException` of
`QuickJS.checkException`. Both go through the runtime's single pending-exception slot.

* `ErrorDelivery.step` — the machine: clients submit, the owner thread serves the head of the queue;
* `Reported` — an operation throws a `QuickJSException` iff its own evaluation ended by throwing an
  Error object, and the exception carries that Error;
* `Undisturbed` — the schedules on which no event comes between an evaluation that threw an Error
  and its `_getException` and disturbs the slot;
* `Inv` — along such schedules at most one thrown Error is waiting, and the slot holds it.

The evaluations are arbitrary: how one ends is the label of the step that serves it. Events of an
operation that leave the slot alone (`_releasePtr`, `_isUndefined`) are not modelled.
-/

namespace QuickJSBridge.ErrorDelivery

/-! ## The machine -/

/-- How an evaluation event ends, the conversion of its result to Java included. -/
inductive Outcome where
  -- Normally. `caught`: on the way an exception was raised and caught, which passes through the
  -- slot and leaves it `JS_NULL`.
  | returned (caught : Bool)
  | threw (v : Thrown)
  deriving DecidableEq

def Outcome.error? : Outcome → Option ErrorObj
  | .threw (.error e) => some e
  | _ => none

/-- The evaluation overwrites or clears the slot. -/
def Outcome.touchesSlot : Outcome → Bool
  | .returned caught => caught
  | .threw _ => true

def Outcome.slotAfter (o : Outcome) (slot : Slot) : Slot :=
  match o with
  | .returned caught => if caught then none else slot
  | .threw v => jsThrow slot v

theorem slotAfter_of_touchesSlot {o : Outcome} (h : o.touchesSlot = true) (slot : Slot) :
    (o.slotAfter slot).error? = o.error? := by
  match o with
  | .returned true => rfl
  | .threw (.error _) => rfl
  | .threw (.other _) => rfl

theorem of_not_touchesSlot {o : Outcome} (h : ¬ o.touchesSlot = true) (slot : Slot) :
    o.slotAfter slot = slot ∧ o.error? = none := by
  match o with
  | .returned false => exact ⟨rfl, rfl⟩
  | .returned true => exact absurd rfl h
  | .threw _ => exact absurd rfl h

/-- A queued event and the client that waits for it. -/
inductive Event where
  | eval (c : Nat)
  | getException (c : Nat)
  deriving DecidableEq

/-- Where a client thread stands in its current operation. -/
inductive Phase where
  | idle
  | evalQueued
  -- the evaluation was served and `checkException` comes next
  | evaluated (o : Outcome)
  | getQueued (o : Outcome)
  deriving DecidableEq

/-- The Error object that the client is still going to fetch. -/
def Phase.waiting? : Phase → Option ErrorObj
  | .evaluated o => o.error?
  | .getQueued o => o.error?
  | _ => none

/-- A completed operation: how its evaluation ended, and what its caller saw. -/
structure Finished where
  client : Nat
  outcome : Outcome
  thrown : Option QuickJSException
  deriving DecidableEq

structure State where
  slot : Slot
  queue : List Event
  phase : Nat → Phase
  finished : List Finished

def init : State where
  slot := none
  queue := []
  phase := fun _ => .idle
  finished := []

inductive Act where
  -- client `c` starts an operation and posts the evaluation
  | submit (c : Nat)
  -- the owner thread serves the evaluation at the head of the queue, which ends with `o`
  | serveEval (o : Outcome)
  -- client `c` goes on to `checkException` and posts `_getException`
  | check (c : Nat)
  -- the owner thread serves the `_getException` at the head of the queue, and the JS code that
  -- runs leaves `residue` pending
  | serveGet (residue : Slot)

def State.setPhase (s : State) (c : Nat) (p : Phase) : Nat → Phase := Function.update s.phase c p

def step (s : State) : Act → Option State
  | .submit c =>
    if s.phase c = .idle then
      some { s with queue := s.queue ++ [.eval c], phase := s.setPhase c .evalQueued }
    else none
  | .serveEval o =>
    match s.queue with
    | .eval c :: rest =>
      if s.phase c = .evalQueued then
        some { s with
          slot := o.slotAfter s.slot, queue := rest, phase := s.setPhase c (.evaluated o) }
      else none
    | _ => none
  | .check c =>
    match s.phase c with
    | .evaluated o =>
      some { s with queue := s.queue ++ [.getException c], phase := s.setPhase c (.getQueued o) }
    | _ => none
  | .serveGet residue =>
    match s.queue with
    | .getException c :: rest =>
      match s.phase c with
      | .getQueued o =>
        let (result, slot) := getException s.slot residue
        some { s with
          slot := slot
          queue := rest
          phase := s.setPhase c .idle
          finished := s.finished ++ [⟨c, o, checkException result⟩] }
      | _ => none
    | _ => none

/-! ## The property and the guard -/

/-- The operation throws iff its own evaluation ended by throwing an Error object, and the exception
carries that Error. -/
structure Reported (f : Finished) : Prop where
  thrown_iff : f.thrown.isSome ↔ f.outcome.error?.isSome
  carries : ∀ q e, f.thrown = some q → f.outcome.error? = some e → q.Carries e

/-- An evaluation is served while a thrown Error waits for its `_getException` only if it raises
nothing, a `_getException` is served only while no other client's Error waits, and reading the Error
leaves no Error pending. -/
def Undisturbed (s : State) : Act → Prop
  | .serveEval o => o.touchesSlot = true → ∀ c, (s.phase c).waiting? = none
  | .serveGet residue =>
    residue.error? = none ∧
      ∀ c rest, s.queue = .getException c :: rest → ∀ d, d ≠ c → (s.phase d).waiting? = none
  | _ => True

/-! ## What one step can do -/

theorem step_submit {s s' : State} {c : Nat} (h : step s (.submit c) = some s') :
    s.phase c = .idle ∧
      s' = { s with queue := s.queue ++ [.eval c], phase := s.setPhase c .evalQueued } := by
  simp only [step] at h
  split at h
  · rename_i hidle
    exact ⟨hidle, (Option.some.inj h).symm⟩
  · cases h

theorem step_serveEval {s s' : State} {o : Outcome} (h : step s (.serveEval o) = some s') :
    ∃ c rest, s.queue = .eval c :: rest ∧ s.phase c = .evalQueued ∧
      s' = { s with
        slot := o.slotAfter s.slot, queue := rest, phase := s.setPhase c (.evaluated o) } := by
  simp only [step] at h
  split at h
  · rename_i c rest hq
    split at h
    · rename_i hp
      exact ⟨c, rest, hq, hp, (Option.some.inj h).symm⟩
    · cases h
  · cases h

theorem step_check {s s' : State} {c : Nat} (h : step s (.check c) = some s') :
    ∃ o, s.phase c = .evaluated o ∧
      s' = { s with
        queue := s.queue ++ [.getException c], phase := s.setPhase c (.getQueued o) } := by
  simp only [step] at h
  split at h
  · rename_i o hp
    exact ⟨o, hp, (Option.some.inj h).symm⟩
  · cases h

theorem step_serveGet {s s' : State} {residue : Slot} (h : step s (.serveGet residue) = some s') :
    ∃ c rest o, s.queue = .getException c :: rest ∧ s.phase c = .getQueued o ∧
      s' = { s with
        slot := (getException s.slot residue).2
        queue := rest
        phase := s.setPhase c .idle
        finished := s.finished ++ [⟨c, o, checkException (getException s.slot residue).1⟩] } := by
  simp only [step] at h
  split at h
  · rename_i c rest hq
    split at h
    · rename_i o hp
      exact ⟨c, rest, o, hq, hp, (Option.some.inj h).symm⟩
    · cases h
  · cases h

/-! ## The invariant

At most one thrown Error is waiting, the slot holds it, and otherwise the slot holds no Error
object. So the next `_getException` delivers to each client its own Error or nothing. -/

structure Inv (s : State) : Prop where
  inSlot : ∀ c e, (s.phase c).waiting? = some e → s.slot.error? = some e
  unique : ∀ c d, (s.phase c).waiting?.isSome → (s.phase d).waiting?.isSome → c = d
  slotWaits : ∀ e, s.slot.error? = some e → ∃ c, (s.phase c).waiting? = some e
  reported : ∀ f ∈ s.finished, Reported f

theorem waiting_setPhase (s : State) (c : Nat) (p : Phase) (d : Nat) :
    (s.setPhase c p d).waiting? = if d = c then p.waiting? else (s.phase d).waiting? := by
  unfold State.setPhase
  by_cases h : d = c
  · subst h
    simp
  · simp [h]

/-- A change of phase that leaves every waiting Error as it is keeps the invariant. -/
theorem Inv.of_waiting_eq {s s' : State} (hi : Inv s) (hslot : s'.slot = s.slot)
    (hfin : s'.finished = s.finished)
    (hwait : ∀ d, (s'.phase d).waiting? = (s.phase d).waiting?) : Inv s' where
  inSlot c e h := by
    rw [hslot]
    exact hi.inSlot c e (by rw [← hwait]; exact h)
  unique c d hc hd := hi.unique c d (by rw [← hwait]; exact hc) (by rw [← hwait]; exact hd)
  slotWaits e h := by
    rw [hslot] at h
    obtain ⟨c, hc⟩ := hi.slotWaits e h
    exact ⟨c, by rw [hwait]; exact hc⟩
  reported := by
    rw [hfin]
    exact hi.reported

/-- The shape every disturbing step leaves behind: only client `c` may wait, for what the slot
holds. -/
theorem Inv.of_single {s : State} (c : Nat) {err : Option ErrorObj} (hslot : s.slot.error? = err)
    (hwait : ∀ d, (s.phase d).waiting? = if d = c then err else none)
    (hrep : ∀ f ∈ s.finished, Reported f) : Inv s where
  inSlot d e h := by
    rw [hwait d] at h
    split at h
    · rw [hslot, h]
    · cases h
  unique d d' hd hd' := by
    rw [hwait] at hd hd'
    split at hd
    · rename_i hdc
      split at hd'
      · rename_i hdc'
        rw [hdc, hdc']
      · cases hd'
    · cases hd
  slotWaits e h := ⟨c, by rw [hwait c, if_pos rfl, ← hslot, h]⟩
  reported := hrep

theorem inv_init : Inv init :=
  Inv.of_single 0 rfl (fun d => by show none = _; split <;> rfl) (fun _ h => by cases h)

theorem inv_submit {s s' : State} {c : Nat} (hi : Inv s) (h : step s (.submit c) = some s') :
    Inv s' := by
  obtain ⟨hidle, rfl⟩ := step_submit h
  refine hi.of_waiting_eq rfl rfl fun d => ?_
  show (s.setPhase c .evalQueued d).waiting? = _
  rw [waiting_setPhase]
  split
  · rename_i hd
    rw [hd, hidle]
    rfl
  · rfl

theorem inv_check {s s' : State} {c : Nat} (hi : Inv s) (h : step s (.check c) = some s') :
    Inv s' := by
  obtain ⟨o, hp, rfl⟩ := step_check h
  refine hi.of_waiting_eq rfl rfl fun d => ?_
  show (s.setPhase c (.getQueued o) d).waiting? = _
  rw [waiting_setPhase]
  split
  · rename_i hd
    rw [hd, hp]
    rfl
  · rfl

theorem inv_serveEval {s s' : State} {o : Outcome} (hi : Inv s) (hg : Undisturbed s (.serveEval o))
    (h : step s (.serveEval o) = some s') : Inv s' := by
  obtain ⟨c, rest, _, hp, rfl⟩ := step_serveEval h
  by_cases ht : o.touchesSlot = true
  · -- the evaluation writes the slot, and no Error was waiting
    have hnone : ∀ d, (s.phase d).waiting? = none := hg ht
    refine Inv.of_single c (slotAfter_of_touchesSlot ht s.slot) (fun d => ?_) hi.reported
    show (s.setPhase c (.evaluated o) d).waiting? = _
    rw [waiting_setPhase, hnone d]
    rfl
  · -- the evaluation leaves the slot alone and has no Error to report
    obtain ⟨hslot, herr⟩ := of_not_touchesSlot ht s.slot
    refine hi.of_waiting_eq hslot rfl fun d => ?_
    show (s.setPhase c (.evaluated o) d).waiting? = _
    rw [waiting_setPhase]
    split
    · rename_i hd
      rw [hd, hp]
      exact herr
    · rfl

/-- A served `_getException` gives its client the client's own Error, or nothing. -/
theorem slot_error_of_getQueued {s : State} {c : Nat} {o : Outcome} (hi : Inv s)
    (hp : s.phase c = .getQueued o) (hothers : ∀ d, d ≠ c → (s.phase d).waiting? = none) :
    s.slot.error? = o.error? := by
  have hown : (s.phase c).waiting? = o.error? := by
    rw [hp]
    rfl
  cases herr : s.slot.error? with
  | some e =>
    -- an Error in the slot is waited for, and only `c` can be the one who waits
    obtain ⟨d, hd⟩ := hi.slotWaits e herr
    by_cases hdc : d = c
    · rw [← hown, ← hdc, hd]
    · rw [hothers d hdc] at hd
      cases hd
  | none =>
    cases hoe : o.error? with
    | none => rfl
    | some e =>
      rw [hoe] at hown
      have := hi.inSlot c e hown
      rw [herr] at this
      cases this

theorem reported_of_slot {s : State} {c : Nat} {o : Outcome} (residue : Slot)
    (h : s.slot.error? = o.error?) :
    Reported ⟨c, o, checkException (getException s.slot residue).1⟩ where
  thrown_iff := by
    show (checkException (getException s.slot residue).1).isSome ↔ o.error?.isSome
    rw [checkException_getException, h, Option.isSome_map]
  carries q e hq he := by
    have hq : checkException (getException s.slot residue).1 = some q := hq
    have he : o.error? = some e := he
    rw [checkException_getException, h, he] at hq
    cases hq
    exact ofError_carries e

theorem inv_serveGet {s s' : State} {residue : Slot} (hi : Inv s)
    (hg : Undisturbed s (.serveGet residue)) (h : step s (.serveGet residue) = some s') :
    Inv s' := by
  obtain ⟨c, rest, o, hq, hp, rfl⟩ := step_serveGet h
  obtain ⟨hres, hothers⟩ := hg
  have hothers := hothers c rest hq
  have hslot : s.slot.error? = o.error? := slot_error_of_getQueued hi hp hothers
  have hslot' : Slot.error? (getException s.slot residue).2 = none := by
    rw [getException_slot]
    split
    · exact hres
    · rfl
  refine Inv.of_single c hslot' (fun d => ?_) fun f hf => ?_
  · show (s.setPhase c .idle d).waiting? = _
    rw [waiting_setPhase]
    split
    · rfl
    · rename_i hd
      exact hothers d hd
  · rcases List.mem_append.mp hf with hf | hf
    · exact hi.reported f hf
    · rw [List.mem_singleton.mp hf]
      exact reported_of_slot residue hslot

theorem inv_step {s s' : State} {a : Act} (hi : Inv s) (hg : Undisturbed s a)
    (h : step s a = some s') : Inv s' := by
  cases a with
  | submit c => exact inv_submit hi h
  | serveEval o => exact inv_serveEval hi hg h
  | check c => exact inv_check hi h
  | serveGet residue => exact inv_serveGet hi hg h

/-! ## Delivery along undisturbed schedules -/

def sampleError : ErrorObj where
  id := 1
  name := some "TypeError"
  title := some "TypeError: no"
  stack := [some "    at <eval>\n"]

end QuickJSBridge.ErrorDelivery
