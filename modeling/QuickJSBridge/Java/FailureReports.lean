import QuickJSBridge.Java.TypedRead

/-!
# Reports of failed evaluations

An evaluation that fails returns the exception marker, which `To_JObject` converts like any other value.
That it failed is found out afterwards: `checkException` asks whether the pending value is an Error object,
and reads that object's chain of `stack` values until it comes to undefined.

* `readException` — `_getException` with its loop, over a number of turns;
* `Evaluation` — how an evaluation ends; a module whose import has no script fails without throwing;
* `Operation.run` — the operations that evaluate, up to what their caller gets;
* `Reports` — if the evaluation failed the operation throws;
* `Reported` — the evaluations and operations for which it does;
* `reports_iff_reported` — the two coincide.
-/

namespace QuickJSBridge.FailureReports

variable {L : Layout}

/-! ## Reading an Error -/

/-- What `_getException` reads of an Error object. -/
structure ErrorReads where
  name : Option String
  title : Option String
  -- the values of `stackValue` one after the other, as C strings; `none` is undefined
  stackAt : Nat → Option (Option String)

/-- `while (!JS_IsUndefined(stackValue))` from the `k`-th value on; `none` if `fuel` turns do not end it. -/
def ErrorReads.readStack (x : ErrorReads) : Nat → Nat → Option (List (Option String))
  | 0, _ => none
  | fuel + 1, k =>
    match x.stackAt k with
    | none => some []
    | some text => (x.readStack fuel (k + 1)).map (text :: ·)

/-- `rt->current_exception` -/
inductive Pending where
  -- `JS_NULL`, or a value that is no Error object
  | other
  | error (x : ErrorReads)

/-- `_getException` -/
def readException (fuel : Nat) : Pending → Option (Option (List (Option String)))
  | .other => some none
  | .error x => (x.readStack fuel 0).map fun stack => some (x.name :: x.title :: stack)

/-- The chain of `stack` values comes to undefined. -/
def ErrorReads.Ends (x : ErrorReads) : Prop := ∃ k, x.stackAt k = none

theorem readStack_of_ends {x : ErrorReads} {k n : Nat} (h : x.stackAt (k + n) = none) :
    ∃ stack, x.readStack (n + 1) k = some stack := by
  induction n generalizing k with
  | zero =>
    have hk : x.stackAt k = none := h
    exact ⟨[], by unfold ErrorReads.readStack; rw [hk]⟩
  | succ n ih =>
    unfold ErrorReads.readStack
    cases hk : x.stackAt k with
    | none => exact ⟨[], rfl⟩
    | some text =>
      obtain ⟨stack, hstack⟩ := ih (k := k + 1) (by rw [← h, Nat.add_right_comm, Nat.add_assoc])
      exact ⟨text :: stack, by dsimp only; rw [hstack]; rfl⟩

theorem ends_of_readStack {x : ErrorReads} {fuel k : Nat} {stack : List (Option String)}
    (h : x.readStack fuel k = some stack) : x.Ends := by
  induction fuel generalizing k stack with
  | zero => cases h
  | succ fuel ih =>
    unfold ErrorReads.readStack at h
    split at h
    · rename_i hk
      exact ⟨k, hk⟩
    · obtain ⟨rest, hrest, _⟩ := Option.map_eq_some_iff.mp h
      exact ih hrest

/-- Once the chain has ended, what is read is what `getException` gives for the Error. -/
theorem readException_eq {x : ErrorReads} {fuel : Nat} {stack : List (Option String)}
    (h : x.readStack fuel 0 = some stack) (id : Nat) (residue : Slot) :
    readException fuel (.error x) =
      some (getException (some (.error ⟨id, x.name, x.title, stack⟩)) residue).1 := by
  show (x.readStack fuel 0).map _ = _
  rw [h]
  rfl

/-! ## Evaluations and operations -/

/-- How an evaluation ends. -/
inductive Evaluation (L : Layout) where
  -- with a value; `pending` is what it and the conversion of the value leave pending
  | completed (v : JSVal L) (pending : Pending)
  -- `JS_Throw`, of an Error object or of another value
  | threw (x : Option ErrorReads)
  -- with `JS_EXCEPTION` alone: the loader found no script for an import
  | notLoaded

namespace Evaluation

def value : Evaluation L → JSVal L
  | completed v _ => v
  | _ => .exception

/-- What is pending after the native call, `before` being pending before it. -/
def pendingAfter (before : Pending) : Evaluation L → Pending
  | completed _ pending => pending
  | threw none => .other
  | threw (some x) => .error x
  | notLoaded => before

def Failed : Evaluation L → Prop
  | completed _ _ => False
  | _ => True

end Evaluation

inductive Operation where
  -- `executeScript`, untyped and typed
  | script (type : Option ReadType)
  -- `executeFunction`, untyped and typed
  | function (type : Option ReadType)
  | function2
  -- `JSFunction.call`
  | call (type : TypeCode)
  -- `executeModule` and `executeModuleScript`; whether `getModuleScript` returned null to the former
  | commonJSModule (missing : Bool)
  | es6Module (missing : Bool)
  deriving DecidableEq

inductive OpResult where
  | result (r : JavaResult)
  -- the exception that Java code called by the evaluation threw, or that of `executeModule`
  | runtimeException

def OpResult.Throws : OpResult → Prop
  | .result .classCast | .result .nullPointer | .result (.threw _) | .runtimeException => True
  | .result (.returned _) | .result .undefinedBehaviour => False

/-- `QuickJS.checkException` before the rest of an operation. -/
def afterCheckException (fuel : Nat) (pending : Pending) (rest : JavaResult) : Option OpResult :=
  (readException fuel pending).map fun result =>
    match checkException result with
    | some q => .result (.threw q)
    | none => .result rest

/-- The `(JSObject)` cast of `CommonJSModule.executeModuleScript` and the `set` after it. -/
def asModule : JavaValue → JavaResult
  | .null => .nullPointer
  | .handle h => if h.cls.isJSObject then .returned (.handle h) else .classCast
  | _ => .classCast

namespace Operation

/-- The type that the native call is given. -/
def code : Operation → TypeCode
  | script (some T) | function (some T) => T.code
  | call type => type
  | script none | function none | function2 | commonJSModule _ => typeUnknown
  | es6Module _ => typeNull

/-- The operation calls `checkException`. -/
def checks : Operation → Bool
  | function2 | es6Module _ => false
  | _ => true

/-- What the caller gets of the converted result `x`, if no exception is reported. -/
def finish (x : JavaValue) : Operation → JavaResult
  | script none | function2 => .returned x
  | script (some T) => castTo T x
  | function none => .returned (checkType x typeUnknown)
  | function (some T) => castTo T (checkType x T.code)
  | call type => .returned (checkType x type)
  | commonJSModule _ => asModule x
  | es6Module _ => .returned .null

/-- `getModuleScript` returned null. -/
def missing : Operation → Bool
  | commonJSModule missing | es6Module missing => missing
  | _ => false

/-- An operation whose evaluation ends with `ev`; `javaThrew` if a Java exception is pending then. `none`
is an operation that `fuel` turns of the loop in `_getException` do not end. -/
def run (E : Engine L) (fuel : Nat) (before : Pending) (ev : Evaluation L) (javaThrew : Bool)
    (o : Operation) : Option OpResult :=
  if o.missing ∨ javaThrew then some .runtimeException
  else
    match (E.toJObject o.code none ev.value).1 with
    | none => some (.result .undefinedBehaviour)
    | some x =>
      if o.checks then afterCheckException fuel (ev.pendingAfter before) (o.finish x)
      else some (.result (o.finish x))

end Operation

/-! ## The property and the guard -/

/-- If the evaluation failed the operation throws. -/
def Reports (E : Engine L) (before : Pending) (ev : Evaluation L) (javaThrew : Bool)
    (o : Operation) : Prop :=
  ev.Failed → ∃ fuel r, o.run E fuel before ev javaThrew = some r ∧ r.Throws

/-- The exception marker fails the cast to the result type. -/
def Operation.rejectsMarker : Operation → Prop
  | .script (some .jsArray) | .script (some .jsObject) | .commonJSModule _ => True
  | _ => False

/-- The evaluation did not fail, or a Java exception ends the operation; or `checkException` is called and
finds an Error whose chain ends, or finds none where the marker is rejected. -/
def Reported (before : Pending) (ev : Evaluation L) (javaThrew : Bool) (o : Operation) : Prop :=
  ¬ ev.Failed ∨ o.missing = true ∨ javaThrew = true ∨
    (o.checks = true ∧
      match ev.pendingAfter before with
      | .error x => x.Ends
      | .other => o.rejectsMarker)

/-! ## The exception marker -/

/-- What `To_JObject` makes of the exception marker. -/
def markerAs (L : Layout) (code : TypeCode) : JavaValue :=
  if code = typeInteger then .integer 0
  else if code = typeDouble then .double canonicalNaN
  else if code = typeBoolean then .boolean false
  else if code = typeJSArray ∨ code = typeJSObject ∨ code = typeJSFunction ∨ code = typeUndefined then
    .handle ⟨.jsValue, javaFields (JSVal.exception (L := L)).raw⟩
  else .null

theorem getInt_exception : (JSVal.exception (L := L)).raw.getInt = 0 := by
  cases L <;> decide

theorem toJObject_exception (E : Engine L) (code : TypeCode) :
    (E.toJObject code none .exception).1 = some (markerAs L code) := by
  by_cases hunknown : code = typeUnknown
  · subst hunknown
    rfl
  have hnull : code ≠ typeNull := hunknown
  unfold Engine.toJObject markerAs
  rw [if_neg hunknown]
  dsimp only
  rw [if_neg hnull, getInt_exception]
  by_cases hinteger : code = typeInteger
  · rw [if_pos hinteger, if_pos hinteger]
  rw [if_neg hinteger, if_neg hinteger]
  by_cases hdouble : code = typeDouble
  · rw [if_pos hdouble, if_pos hdouble]
    rfl
  rw [if_neg hdouble, if_neg hdouble]
  by_cases hboolean : code = typeBoolean
  · rw [if_pos hboolean, if_pos hboolean]
    rfl
  rw [if_neg hboolean, if_neg hboolean]
  by_cases hstring : code = typeString
  · subst hstring
    rfl
  rw [if_neg hstring]
  by_cases hhandle :
      code = typeJSArray ∨ code = typeJSObject ∨ code = typeJSFunction ∨ code = typeUndefined
  · rw [if_pos hhandle, if_pos hhandle]
    rfl
  · rw [if_neg hhandle, if_neg hhandle]

/-- The result made of the marker throws exactly where the operation rejects it. -/
theorem throws_finish_marker (L : Layout) (o : Operation) :
    (OpResult.result (o.finish (markerAs L o.code))).Throws ↔ o.rejectsMarker := by
  cases o with
  | script type =>
    cases type with
    | none => exact Iff.rfl
    | some T => cases T <;> exact Iff.rfl
  | function type =>
    cases type with
    | none => exact Iff.rfl
    | some T => cases T <;> exact Iff.rfl
  | function2 | call _ | commonJSModule _ | es6Module _ => exact Iff.rfl

/-- The operations without `checkException` return what is made of the marker. -/
theorem not_rejectsMarker {o : Operation} (h : o.checks = false) : ¬ o.rejectsMarker := by
  cases o with
  | function2 | es6Module _ => exact id
  | script _ | function _ | call _ | commonJSModule _ => cases h

/-! ## The loop in `_getException` -/

/-- For an Error the query comes back iff the chain ends, and then the operation throws. -/
theorem afterCheckException_error {x : ErrorReads} {rest : JavaResult} :
    (∃ fuel r, afterCheckException fuel (.error x) rest = some r ∧ r.Throws) ↔ x.Ends := by
  constructor
  · rintro ⟨fuel, r, hrun, _⟩
    obtain ⟨result, hread, _⟩ := Option.map_eq_some_iff.mp hrun
    obtain ⟨stack, hstack, _⟩ := Option.map_eq_some_iff.mp hread
    exact ends_of_readStack hstack
  · rintro ⟨k, hk⟩
    obtain ⟨stack, hstack⟩ := readStack_of_ends (k := 0) (n := k) (by rw [Nat.zero_add]; exact hk)
    refine ⟨k + 1, .result (.threw (.ofError ⟨0, x.name, x.title, stack⟩)), ?_, trivial⟩
    unfold afterCheckException
    rw [readException_eq hstack 0 none]
    rfl

/-! ## The reports -/

/-- What an operation gets whose native call returned the marker. -/
theorem run_marker {E : Engine L} {fuel : Nat} {before : Pending} {ev : Evaluation L} {o : Operation}
    (hfailed : ev.Failed) (hmissing : o.missing = false) :
    o.run E fuel before ev false =
      if o.checks then afterCheckException fuel (ev.pendingAfter before) (o.finish (markerAs L o.code))
      else some (.result (o.finish (markerAs L o.code))) := by
  have hvalue : ev.value = .exception := by
    cases ev with
    | completed _ _ => exact hfailed.elim
    | threw _ | notLoaded => rfl
  unfold Operation.run
  rw [hmissing, if_neg (by decide), hvalue, toJObject_exception]

/-- **Reports of failures.** A failed evaluation makes its operation throw exactly if a Java exception ends
the operation, or `checkException` is called and finds an Error whose chain of stacks ends, or finds none
where the exception marker fails the cast of the result. -/
theorem reports_iff_reported (E : Engine L) (before : Pending) (ev : Evaluation L) (javaThrew : Bool)
    (o : Operation) : Reports E before ev javaThrew o ↔ Reported before ev javaThrew o := by
  by_cases hfailed : ev.Failed
  · unfold Reports Reported
    by_cases hthrew : o.missing = true ∨ javaThrew = true
    · have hrun : o.run E 0 before ev javaThrew = some .runtimeException := if_pos hthrew
      refine ⟨fun _ => Or.inr ?_, fun _ _ => ⟨0, _, hrun, trivial⟩⟩
      exact hthrew.elim Or.inl fun h => Or.inr (Or.inl h)
    · obtain ⟨hmissing, hjava⟩ := not_or.mp hthrew
      have hmissing' : o.missing = false := Bool.eq_false_iff.mpr hmissing
      have hjava' : javaThrew = false := Bool.eq_false_iff.mpr hjava
      subst hjava'
      have hguard : (¬ ev.Failed ∨ o.missing = true ∨ false = true ∨ (o.checks = true ∧
          match ev.pendingAfter before with
          | .error x => x.Ends
          | .other => o.rejectsMarker)) ↔ (o.checks = true ∧
          match ev.pendingAfter before with
          | .error x => x.Ends
          | .other => o.rejectsMarker) := by
        simp only [hfailed, hmissing', not_true_eq_false, Bool.false_eq_true, false_or]
      rw [hguard]
      simp only [run_marker hfailed hmissing', hfailed, true_implies]
      cases hchecks : o.checks with
      | false =>
        refine ⟨?_, fun h => absurd h.1 (by decide)⟩
        rintro ⟨_, r, hrun, hthrows⟩
        cases Option.some.inj hrun
        exact absurd ((throws_finish_marker L o).mp hthrows) (not_rejectsMarker hchecks)
      | true =>
        rw [and_iff_right rfl]
        cases ev.pendingAfter before with
        | error x => exact afterCheckException_error
        | other =>
          refine ⟨?_, fun h => ⟨0, _, rfl, (throws_finish_marker L o).mpr h⟩⟩
          rintro ⟨_, r, hrun, hthrows⟩
          cases Option.some.inj hrun
          exact (throws_finish_marker L o).mp hthrows
  · exact ⟨fun _ => Or.inl hfailed, fun _ h => absurd h hfailed⟩

/-- `executeScript("throw 1", null)` returns null. -/
theorem not_reports_throw_number :
    ¬ ∀ (L : Layout) (E : Engine L) (before : Pending) (ev : Evaluation L) (javaThrew : Bool)
      (o : Operation), Reports E before ev javaThrew o := by
  intro hall
  obtain ⟨fuel, r, hrun, hthrows⟩ :=
    hall .struct64 (sampleEngine .struct64) .other (.threw none) false (.script none) trivial
  have hreturned : r = .result (.returned .null) := (Option.some.inj hrun).symm
  rw [hreturned] at hthrows
  exact hthrows

end QuickJSBridge.FailureReports
