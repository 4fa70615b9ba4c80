import QuickJSBridge.Java.HandleRegistry

/-!
# The operations of a context that is closed

`JSContext.checkReleased()` is the guard that the public operations of a context and of its handles
start with. It drains the release pool through the native context, then throws
`Context disposed error` if the context was closed. Not every operation starts with it, and
`checkRuntime` of another handle asks that handle's own context.

* `Op`, `Op.body` — the public operations that reach native code, each as the guards and native
  calls it makes, in the order of the source;
* `runBody` — what a body does to the contexts of one runtime;
* `Disposed` — no native call with a context's pointer after its `_releaseContext`, and every
  operation on a closed context throws `Context disposed error`;
* `Op.Guarded`, `Covered` — on a closed context only operations whose guard comes first, with an
  empty pool, and no handle of a closed context as an argument;
* `disposed_iff_covered` — a run keeps `Disposed` iff its steps are all covered.

Operations that only call others one after the other (`append`, `appendJavascriptInterface`,
`toJSONObject`, `toJSONArray`, `length`) are sequences of steps. `Undefined` overrides the others of
its operations with an `UnsupportedOperationException` before any native call.
-/

namespace QuickJSBridge.ContextOps

open EventQueue (NativeMethod)

/-! ## Bodies -/

/-- A handle that is passed to an operation. -/
structure Arg where
  context : Nat
  -- what `isUndefined()` answers
  undefined : Bool
  -- its context belongs to the same runtime
  sameRuntime : Bool
  deriving DecidableEq

/-- `checkRuntime` lets the value pass. -/
def Arg.accepted (v : Arg) : Bool := v.undefined || v.sameRuntime

inductive Stmt where
  -- `this.context.checkReleased()`
  | checkReleased
  -- a native call with the pointer of `this.context`
  | native (n : NativeMethod)
  -- `this.context.checkRuntime(value)`
  | checkRuntime (value : Option Arg)
  -- `throw new UnsupportedOperationException()`
  | unsupported
  deriving DecidableEq

/-- A parameter of `executeFunction2`. -/
inductive Param where
  -- `Integer`, `Double`, `Boolean` or `String`
  | scalar
  | handle (v : Arg)
  -- anything else is pushed as `(JSValue) null`
  | other
  deriving DecidableEq

inductive Op where
  -- `JSContext`: `executeScript` in all its typed variants, and `executeModuleScript`
  | executeScript
  -- `ES6Module.executeModuleScript`, `CommonJSModule.executeModuleScript`
  | executeES6Module
  | executeCommonJSModule
  | addPlugin
  -- `JSObject`: `set` of a scalar, `set(String, JSValue)`, and the latter on an `Undefined`
  | set
  | setValue (value : Option Arg)
  | setValueOfUndefined (value : Arg)
  -- `get` and the typed `getInteger`, `getString`, …
  | get
  -- `getType(String)`; whether a value was found
  | getTypeOfKey (found : Bool)
  | registerJavaMethod
  | registerClass
  -- `executeFunction` in all its typed variants
  | executeFunction (parameters : Option Arg)
  | executeFunction2 (parameters : List Param)
  | contains
  | getKeys
  -- with the number of annotated methods
  | addJavascriptInterface (methods : Nat)
  -- `JSArray`
  | arrayGet
  | push
  | pushValue (value : Option Arg)
  | getTypeOfIndex (found : Bool)
  -- `JSValue`
  | isUndefined
  | getType
  | newUndefined
  -- the public constructors `JSObject(context)`, `JSArray(context)`, `JSFunction(context, callback)`
  | newObject
  | newArray
  | newFunction
  -- `JSFunction.call`; whether the receiver is null
  | call (noReceiver : Bool) (parameters : Option Arg)
  deriving DecidableEq

/-- `JSArray.push` of a scalar -/
def pushBody : List Stmt := [.checkReleased, .native .arrayAdd]

/-- `JSArray.push(JSValue)` -/
def pushValueBody (value : Option Arg) : List Stmt := .checkRuntime value :: pushBody

/-- The constructors that take over a new handle: the copying constructor of `JSValue` ends with
`checkReleased`. -/
def newBody (n : NativeMethod) : List Stmt := [.native n, .checkReleased]

/-- `getType(key)` and `getType(index)`: `value.getType()` if a value was found. -/
def getTypeBody (found : Bool) : List Stmt :=
  if found then [.checkReleased, .native .getObjectType] else []

def setBody : List Stmt := [.checkReleased, .native .set]

def Param.body : Param → List Stmt
  | .scalar => pushBody
  | .handle v => pushValueBody (some v)
  | .other => pushValueBody none

/-- The body of operation `o` on context `p` or one of its handles. -/
def Op.body (p : Nat) : Op → List Stmt
  | .executeScript => [.native .executeScript, .native .getException]
  | .executeES6Module => [.checkReleased, .native .executeScript]
  | .executeCommonJSModule =>
    [.native .executeScript, .native .getException] ++ setBody ++ setBody
  | .addPlugin => [.checkReleased]
  | .set => setBody
  | .setValue value => .checkRuntime value :: setBody
  | .setValueOfUndefined value => [.checkRuntime (some value), .unsupported]
  | .get => [.checkReleased, .native .get]
  | .getTypeOfKey found => .native .getValue :: getTypeBody found
  | .registerJavaMethod => [.checkReleased, .native .registerJavaMethod]
  | .registerClass => [.native .newClass, .checkRuntime (some ⟨p, false, true⟩)] ++ setBody
  | .executeFunction parameters =>
    [.checkReleased, .checkRuntime parameters, .native .executeFunction, .native .getException]
  | .executeFunction2 parameters =>
    .checkReleased :: newBody .initNewJSArray ++ parameters.flatMap Param.body ++
      [.native .executeFunction]
  | .contains => [.checkReleased, .native .contains]
  | .getKeys => [.checkReleased, .native .getKeys]
  | .addJavascriptInterface methods =>
    .checkReleased :: newBody .initNewJSObject ++
      (List.replicate methods [.checkReleased, .native .registerJavaMethod]).flatten ++
      .checkRuntime (some ⟨p, false, true⟩) :: setBody
  | .arrayGet => [.checkReleased, .native .arrayGet]
  | .push => pushBody
  | .pushValue value => pushValueBody value
  | .getTypeOfIndex found => [.checkReleased, .native .arrayGetValue] ++ getTypeBody found
  | .isUndefined => [.native .isUndefined]
  | .getType => [.checkReleased, .native .getObjectType]
  | .newUndefined => [.native .undefined]
  | .newObject => newBody .initNewJSObject
  | .newArray => newBody .initNewJSArray
  | .newFunction => newBody .initNewJSFunction
  | .call noReceiver parameters =>
    [.checkReleased, .checkRuntime parameters] ++ (if noReceiver then [.native .undefined] else []) ++
      [.native .executeFunction2, .native .getException]

/-! ## Runs -/

/-- The contexts of one runtime, numbered. -/
abbrev Contexts := Nat → Registry

inductive Outcome where
  | normal
  -- `Error("Context disposed error")`
  | disposed
  -- `Error("Invalid target runtime")`
  | invalidRuntime
  | unsupported
  deriving DecidableEq

def callNative (n : NativeMethod) (r : Registry) : Registry :=
  { r with calls := r.calls ++ [.native n] }

def Contexts.modify (cs : Contexts) (p : Nat) (f : Registry → Registry) : Contexts :=
  Function.update cs p (f (cs p))

def runBody (p : Nat) : List Stmt → Contexts → Contexts × Outcome
  | [], cs => (cs, .normal)
  | .checkReleased :: rest, cs =>
    let cs := cs.modify p Registry.checkReleaseObjPtrPool
    if (cs p).released then (cs, .disposed) else runBody p rest cs
  | .native n :: rest, cs => runBody p rest (cs.modify p (callNative n))
  | .checkRuntime none :: rest, cs => runBody p rest cs
  | .checkRuntime (some v) :: rest, cs =>
    let cs := cs.modify v.context (callNative .isUndefined)
    if v.accepted then runBody p rest cs else (cs, .invalidRuntime)
  | .unsupported :: _, cs => (cs, .unsupported)

/-- How an operation ended, and whether its context was closed when it was called. -/
structure Result where
  closed : Bool
  outcome : Outcome
  deriving DecidableEq

structure State where
  contexts : Contexts
  results : List Result

inductive Act where
  -- a public operation on context `p` or one of its handles
  | op (p : Nat) (o : Op)
  -- a handle of context `p` is made, collected or finalized, or `p` is closed
  | handle (p : Nat) (a : Registry.Act)

def init (hash : Nat → Hash) : State where
  contexts := fun p => Registry.init (hash p)
  results := []

def step (s : State) : Act → Option State
  | .op p o =>
    let (cs, outcome) := runBody p (o.body p) s.contexts
    some ⟨cs, s.results ++ [⟨(s.contexts p).released, outcome⟩]⟩
  | .handle p a =>
    -- the drain of `checkReleased` belongs to an operation
    if a = .checkReleased then none
    else ((s.contexts p).step a).map fun r => { s with contexts := Function.update s.contexts p r }

/-! ## The property and the guard -/

/-- No native call with a context's pointer follows its `_releaseContext`, and the operations on
closed contexts threw `Context disposed error`. -/
structure Disposed (s : State) : Prop where
  noLateCall : ∀ p, Machine.NothingAfter (.native .releaseContext) (s.contexts p).calls
  thrown : ∀ r ∈ s.results, r.closed = true → r.outcome = .disposed

def Contexts.IsOpen (cs : Contexts) (p : Nat) : Prop := (cs p).released = false

/-- On a closed context operation `o` comes to `checkReleased` before any native call with a closed
context's pointer. -/
def Op.Guarded (cs : Contexts) : Op → Prop
  | .executeScript | .executeCommonJSModule | .setValueOfUndefined _ | .getTypeOfKey _
  | .registerClass | .isUndefined | .newUndefined | .newObject | .newArray | .newFunction => False
  | .setValue value | .pushValue value =>
    ∀ v, value = some v → cs.IsOpen v.context ∧ v.accepted = true
  | _ => True

/-- The handles that a body passes to `checkRuntime`, up to the first that is not accepted. -/
def checkedArgs : List Stmt → List Arg
  | .checkRuntime (some v) :: rest => v :: if v.accepted then checkedArgs rest else []
  | .unsupported :: _ => []
  | _ :: rest => checkedArgs rest
  | [] => []

/-- On a closed context: a guarded operation, with nothing in the release pool. On an open one: no
handle of a closed context as an argument. -/
def Covered (s : State) : Act → Prop
  | .op p o =>
    if (s.contexts p).released then o.Guarded s.contexts ∧ (s.contexts p).releaseObjPtrPool = []
    else ∀ v ∈ checkedArgs (o.body p), s.contexts.IsOpen v.context
  | .handle _ _ => True

/-! ## What a body does to the contexts -/

/-- From `cs` to `cs'` no flag changes, and the calls grow by others than `_releaseContext`. -/
def Grows (cs cs' : Contexts) : Prop :=
  ∀ q, (cs' q).released = (cs q).released ∧
    ∃ more, (cs' q).calls = (cs q).calls ++ more ∧ .native .releaseContext ∉ more

/-- No call with the pointer of a closed context. -/
def Quiet (cs cs' : Contexts) : Prop :=
  ∀ q, (cs q).released = true → (cs' q).calls = (cs q).calls

theorem Grows.refl (cs : Contexts) : Grows cs cs :=
  fun _ => ⟨rfl, [], (List.append_nil _).symm, List.not_mem_nil⟩

theorem Grows.trans {cs cs' cs'' : Contexts} (h : Grows cs cs') (h' : Grows cs' cs'') :
    Grows cs cs'' := by
  intro q
  obtain ⟨hrel, more, hcalls, hno⟩ := h q
  obtain ⟨hrel', more', hcalls', hno'⟩ := h' q
  refine ⟨hrel'.trans hrel, more ++ more', ?_, ?_⟩
  · rw [hcalls', hcalls, List.append_assoc]
  · intro hm
    rcases List.mem_append.mp hm with hm | hm
    · exact hno hm
    · exact hno' hm

/-- The calls only grow, so a quiet stretch is quiet in both its parts. -/
theorem quiet_trans_iff {cs cs' cs'' : Contexts} (h : Grows cs cs') (h' : Grows cs' cs'') :
    Quiet cs cs'' ↔ Quiet cs cs' ∧ Quiet cs' cs'' := by
  constructor
  · intro hq
    have hfirst : Quiet cs cs' := by
      intro q hrel
      obtain ⟨_, more, hcalls, _⟩ := h q
      obtain ⟨_, more', hcalls', _⟩ := h' q
      have hall := hq q hrel
      rw [hcalls', hcalls, List.append_assoc] at hall
      have hmore : more ++ more' = [] := List.append_right_eq_self.mp hall
      rw [hcalls, (List.append_eq_nil_iff.mp hmore).1, List.append_nil]
    refine ⟨hfirst, fun q hrel => ?_⟩
    rw [(h q).1] at hrel
    rw [hq q hrel, hfirst q hrel]
  · rintro ⟨hq, hq'⟩ q hrel
    rw [hq' q (by rw [(h q).1]; exact hrel), hq q hrel]

theorem modify_self (cs : Contexts) (p : Nat) (f : Registry → Registry) :
    cs.modify p f p = f (cs p) :=
  Function.update_self ..

theorem modify_of_ne (cs : Contexts) {p q : Nat} (f : Registry → Registry) (h : q ≠ p) :
    cs.modify p f q = cs q :=
  Function.update_of_ne h ..

/-- A change of context `p` that keeps the flag and adds `more` to its calls. -/
theorem grows_modify {cs : Contexts} {p : Nat} {f : Registry → Registry} {more : List Call}
    (hrel : (f (cs p)).released = (cs p).released) (hcalls : (f (cs p)).calls = (cs p).calls ++ more)
    (hno : .native .releaseContext ∉ more) : Grows cs (cs.modify p f) := by
  intro q
  by_cases hq : q = p
  · rw [hq, modify_self]
    exact ⟨hrel, more, hcalls, hno⟩
  · rw [modify_of_ne cs f hq]
    exact Grows.refl cs q

theorem quiet_modify {cs : Contexts} {p : Nat} {f : Registry → Registry} {more : List Call}
    (hcalls : (f (cs p)).calls = (cs p).calls ++ more) :
    Quiet cs (cs.modify p f) ↔ (cs.IsOpen p ∨ more = []) := by
  constructor
  · intro hq
    cases hrel : (cs p).released with
    | false => exact Or.inl hrel
    | true =>
      have hsame := hq p hrel
      rw [modify_self, hcalls] at hsame
      exact Or.inr (List.append_right_eq_self.mp hsame)
  · intro hor q hrel
    by_cases hq : q = p
    · rw [hq] at hrel ⊢
      rcases hor with hopen | hnil
      · rw [Contexts.IsOpen, hrel] at hopen
        cases hopen
      · rw [modify_self, hcalls, hnil, List.append_nil]
    · rw [modify_of_ne cs f hq]

theorem grows_drain (cs : Contexts) (p : Nat) :
    Grows cs (cs.modify p Registry.checkReleaseObjPtrPool) := by
  refine grows_modify rfl rfl ?_
  intro hm
  obtain ⟨id, _, heq⟩ := List.mem_map.mp hm
  cases heq

theorem quiet_drain (cs : Contexts) (p : Nat) :
    Quiet cs (cs.modify p Registry.checkReleaseObjPtrPool) ↔
      (cs.IsOpen p ∨ (cs p).releaseObjPtrPool = []) :=
  (quiet_modify rfl).trans (or_congr Iff.rfl List.map_eq_nil_iff)

theorem grows_callNative (cs : Contexts) (p : Nat) {n : NativeMethod} (h : n ≠ .releaseContext) :
    Grows cs (cs.modify p (callNative n)) := by
  refine grows_modify rfl rfl ?_
  intro hm
  exact h (Call.native.inj (List.mem_singleton.mp hm)).symm

theorem quiet_callNative (cs : Contexts) (p : Nat) (n : NativeMethod) :
    Quiet cs (cs.modify p (callNative n)) ↔ cs.IsOpen p := by
  refine (quiet_modify rfl).trans ⟨fun h => ?_, Or.inl⟩
  rcases h with h | h
  · exact h
  · cases h

/-- `_releaseContext` is called by `JSContext.close` only. -/
def NoRelease (body : List Stmt) : Prop := .native .releaseContext ∉ body

theorem NoRelease.tail {stmt : Stmt} {rest : List Stmt} (h : NoRelease (stmt :: rest)) :
    NoRelease rest :=
  fun hm => h (List.mem_cons_of_mem _ hm)

theorem NoRelease.head {n : NativeMethod} {rest : List Stmt}
    (h : NoRelease (.native n :: rest)) : n ≠ .releaseContext := by
  rintro rfl
  exact h List.mem_cons_self

theorem grows_runBody {p : Nat} {body : List Stmt} (hno : NoRelease body) (cs : Contexts) :
    Grows cs (runBody p body cs).1 := by
  fun_induction runBody p body cs with
  | case1 cs => exact Grows.refl cs
  | case2 rest cs cs' hrel => exact grows_drain cs p
  | case3 rest cs cs' hrel ih => exact (grows_drain cs p).trans (ih hno.tail)
  | case4 n rest cs ih => exact (grows_callNative cs p hno.head).trans (ih hno.tail)
  | case5 rest cs ih => exact ih hno.tail
  | case6 v rest cs cs' hacc ih =>
    exact (grows_callNative cs v.context NativeMethod.noConfusion).trans (ih hno.tail)
  | case7 v rest cs cs' hacc => exact grows_callNative cs v.context NativeMethod.noConfusion
  | case8 rest cs => exact Grows.refl cs

theorem Grows.isOpen_iff {cs cs' : Contexts} (h : Grows cs cs') (q : Nat) :
    cs'.IsOpen q ↔ cs.IsOpen q := by
  unfold Contexts.IsOpen
  rw [(h q).1]

/-! ## Exactness: when a body is quiet -/

/-- On an open context: iff no handle of a closed context is checked. -/
theorem quiet_runBody_of_open {p : Nat} {body : List Stmt} (hno : NoRelease body) {cs : Contexts}
    (hopen : cs.IsOpen p) :
    Quiet cs (runBody p body cs).1 ↔ ∀ v ∈ checkedArgs body, cs.IsOpen v.context := by
  fun_induction runBody p body cs with
  | case1 cs => exact ⟨fun _ v hv => (by cases hv), fun _ _ _ => rfl⟩
  | case2 rest cs cs' hrel =>
    -- the flag was not set
    have hopen' := ((grows_drain cs p).isOpen_iff p).mpr hopen
    rw [Contexts.IsOpen, show (cs.modify p _ p).released = true from hrel] at hopen'
    cases hopen'
  | case3 rest cs cs' hrel ih =>
    have hg := grows_drain cs p
    rw [quiet_trans_iff hg (grows_runBody hno.tail _), ih hno.tail ((hg.isOpen_iff p).mpr hopen)]
    refine ⟨fun hq v hv => (hg.isOpen_iff _).mp (hq.2 v hv), fun hall => ⟨?_, fun v hv => ?_⟩⟩
    · exact (quiet_drain cs p).mpr (Or.inl hopen)
    · exact (hg.isOpen_iff _).mpr (hall v hv)
  | case4 n rest cs ih =>
    have hg := grows_callNative cs p hno.head
    rw [quiet_trans_iff hg (grows_runBody hno.tail _), ih hno.tail ((hg.isOpen_iff p).mpr hopen)]
    refine ⟨fun hq v hv => (hg.isOpen_iff _).mp (hq.2 v hv), fun hall => ⟨?_, fun v hv => ?_⟩⟩
    · exact (quiet_callNative cs p n).mpr hopen
    · exact (hg.isOpen_iff _).mpr (hall v hv)
  | case5 rest cs ih => exact ih hno.tail hopen
  | case6 v rest cs cs' hacc ih =>
    have hg : Grows cs cs' := grows_callNative cs v.context NativeMethod.noConfusion
    have hargs : checkedArgs (.checkRuntime (some v) :: rest) = v :: checkedArgs rest := by
      simp only [checkedArgs, hacc, if_true]
    rw [quiet_trans_iff hg (grows_runBody hno.tail _), ih hno.tail ((hg.isOpen_iff p).mpr hopen),
      hargs, List.forall_mem_cons]
    refine and_congr (quiet_callNative cs v.context _) ⟨fun hq w hw => ?_, fun hall w hw => ?_⟩
    · exact (hg.isOpen_iff _).mp (hq w hw)
    · exact (hg.isOpen_iff _).mpr (hall w hw)
  | case7 v rest cs cs' hacc =>
    have hargs : checkedArgs (.checkRuntime (some v) :: rest) = [v] := by
      simp only [checkedArgs, hacc]
      rfl
    rw [hargs, List.forall_mem_singleton]
    exact quiet_callNative cs v.context _
  | case8 rest cs => exact ⟨fun _ v hv => (by cases hv), fun _ _ _ => rfl⟩

/-- A body comes to `checkReleased` with nothing before it but `checkRuntime` of handles that pass and
whose contexts are open. -/
def Shielded (cs : Contexts) : List Stmt → Prop
  | .checkReleased :: _ => True
  | .checkRuntime none :: rest => Shielded cs rest
  | .checkRuntime (some v) :: rest => (cs.IsOpen v.context ∧ v.accepted = true) ∧ Shielded cs rest
  | _ => False

theorem Grows.shielded_iff {cs cs' : Contexts} (h : Grows cs cs') (body : List Stmt) :
    Shielded cs' body ↔ Shielded cs body := by
  fun_induction Shielded cs body with
  | case1 rest => exact Iff.rfl
  | case2 rest ih => exact ih
  | case3 v rest ih =>
    rw [Shielded, h.isOpen_iff, ih]
  | case4 body h1 h2 h3 =>
    unfold Shielded
    split
    · exact absurd rfl (h1 _)
    · exact absurd rfl (h2 _)
    · exact absurd rfl (h3 _ _)
    · exact Iff.rfl

/-- On a closed context: iff the body is shielded and the drain has nothing to release. -/
theorem quiet_runBody_of_closed {p : Nat} {body : List Stmt} (hno : NoRelease body) {cs : Contexts}
    (hclosed : (cs p).released = true) :
    (Quiet cs (runBody p body cs).1 ∧ (runBody p body cs).2 = .disposed) ↔
      Shielded cs body ∧ (cs p).releaseObjPtrPool = [] := by
  have hnot : ¬ cs.IsOpen p := by
    rw [Contexts.IsOpen, hclosed]
    exact Bool.noConfusion
  fun_induction runBody p body cs with
  | case1 cs => exact ⟨fun h => (by cases h.2), fun h => h.1.elim⟩
  | case2 rest cs cs' hrel =>
    have hq := (quiet_drain cs p).trans (or_iff_right hnot)
    exact ⟨fun h => ⟨trivial, hq.mp h.1⟩, fun h => ⟨hq.mpr h.2, rfl⟩⟩
  | case3 rest cs cs' hrel ih =>
    exact absurd (((grows_drain cs p) p).1.trans hclosed) hrel
  | case4 n rest cs ih =>
    have hg := grows_callNative cs p hno.head
    refine ⟨fun h => ?_, fun h => h.1.elim⟩
    have hfirst := ((quiet_trans_iff hg (grows_runBody hno.tail _)).mp h.1).1
    exact absurd ((quiet_callNative cs p n).mp hfirst) hnot
  | case5 rest cs ih => exact ih hno.tail hclosed hnot
  | case6 v rest cs cs' hacc ih =>
    have hg : Grows cs cs' := grows_callNative cs v.context NativeMethod.noConfusion
    have hq := quiet_callNative cs v.context .isUndefined
    have hrec := ih hno.tail (((hg p).1).trans hclosed) (fun h => hnot ((hg.isOpen_iff p).mp h))
    rw [quiet_trans_iff hg (grows_runBody hno.tail _), and_assoc]
    refine (and_congr Iff.rfl hrec).trans ?_
    rw [hg.shielded_iff, Shielded]
    constructor
    · rintro ⟨hfirst, hsh, hpool⟩
      have hv := hq.mp hfirst
      have hne : p ≠ v.context := fun heq => hnot (heq ▸ hv)
      rw [show cs' p = cs p from modify_of_ne cs _ hne] at hpool
      exact ⟨⟨⟨hv, hacc⟩, hsh⟩, hpool⟩
    · rintro ⟨⟨⟨hv, _⟩, hsh⟩, hpool⟩
      have hne : p ≠ v.context := fun heq => hnot (heq ▸ hv)
      rw [← show cs' p = cs p from modify_of_ne cs _ hne] at hpool
      exact ⟨hq.mpr hv, hsh, hpool⟩
  | case7 v rest cs cs' hacc =>
    exact ⟨fun h => (by cases h.2), fun h => absurd h.1.1.2 hacc⟩
  | case8 rest cs => exact ⟨fun h => (by cases h.2), fun h => h.1.elim⟩

/-! ## The operations -/

theorem noRelease_param (param : Param) : NoRelease param.body := by
  match param with
  | .scalar => simp [NoRelease, Param.body, pushBody]
  | .handle v => simp [NoRelease, Param.body, pushValueBody, pushBody]
  | .other => simp [NoRelease, Param.body, pushValueBody, pushBody]

theorem noRelease_body (p : Nat) (o : Op) : NoRelease (o.body p) := by
  cases o with
  | executeFunction2 parameters =>
    have hparams : .native .releaseContext ∉ parameters.flatMap Param.body := by
      intro hm
      obtain ⟨param, _, hm⟩ := List.mem_flatMap.mp hm
      exact noRelease_param param hm
    simp [NoRelease, Op.body, newBody, hparams]
  | addJavascriptInterface methods =>
    have hmethods : .native .releaseContext ∉
        (List.replicate methods [Stmt.checkReleased, .native .registerJavaMethod]).flatten := by
      intro hm
      obtain ⟨l, hl, hm⟩ := List.mem_flatten.mp hm
      rw [(List.mem_replicate.mp hl).2] at hm
      simp at hm
    simp [NoRelease, Op.body, newBody, setBody, hmethods]
  | getTypeOfKey found => cases found <;> simp [NoRelease, Op.body, getTypeBody]
  | getTypeOfIndex found => cases found <;> simp [NoRelease, Op.body, getTypeBody]
  | call noReceiver parameters => cases noReceiver <;> simp [NoRelease, Op.body]
  | _ => simp [NoRelease, Op.body, setBody, pushBody, pushValueBody, newBody]

/-- `Op.Guarded` says of each operation whether its body is shielded. -/
theorem shielded_body_iff (cs : Contexts) (p : Nat) (o : Op) :
    Shielded cs (o.body p) ↔ o.Guarded cs := by
  cases o with
  | setValue value =>
    cases value with
    | none => simp [Op.body, Shielded, Op.Guarded, setBody]
    | some v => simp [Op.body, Shielded, Op.Guarded, setBody]
  | pushValue value =>
    cases value with
    | none => simp [Op.body, Shielded, Op.Guarded, pushValueBody, pushBody]
    | some v => simp [Op.body, Shielded, Op.Guarded, pushValueBody, pushBody]
  | _ => simp [Op.body, Shielded, Op.Guarded, setBody, pushBody, newBody]

/-! ## The invariant

Whatever the guard, the handles of each context stay settled and a closed context has its
`_releaseContext` among its calls. -/

structure Inv (s : State) : Prop where
  settled : ∀ p, (s.contexts p).Settled
  closed : ∀ p, (s.contexts p).released = true → .native .releaseContext ∈ (s.contexts p).calls

theorem settled_callNative {r : Registry} {n : NativeMethod} (hr : r.Settled)
    (hn : n ≠ .releaseContext) : (callNative n r).Settled where
  passed id hm := by
    rcases List.mem_append.mp hm with hm | hm
    · exact hr.passed id hm
    · cases List.mem_singleton.mp hm
  pooled := hr.pooled
  notClosed hrel hm := by
    rcases List.mem_append.mp hm with hm | hm
    · exact hr.notClosed hrel hm
    · exact hn (Call.native.inj (List.mem_singleton.mp hm)).symm

theorem settled_modify {cs : Contexts} {p : Nat} {f : Registry → Registry}
    (hcs : ∀ q, (cs q).Settled) (hf : (f (cs p)).Settled) : ∀ q, (cs.modify p f q).Settled := by
  intro q
  by_cases hq : q = p
  · rw [hq, modify_self]
    exact hf
  · rw [modify_of_ne cs f hq]
    exact hcs q

theorem settled_runBody {p : Nat} {body : List Stmt} (hno : NoRelease body) {cs : Contexts}
    (hcs : ∀ q, (cs q).Settled) : ∀ q, ((runBody p body cs).1 q).Settled := by
  fun_induction runBody p body cs with
  | case1 cs => exact hcs
  | case2 rest cs cs' hrel => exact settled_modify hcs (Registry.settled_drain (hcs p))
  | case3 rest cs cs' hrel ih =>
    exact ih hno.tail (settled_modify hcs (Registry.settled_drain (hcs p)))
  | case4 n rest cs ih =>
    exact ih hno.tail (settled_modify hcs (settled_callNative (hcs p) hno.head))
  | case5 rest cs ih => exact ih hno.tail hcs
  | case6 v rest cs cs' hacc ih =>
    exact ih hno.tail
      (settled_modify hcs (settled_callNative (hcs v.context) NativeMethod.noConfusion))
  | case7 v rest cs cs' hacc =>
    exact settled_modify hcs (settled_callNative (hcs v.context) NativeMethod.noConfusion)
  | case8 rest cs => exact hcs

theorem inv_init (hash : Nat → Hash) : Inv (init hash) where
  settled p := Registry.settled_init (hash p)
  closed p h := by cases h

theorem inv_op {s s' : State} {p : Nat} {o : Op} (hi : Inv s) (h : step s (.op p o) = some s') :
    Inv s' := by
  rw [← Option.some.inj h]
  have hno := noRelease_body p o
  refine ⟨settled_runBody hno hi.settled, fun q hrel => ?_⟩
  obtain ⟨hflag, more, hcalls, _⟩ := grows_runBody hno s.contexts (p := p) q
  show _ ∈ ((runBody p (o.body p) s.contexts).1 q).calls
  rw [hcalls]
  exact List.mem_append_left _ (hi.closed q (hflag ▸ hrel))

/-- The step of a handle or of `close()`, which is never the drain of an operation. -/
theorem step_handle {s s' : State} {p : Nat} {a : Registry.Act} (h : step s (.handle p a) = some s') :
    ∃ r, a ≠ .checkReleased ∧ (s.contexts p).step a = some r ∧
      s' = { s with contexts := Function.update s.contexts p r } := by
  simp only [step] at h
  split at h
  · cases h
  · rename_i hne
    obtain ⟨r, hr, hs'⟩ := Option.map_eq_some_iff.mp h
    exact ⟨r, hne, hr, hs'.symm⟩

/-- What a step of a context's registry leaves of its calls: settled, with `_releaseContext` among them
once it is closed, and still nothing after that. -/
theorem step_registry {r r' : Registry} {a : Registry.Act} (hr : r.Settled)
    (hclosed : r.released = true → .native .releaseContext ∈ r.calls) (hne : a ≠ .checkReleased)
    (h : r.step a = some r') :
    r'.Settled ∧ (r'.released = true → .native .releaseContext ∈ r'.calls) ∧
      (Machine.NothingAfter (.native .releaseContext) r.calls →
        Machine.NothingAfter (.native .releaseContext) r'.calls) := by
  have hr' : r'.Settled := Registry.settled_step hr h
  cases hrel : r.released with
  | true =>
    have hcalls := Registry.step_calls_of_released hrel hne h
    rw [hcalls]
    exact ⟨hr', fun _ => hclosed hrel, id⟩
  | false =>
    by_cases hclose : a = .close
    · rw [hclose] at h
      obtain ⟨before, hcalls, hbefore, _⟩ := Registry.close_passes hr hrel
      rw [← Option.some.inj h] at hr' ⊢
      show r.close.Settled ∧ (_ → _ ∈ r.close.calls) ∧ (_ → Machine.NothingAfter _ r.close.calls)
      rw [hcalls]
      exact ⟨hr', fun _ => List.mem_append_right before List.mem_cons_self,
        fun _ => Machine.nothingAfter_concat hbefore⟩
    · have hopen : r'.released = false := (Registry.step_released hclose h).trans hrel
      refine ⟨hr', fun hrel' => ?_, fun _ => Machine.nothingAfter_of_not_mem (hr'.notClosed hopen)⟩
      rw [hopen] at hrel'
      cases hrel'

theorem update_contexts (cs : Contexts) (p : Nat) (r : Registry) (q : Nat) :
    Function.update cs p r q = if q = p then r else cs q := by
  by_cases hq : q = p
  · rw [if_pos hq, hq]
    exact Function.update_self ..
  · rw [if_neg hq]
    exact Function.update_of_ne hq ..

theorem inv_handle {s s' : State} {p : Nat} {a : Registry.Act} (hi : Inv s)
    (h : step s (.handle p a) = some s') : Inv s' := by
  obtain ⟨r, hne, hr, rfl⟩ := step_handle h
  obtain ⟨hset, hmem, _⟩ := step_registry (hi.settled p) (hi.closed p) hne hr
  refine ⟨fun q => ?_, fun q hrel => ?_⟩
  · show (Function.update s.contexts p r q).Settled
    rw [update_contexts]
    split
    · exact hset
    · exact hi.settled q
  · have hrel : (Function.update s.contexts p r q).released = true := hrel
    show _ ∈ (Function.update s.contexts p r q).calls
    rw [update_contexts] at hrel ⊢
    split at hrel
    · rw [if_pos (by assumption)]
      exact hmem hrel
    · rw [if_neg (by assumption)]
      exact hi.closed q hrel

theorem disposed_handle {s s' : State} {p : Nat} {a : Registry.Act} (hi : Inv s) (hd : Disposed s)
    (h : step s (.handle p a) = some s') : Disposed s' := by
  obtain ⟨r, hne, hr, rfl⟩ := step_handle h
  obtain ⟨_, _, hlast⟩ := step_registry (hi.settled p) (hi.closed p) hne hr
  refine ⟨fun q => ?_, hd.thrown⟩
  show Machine.NothingAfter _ (Function.update s.contexts p r q).calls
  rw [update_contexts]
  split
  · exact hlast (hd.noLateCall p)
  · exact hd.noLateCall q

theorem inv_step {s s' : State} {a : Act} (hi : Inv s) (h : step s a = some s') : Inv s' := by
  cases a with
  | op p o => exact inv_op hi h
  | handle p a => exact inv_handle hi h

/-! ## Exactness: one step keeps `Disposed` iff it is covered -/

theorem noLateCall_iff_quiet {s : State} {cs : Contexts} (hi : Inv s) (hd : Disposed s)
    (hg : Grows s.contexts cs) :
    (∀ p, Machine.NothingAfter (.native .releaseContext) (cs p).calls) ↔ Quiet s.contexts cs := by
  constructor
  · intro hlast q hrel
    obtain ⟨_, more, hcalls, _⟩ := hg q
    have hq := hlast q
    rw [hcalls, Machine.nothingAfter_append_iff (hi.closed q hrel)] at hq
    rw [hcalls, hq.2, List.append_nil]
  · intro hquiet q
    cases hrel : (s.contexts q).released with
    | true =>
      rw [hquiet q hrel]
      exact hd.noLateCall q
    | false =>
      obtain ⟨_, more, hcalls, hmore⟩ := hg q
      apply Machine.nothingAfter_of_not_mem
      rw [hcalls]
      intro hm
      rcases List.mem_append.mp hm with hm | hm
      · exact (hi.settled q).notClosed hrel hm
      · exact hmore hm

theorem disposed_op {s s' : State} {p : Nat} {o : Op} (hi : Inv s) (hd : Disposed s)
    (h : step s (.op p o) = some s') : Disposed s' ↔ Covered s (.op p o) := by
  rw [← Option.some.inj h]
  have hno := noRelease_body p o
  have hcalls := noLateCall_iff_quiet hi hd (grows_runBody hno s.contexts (p := p))
  -- a new result is added, the others are as they should be
  have hsplit : Disposed ⟨(runBody p (o.body p) s.contexts).1, s.results ++
        [⟨(s.contexts p).released, (runBody p (o.body p) s.contexts).2⟩]⟩ ↔
      Quiet s.contexts (runBody p (o.body p) s.contexts).1 ∧
        ((s.contexts p).released = true → (runBody p (o.body p) s.contexts).2 = .disposed) := by
    constructor
    · intro hd'
      refine ⟨hcalls.mp hd'.noLateCall, fun hrel => ?_⟩
      exact hd'.thrown _ (List.mem_append_right _ List.mem_cons_self) hrel
    · rintro ⟨hq, hthrown⟩
      refine ⟨hcalls.mpr hq, fun r hr hrel => ?_⟩
      rcases List.mem_append.mp hr with hr | hr
      · exact hd.thrown r hr hrel
      · rw [List.mem_singleton.mp hr] at hrel ⊢
        exact hthrown hrel
  refine hsplit.trans ?_
  cases hrel : (s.contexts p).released with
  | true =>
    have hclosed := quiet_runBody_of_closed hno hrel
    rw [shielded_body_iff] at hclosed
    simp only [Covered, hrel, if_true, true_implies]
    exact hclosed
  | false =>
    have hopen := quiet_runBody_of_open hno (show s.contexts.IsOpen p from hrel)
    simp only [Covered, hrel, Bool.false_eq_true, if_false, false_implies, and_true]
    exact hopen

theorem disposed_step {s s' : State} {a : Act} (hi : Inv s) (hd : Disposed s) (hst : step s a = some s') :
    Disposed s' ↔ Covered s a := by
  cases a with
  | op p o => exact disposed_op hi hd hst
  | handle p a => exact ⟨fun _ => trivial, fun _ => disposed_handle hi hd hst⟩

/-! ## Closed contexts over whole runs -/

theorem disposed_init (hash : Nat → Hash) : Disposed (init hash) where
  noLateCall _ := Machine.nothingAfter_of_not_mem List.not_mem_nil
  thrown r hr := by cases hr

/-- **Disposed contexts.** In a run no native method is called with a closed context's pointer, and
every operation on a closed context throws `Context disposed error`, iff every step is covered. -/
theorem disposed_iff_covered {hash : Nat → Hash} {as : List Act} {s : State}
    (h : Machine.Run step (init hash) as s) :
    (∀ bs t, bs <+: as → Machine.Run step (init hash) bs t → Disposed t) ↔
      Machine.GuardedRun step Covered (init hash) as s :=
  (Machine.guardedRun_iff_forall_prefix_under (I := Inv) (P := Disposed)
    (fun _ _ _ hi hst => inv_step hi hst) (fun _ _ _ hi hd hst => disposed_step hi hd hst)
    (inv_init hash) (disposed_init hash) h).symm

/-- An object is made, its context is closed, and `get` on it throws. -/
theorem disposed_iff_covered_get :
    ∃ s, Machine.Run step (init fun _ => 7)
        [.op 0 .newObject, .handle 0 (.create 1 1000), .handle 0 .close, .op 0 .get] s ∧
      s.results = [⟨false, .normal⟩, ⟨true, .disposed⟩] ∧ Disposed s := by
  have hrun : ∃ s, Machine.GuardedRun step Covered (init fun _ => 7)
        [.op 0 .newObject, .handle 0 (.create 1 1000), .handle 0 .close, .op 0 .get] s ∧
      s.results = [⟨false, .normal⟩, ⟨true, .disposed⟩] := by
    refine ⟨_, .cons (fun v hv => (by cases hv)) rfl (.cons trivial rfl (.cons trivial rfl
      (.cons ⟨trivial, rfl⟩ rfl (.nil _)))), rfl⟩
  obtain ⟨s, hrun, hresults⟩ := hrun
  have hdisposed := (disposed_iff_covered hrun.run).mpr hrun
  exact ⟨s, hrun.run, hresults, hdisposed _ s List.prefix_rfl hrun.run⟩

/-- `executeScript` on a closed context does not look at the flag. -/
theorem not_disposed_executeScript :
    ¬ ∀ as s, Machine.Run step (init fun _ => 7) as s → Disposed s := by
  intro hall
  have hrun : ∃ s, Machine.Run step (init fun _ => 7) [.handle 0 .close, .op 0 .executeScript] s ∧
      (s.contexts 0).calls = [.releaseGlobal, .native .releaseContext, .native .executeScript,
        .native .getException] := by
    refine ⟨_, .cons trivial rfl (.cons trivial rfl (.nil _)), rfl⟩
  obtain ⟨s, hrun, hcalls⟩ := hrun
  have hlate := (hall _ s hrun).noLateCall 0 [.releaseGlobal] _ hcalls
  cases hlate

end QuickJSBridge.ContextOps
