import Mathlib.Data.List.Basic
import Mathlib.Logic.Function.Basic
import QuickJSBridge.Lib.Machine

/-!
# Values of another runtime

Runtimes do not share objects. `checkRuntime` compares the runtime of a handle with that of the context an
operation is called on; but not every handle that an operation passes on is checked, and what a Java callback
returns to a script is not.

* `Operation.body` — the checks and native calls of the operations with operands, in the order of the source;
* `runBody` — what they do, with the ways in which `EventQueue.post` treats a native call;
* `Isolated` — every value that a native call receives is of the context's runtime, and an operation with a
  foreign operand throws `Invalid target runtime`;
* `Checked` — a foreign operand gets to its check and the check is answered; a callback returns none;
* `isolated_iff_checked` — a run keeps the first iff its steps have the second.
-/

namespace QuickJSBridge.Isolation

/-! ## Values and operations -/

/-- A value in the heap of a runtime. -/
structure Obj where
  runtime : Nat
  id : Nat
  deriving DecidableEq

/-- A `JSValue` of Java. -/
structure Handle where
  context : Nat
  -- `none` for undefined
  value : Option Obj
  deriving DecidableEq

/-- The runtimes are numbered, and so are their contexts. -/
structure Setting where
  runtime : Nat → Nat
  -- the thread that made the runtime
  owner : Nat → Nat
  -- whether the runtime has a `Handler`
  queue : Nat → Bool

inductive Stmt where
  -- `this.context.checkReleased()`
  | checkReleased
  -- `this.context.checkRuntime(value)`
  | checkRuntime (value : Option Handle)
  -- a native call on `this.context`, with the handles it is given
  | native (operands : List (Option Handle))
  -- `throw new UnsupportedOperationException()`
  | unsupported
  deriving DecidableEq

/-- An operation, with the handles that the client passes. -/
inductive Operation where
  -- on the context alone
  | executeScript
  -- on a handle alone: `get`, `registerJavaMethod`, …
  | get
  -- `JSObject.set(String, JSValue)`, `JSArray.push(JSValue)`
  | set (value : Option Handle)
  | push (value : Option Handle)
  -- in all its typed variants
  | executeFunction (parameters : Option Handle)
  -- a scalar parameter goes the way of null
  | executeFunction2 (parameters : List (Option Handle))
  -- `JSFunction.call`
  | call (receiver parameters : Option Handle)
  deriving DecidableEq

/-- `JSArray.push(JSValue)` on an array that is no operand, the one that `executeFunction2` makes. -/
def pushParameter (value : Option Handle) : List Stmt :=
  [.checkRuntime value, .checkReleased, .native [value]]

/-- The body of an operation on `this`. `Undefined` overrides `get`, what `set` calls, and
`_executeFunction`. -/
def Operation.body (this : Handle) : Operation → List Stmt
  | executeScript => [.native [], .native []]
  | get =>
    if this.value = none then [.unsupported] else [.checkReleased, .native [some this]]
  | set value =>
    .checkRuntime value ::
      if this.value = none then [.unsupported] else [.checkReleased, .native [some this, value]]
  | push value => [.checkRuntime value, .checkReleased, .native [some this, value]]
  | executeFunction parameters =>
    if this.value = none then [.unsupported]
    else [.checkReleased, .checkRuntime parameters, .native [some this, parameters], .native []]
  | executeFunction2 parameters =>
    [.checkReleased, .native [], .checkReleased] ++ parameters.flatMap pushParameter ++
      [.native [some this]]
  | call receiver parameters =>
    [.checkReleased, .checkRuntime parameters] ++ (if receiver = none then [.native []] else []) ++
      [.native [receiver, some this, parameters], .native []]

/-- The class of `this` has the operation: `push` is one of arrays, `call` one of functions. -/
def Operation.Has (this : Handle) : Operation → Prop
  | push _ | call _ _ => this.value ≠ none
  | _ => True

instance (this : Handle) (o : Operation) : Decidable (o.Has this) := by
  unfold Operation.Has
  split <;> infer_instance

def Operation.operands : Operation → List (Option Handle)
  | executeScript | get => []
  | set value | push value => [value]
  | executeFunction parameters => [parameters]
  | executeFunction2 parameters => parameters
  | call receiver parameters => [receiver, parameters]

/-! ## The machine -/

inductive Outcome where
  | returned
  -- `Error("Invalid target runtime")`
  | invalidRuntime
  -- `Error("Context disposed error")`
  | disposed
  -- the `Error` of `ThreadChecker`
  | wrongThread
  -- null is unboxed
  | nullPointer
  | unsupported
  deriving DecidableEq

structure Result where
  -- an operand was a value of another runtime
  offending : Bool
  outcome : Outcome
  deriving DecidableEq

structure State where
  -- the runtimes
  released : Nat → Bool
  -- the contexts
  closed : Nat → Bool
  -- there is something in the release pool of the context
  pooled : Nat → Bool
  handles : List Handle
  -- the values that native calls received, with the context
  received : List (Nat × Obj)
  results : List Result

def init : State where
  released := fun _ => false
  closed := fun _ => false
  pooled := fun _ => false
  handles := []
  received := []
  results := []

inductive Act where
  -- an operation on `this` that thread `t` calls
  | op (t : Nat) (this : Handle) (o : Operation)
  -- a constructor, a native call of context `p` or the call of a callback gives Java a handle
  | deliver (p : Nat) (o : Obj)
  | undefined (p : Nat)
  -- a Java callback or a constructor callback returns to a script of context `p`
  | callbackReturns (p : Nat) (value : Option Handle)
  -- a handle of context `p` is finalized
  | finalize (p : Nat)
  | closeContext (p : Nat)
  | closeRuntime (r : Nat)
  deriving DecidableEq

/-- How `EventQueue.post` treats a native call. -/
inductive Access where
  -- the runtime is released: null
  | null
  | wrongThread
  | runs
  deriving DecidableEq

section

variable (g : Setting)

/-- `EventQueue.post` and `postVoid` of runtime `r` on thread `t` -/
def post (s : State) (t r : Nat) : Access :=
  if s.released r then .null
  else if t = g.owner r ∨ g.queue r = true then .runs
  else .wrongThread

def valuesOf (operands : List (Option Handle)) : List Obj :=
  operands.filterMap fun h => h.bind Handle.value

def State.receive (s : State) (p : Nat) (operands : List (Option Handle)) : State :=
  { s with received := s.received ++ (valuesOf operands).map fun o => (p, o) }

/-- A body on context `p` -/
def runBody (t p : Nat) : List Stmt → State → State × Outcome
  | [], s => (s, .returned)
  | .checkReleased :: rest, s =>
    -- the pool is drained by `_releasePtr`
    if s.pooled p ∧ post g s t (g.runtime p) = .wrongThread then (s, .wrongThread)
    else
      let s := { s with pooled := Function.update s.pooled p false }
      if s.closed p ∨ s.released (g.runtime p) then (s, .disposed) else runBody t p rest s
  | .checkRuntime none :: rest, s => runBody t p rest s
  | .checkRuntime (some h) :: rest, s =>
    -- `value.isUndefined()` asks the runtime of the value
    match post g s t (g.runtime h.context) with
    | .null => (s, .nullPointer)
    | .wrongThread => (s, .wrongThread)
    | .runs =>
      if h.value = none ∨ g.runtime h.context = g.runtime p then runBody t p rest s
      else (s, .invalidRuntime)
  | .native operands :: rest, s =>
    match post g s t (g.runtime p) with
    | .null => runBody t p rest s
    | .wrongThread => (s, .wrongThread)
    | .runs => runBody t p rest (s.receive p operands)
  | .unsupported :: _, s => (s, .unsupported)

/-- The handle holds a value that is not of the runtime of context `p`. -/
def foreign (p : Nat) (h : Option Handle) : Bool :=
  (h.bind Handle.value).any fun o => o.runtime ≠ g.runtime p

/-- JS code of context `p` can come by the value: it is of its heap, or a native call brought it there. -/
def State.Reachable (s : State) (p : Nat) (o : Obj) : Prop :=
  o.runtime = g.runtime p ∨ ∃ x ∈ s.received, x.2 = o ∧ g.runtime x.1 = g.runtime p

instance (s : State) (p : Nat) (o : Obj) : Decidable (s.Reachable g p o) :=
  inferInstanceAs (Decidable (_ ∨ _))

def step (s : State) : Act → Option State
  | .op t this o =>
    if this ∈ s.handles ∧ o.Has this ∧ ∀ h ∈ o.operands, ∀ v ∈ h, v ∈ s.handles then
      let (s', outcome) := runBody g t this.context (o.body this) s
      some { s' with
        results := s'.results ++ [⟨o.operands.any (foreign g this.context), outcome⟩] }
    else none
  | .deliver p o => if s.Reachable g p o then some { s with handles := ⟨p, some o⟩ :: s.handles } else none
  | .undefined p => some { s with handles := ⟨p, none⟩ :: s.handles }
  | .callbackReturns p value =>
    if (∀ v ∈ value, v ∈ s.handles) ∧ s.released (g.runtime p) = false ∧ s.closed p = false then
      some { s.receive p [value] with
        results := s.results ++ [⟨foreign g p value, .returned⟩] }
    else none
  | .finalize p => some { s with pooled := Function.update s.pooled p true }
  | .closeContext p => some { s with closed := Function.update s.closed p true }
  | .closeRuntime r => some { s with released := Function.update s.released r true }

/-! ## The property and the guard -/

/-- The values that native calls received are of the runtime of the context. -/
def Own (received : List (Nat × Obj)) : Prop := ∀ x ∈ received, x.2.runtime = g.runtime x.1

/-- Native calls received no foreign value, and every operation that was given one threw. -/
structure Isolated (s : State) : Prop where
  own : Own g s.received
  thrown : ∀ r ∈ s.results, r.offending = true → r.outcome = .invalidRuntime

/-- `checkReleased` returns: the context is open, and the thread may drain the pool. -/
def Passes (s : State) (t p : Nat) : Prop :=
  s.closed p = false ∧ s.released (g.runtime p) = false ∧
    (s.pooled p = true → post g s t (g.runtime p) ≠ .wrongThread)

/-- A body gets to the check of a foreign handle, the runtimes of the handles checked so far answer, and no
native call before receives a foreign value. -/
def Rejects (s : State) (t p : Nat) : List Stmt → Prop
  | [] | .unsupported :: _ => False
  | .checkReleased :: rest => Passes g s t p ∧ Rejects s t p rest
  | .checkRuntime none :: rest => Rejects s t p rest
  | .checkRuntime (some h) :: rest =>
    post g s t (g.runtime h.context) = .runs ∧
      (h.value ≠ none ∧ g.runtime h.context ≠ g.runtime p ∨ Rejects s t p rest)
  | .native operands :: rest =>
    match post g s t (g.runtime p) with
    | .null => Rejects s t p rest
    | .wrongThread => False
    | .runs => (∀ h ∈ operands, foreign g p h = false) ∧ Rejects s t p rest

/-- An operation with a foreign operand gets to the check of one, and a callback returns none. -/
def Checked (s : State) : Act → Prop
  | .op t this o =>
    o.operands.any (foreign g this.context) = true → Rejects g s t this.context (o.body this)
  | .callbackReturns p value => foreign g p value = false
  | _ => True

/-- **The invariant.** A handle holds a value that JS code of its context can come by. -/
def Inv (s : State) : Prop :=
  ∀ h ∈ s.handles, ∀ o, h.value = some o → s.Reachable g h.context o

end

/-! ## What native calls receive -/

section

variable {g : Setting} {s s' : State} {t p : Nat}

theorem foreign_eq_false_iff {h : Option Handle} :
    foreign g p h = false ↔ ∀ v o, h = some v → v.value = some o → o.runtime = g.runtime p := by
  cases h with
  | none => exact ⟨fun _ _ _ h => (by cases h), fun _ => rfl⟩
  | some v =>
    unfold foreign
    rw [Option.bind_some, Option.any_eq_false]
    constructor
    · intro hall w o hw hvalue
      cases hw
      have hdec := hall o hvalue
      simpa using hdec
    · intro hall o hvalue
      have heq := hall v o rfl hvalue
      simpa using heq

theorem mem_valuesOf {operands : List (Option Handle)} {o : Obj} :
    o ∈ valuesOf operands ↔ ∃ v, some v ∈ operands ∧ v.value = some o := by
  unfold valuesOf
  rw [List.mem_filterMap]
  constructor
  · rintro ⟨h, hh, hvalue⟩
    obtain ⟨v, rfl, hv⟩ := Option.bind_eq_some_iff.mp hvalue
    exact ⟨v, hh, hv⟩
  · rintro ⟨v, hv, hvalue⟩
    exact ⟨some v, hv, hvalue⟩

theorem own_receive_iff {operands : List (Option Handle)} :
    Own g (s.receive p operands).received ↔
      Own g s.received ∧ ∀ h ∈ operands, foreign g p h = false := by
  constructor
  · intro hown
    refine ⟨fun x hx => hown x (List.mem_append_left _ hx), fun h hh => ?_⟩
    rw [foreign_eq_false_iff]
    rintro v o rfl hvalue
    have hmem : o ∈ valuesOf operands := mem_valuesOf.mpr ⟨v, hh, hvalue⟩
    exact hown (p, o) (List.mem_append_right _ (List.mem_map_of_mem hmem))
  · rintro ⟨hown, hnot⟩ x hx
    rcases List.mem_append.mp hx with hx | hx
    · exact hown x hx
    · obtain ⟨o, ho, rfl⟩ := List.mem_map.mp hx
      obtain ⟨v, hv, hvalue⟩ := mem_valuesOf.mp ho
      exact foreign_eq_false_iff.mp (hnot _ hv) v o rfl hvalue

/-- **What a body leaves.** The handles and the results stay, and the values received only grow. -/
theorem runBody_frame (body : List Stmt) (s : State) :
    (runBody g t p body s).1.handles = s.handles ∧ (runBody g t p body s).1.results = s.results ∧
      ∃ more, (runBody g t p body s).1.received = s.received ++ more := by
  have hrefl : ∀ s : State, s.handles = s.handles ∧ s.results = s.results ∧
      ∃ more, s.received = s.received ++ more :=
    fun s => ⟨rfl, rfl, [], (List.append_nil _).symm⟩
  induction body generalizing s with
  | nil => exact hrefl s
  | cons stmt rest ih =>
    cases stmt with
    | checkReleased =>
      unfold runBody
      dsimp only
      split
      · exact hrefl s
      · split
        · exact hrefl s
        · exact ih _
    | checkRuntime value =>
      cases value with
      | none => exact ih s
      | some h =>
        unfold runBody
        split
        · exact hrefl s
        · exact hrefl s
        · split
          · exact ih s
          · exact hrefl s
    | native operands =>
      unfold runBody
      split
      · exact ih s
      · exact hrefl s
      · obtain ⟨hhandles, hresults, more, hreceived⟩ := ih (s.receive p operands)
        refine ⟨hhandles, hresults, (valuesOf operands).map (fun o => (p, o)) ++ more, ?_⟩
        rw [hreceived, ← List.append_assoc]
        rfl
    | unsupported => exact hrefl s

theorem own_of_runBody {body : List Stmt} (h : Own g (runBody g t p body s).1.received) :
    Own g s.received := by
  obtain ⟨_, _, more, hreceived⟩ := runBody_frame (g := g) (t := t) (p := p) body s
  rw [hreceived] at h
  exact fun x hx => h x (List.mem_append_left _ hx)

/-- A body whose native calls are given no foreign value. -/
theorem own_runBody {body : List Stmt} (hown : Own g s.received)
    (hbody : ∀ operands, .native operands ∈ body → ∀ h ∈ operands, foreign g p h = false) :
    Own g (runBody g t p body s).1.received := by
  induction body generalizing s with
  | nil => exact hown
  | cons stmt rest ih =>
    have hrest : ∀ operands, .native operands ∈ rest → ∀ h ∈ operands, foreign g p h = false :=
      fun operands h => hbody operands (List.mem_cons_of_mem _ h)
    cases stmt with
    | checkReleased =>
      unfold runBody
      dsimp only
      split
      · exact hown
      · split
        · exact hown
        · exact ih hown hrest
    | checkRuntime value =>
      cases value with
      | none => exact ih hown hrest
      | some h =>
        unfold runBody
        split
        · exact hown
        · exact hown
        · split
          · exact ih hown hrest
          · exact hown
    | native operands =>
      unfold runBody
      split
      · exact ih hown hrest
      · exact hown
      · exact ih (own_receive_iff.mpr ⟨hown, hbody operands List.mem_cons_self⟩) hrest
    | unsupported => exact hown

/-! ## When a body rejects -/

theorem rejects_congr (hreleased : s'.released = s.released)
    (hpasses : Passes g s' t p ↔ Passes g s t p) (body : List Stmt) :
    Rejects g s' t p body ↔ Rejects g s t p body := by
  have hpost : ∀ r, post g s' t r = post g s t r := by
    intro r
    unfold post
    rw [hreleased]
  induction body with
  | nil => exact Iff.rfl
  | cons stmt rest ih =>
    cases stmt with
    | checkReleased => exact and_congr hpasses ih
    | checkRuntime value =>
      cases value with
      | none => exact ih
      | some h =>
        unfold Rejects
        rw [hpost]
        exact and_congr_right fun _ => or_congr_right ih
    | native operands =>
      unfold Rejects
      rw [hpost]
      split
      · exact ih
      · exact Iff.rfl
      · exact and_congr_right fun _ => ih
    | unsupported => exact Iff.rfl

/-- The drained pool passes as well. -/
theorem Passes.drained (h : Passes g s t p) :
    Passes g { s with pooled := Function.update s.pooled p false } t p := by
  refine ⟨h.1, h.2.1, fun hpool => ?_⟩
  have hpool : Function.update s.pooled p false p = true := hpool
  rw [Function.update_self] at hpool
  cases hpool

theorem runBody_of_passes {rest : List Stmt} (h : Passes g s t p) :
    runBody g t p (.checkReleased :: rest) s =
      runBody g t p rest { s with pooled := Function.update s.pooled p false } := by
  obtain ⟨hclosed, hreleased, hdrain⟩ := h
  have hopen : ¬ (s.closed p = true ∨ s.released (g.runtime p) = true) := by
    rw [hclosed, hreleased]
    decide
  conv_lhs => unfold runBody
  dsimp only
  rw [if_neg fun h => hdrain h.1 h.2, if_neg hopen]

theorem outcome_of_not_passes {rest : List Stmt} (h : ¬ Passes g s t p) :
    (runBody g t p (.checkReleased :: rest) s).2 ≠ .invalidRuntime := by
  unfold runBody
  dsimp only
  split
  · exact fun h => by cases h
  · rename_i hdrain
    split
    · exact fun h => by cases h
    · rename_i hopen
      obtain ⟨hclosed, hreleased⟩ := not_or.mp hopen
      exact absurd ⟨Bool.eq_false_iff.mpr hclosed, Bool.eq_false_iff.mpr hreleased,
        fun hpool hpost => hdrain ⟨hpool, hpost⟩⟩ h

/-- **Rejection.** A body throws `Invalid target runtime`, and no native call receives a foreign value, iff it
gets to the check of a foreign handle. -/
theorem rejects_iff {body : List Stmt} (hown : Own g s.received) :
    ((runBody g t p body s).2 = .invalidRuntime ∧ Own g (runBody g t p body s).1.received) ↔
      Rejects g s t p body := by
  induction body generalizing s with
  | nil => exact ⟨fun h => (by cases h.1), fun h => h.elim⟩
  | cons stmt rest ih =>
    cases stmt with
    | checkReleased =>
      by_cases hpasses : Passes g s t p
      · rw [runBody_of_passes hpasses]
        show _ ↔ Passes g s t p ∧ Rejects g s t p rest
        have hreleased : { s with pooled := Function.update s.pooled p false }.released = s.released := rfl
        rw [and_iff_right hpasses, ← rejects_congr hreleased (iff_of_true hpasses.drained hpasses) rest]
        exact ih hown
      · exact ⟨fun h => absurd h.1 (outcome_of_not_passes hpasses), fun h => absurd h.1 hpasses⟩
    | checkRuntime value =>
      cases value with
      | none => exact ih hown
      | some h =>
        unfold runBody Rejects
        cases hpost : post g s t (g.runtime h.context) with
        | null | wrongThread => exact ⟨fun h => (by cases h.1), fun h => (by cases h.1)⟩
        | runs =>
          dsimp only
          rw [and_iff_right rfl]
          split
          · rename_i hsame
            rw [ih hown]
            refine ⟨Or.inr, fun h => h.resolve_left fun hnot => ?_⟩
            exact hsame.elim hnot.1 hnot.2
          · rename_i hnot
            exact ⟨fun _ => Or.inl (not_or.mp hnot), fun _ => ⟨rfl, hown⟩⟩
    | native operands =>
      unfold runBody Rejects
      cases post g s t (g.runtime p) with
      | null => exact ih hown
      | wrongThread => exact ⟨fun h => (by cases h.1), fun h => h.elim⟩
      | runs =>
        dsimp only
        have hreleased : (s.receive p operands).released = s.released := rfl
        have hpasses : Passes g (s.receive p operands) t p ↔ Passes g s t p := Iff.rfl
        rw [← rejects_congr hreleased hpasses rest]
        constructor
        · intro h
          have hreceive := own_of_runBody h.2
          exact ⟨(own_receive_iff.mp hreceive).2, (ih hreceive).mp h⟩
        · rintro ⟨hnot, hrejects⟩
          exact (ih (own_receive_iff.mpr ⟨hown, hnot⟩)).mpr hrejects
    | unsupported => exact ⟨fun h => (by cases h.1), fun h => h.elim⟩

/-! ## The steps -/

theorem State.Reachable.mono {more : List (Nat × Obj)} (hmore : s'.received = s.received ++ more) {q : Nat}
    {o : Obj} (h : s.Reachable g q o) : s'.Reachable g q o := by
  rcases h with h | ⟨x, hx, hvalue, hruntime⟩
  · exact Or.inl h
  · exact Or.inr ⟨x, by rw [hmore]; exact List.mem_append_left _ hx, hvalue, hruntime⟩

theorem inv_of_received {more : List (Nat × Obj)} (hi : Inv g s) (hhandles : s'.handles = s.handles)
    (hmore : s'.received = s.received ++ more) : Inv g s' := by
  intro h hh o hvalue
  rw [hhandles] at hh
  exact State.Reachable.mono hmore (hi h hh o hvalue)

theorem inv_step {a : Act} (hi : Inv g s) (h : step g s a = some s') : Inv g s' := by
  cases a with
  | op t this o =>
    simp only [step] at h
    split at h
    · obtain ⟨hhandles, _, more, hmore⟩ :=
        runBody_frame (g := g) (t := t) (p := this.context) (o.body this) s
      rw [← Option.some.inj h]
      exact inv_of_received hi hhandles hmore
    · cases h
  | deliver p o =>
    simp only [step] at h
    split at h
    · rename_i hreach
      rw [← Option.some.inj h]
      intro v hv o' hvalue
      rcases List.mem_cons.mp hv with rfl | hv
      · rw [← Option.some.inj hvalue]
        exact hreach
      · exact hi v hv o' hvalue
    · cases h
  | undefined p =>
    rw [← Option.some.inj h]
    intro v hv o' hvalue
    rcases List.mem_cons.mp hv with rfl | hv
    · cases hvalue
    · exact hi v hv o' hvalue
  | callbackReturns p value =>
    simp only [step] at h
    split at h
    · rw [← Option.some.inj h]
      exact inv_of_received hi rfl rfl
    · cases h
  | finalize p | closeContext p | closeRuntime r =>
    rw [← Option.some.inj h]
    exact hi

/-- While no foreign value was received, every handle holds a value of its own runtime. -/
theorem own_of_handle (hi : Inv g s) (hown : Own g s.received) {h : Handle} (hh : h ∈ s.handles) :
    foreign g h.context (some h) = false := by
  rw [foreign_eq_false_iff]
  rintro v o hv hvalue
  cases hv
  rcases hi h hh o hvalue with hruntime | ⟨x, hx, rfl, hruntime⟩
  · exact hruntime
  · rw [hown x hx, hruntime]

/-- The native calls of an operation are given its handle and operands, and nothing else. -/
theorem mem_body {this : Handle} {o : Operation} {operands : List (Option Handle)} {h : Option Handle}
    (hbody : .native operands ∈ o.body this) (hh : h ∈ operands) : h = some this ∨ h ∈ o.operands := by
  have hthis : ∀ {value : Option Handle}, h ∈ [some this, value] → h = some this ∨ h ∈ [value] := by
    intro value hmem
    rcases List.mem_cons.mp hmem with h | h
    · exact Or.inl h
    · exact Or.inr h
  cases o with
  | executeScript =>
    simp only [Operation.body, List.mem_cons, Stmt.native.injEq, List.not_mem_nil, or_false, or_self] at hbody
    rw [hbody] at hh
    cases hh
  | get =>
    simp only [Operation.body] at hbody
    split at hbody
    · simp only [List.mem_cons, reduceCtorEq, List.not_mem_nil, or_self] at hbody
    · simp only [List.mem_cons, reduceCtorEq, Stmt.native.injEq, List.not_mem_nil, or_false, false_or] at hbody
      rw [hbody] at hh
      exact Or.inl (List.mem_singleton.mp hh)
  | set value =>
    simp only [Operation.body] at hbody
    split at hbody
    · simp only [List.mem_cons, reduceCtorEq, List.not_mem_nil, or_self] at hbody
    · simp only [List.mem_cons, reduceCtorEq, Stmt.native.injEq, List.not_mem_nil, or_false, false_or] at hbody
      rw [hbody] at hh
      exact hthis hh
  | push value =>
    simp only [Operation.body, List.mem_cons, reduceCtorEq, Stmt.native.injEq, List.not_mem_nil, or_false,
      false_or] at hbody
    rw [hbody] at hh
    exact hthis hh
  | executeFunction parameters =>
    simp only [Operation.body] at hbody
    split at hbody
    · simp only [List.mem_cons, reduceCtorEq, List.not_mem_nil, or_self] at hbody
    · simp only [List.mem_cons, reduceCtorEq, Stmt.native.injEq, List.not_mem_nil, or_false, false_or] at hbody
      rcases hbody with rfl | rfl
      · exact hthis hh
      · cases hh
  | executeFunction2 parameters =>
    simp only [Operation.body, List.cons_append, List.nil_append, List.mem_cons, reduceCtorEq, Stmt.native.injEq,
      List.mem_append, List.mem_flatMap, pushParameter, List.not_mem_nil, or_false, false_or] at hbody
    rcases hbody with rfl | ⟨v, hv, rfl⟩ | rfl
    · cases hh
    · rw [List.mem_singleton.mp hh]
      exact Or.inr hv
    · exact Or.inl (List.mem_singleton.mp hh)
  | call receiver parameters =>
    have hcases : operands = [] ∨ operands = [receiver, some this, parameters] := by
      simp only [Operation.body] at hbody
      split at hbody
      · simpa [or_comm] using hbody
      · simpa [or_comm] using hbody
    rcases hcases with rfl | rfl
    · cases hh
    · rcases List.mem_cons.mp hh with rfl | hh
      · exact Or.inr List.mem_cons_self
      · rcases hthis hh with h | h
        · exact Or.inl h
        · exact Or.inr (List.mem_cons_of_mem _ h)

theorem isolated_op {this : Handle} {o : Operation} (hi : Inv g s) (hs : Isolated g s)
    (h : step g s (.op t this o) = some s') : Isolated g s' ↔ Checked g s (.op t this o) := by
  simp only [step] at h
  split at h
  · rename_i hen
    obtain ⟨_, hresults, _⟩ := runBody_frame (g := g) (t := t) (p := this.context) (o.body this) s
    cases h
    show _ ↔ (o.operands.any (foreign g this.context) = true → Rejects g s t this.context (o.body this))
    cases hoff : o.operands.any (foreign g this.context) with
    | true =>
      rw [← rejects_iff hs.own]
      simp only [true_implies]
      constructor
      · intro h
        exact ⟨h.thrown _ (List.mem_append_right _ (List.mem_singleton.mpr rfl)) rfl, h.own⟩
      · rintro ⟨hout, hown⟩
        refine ⟨hown, fun r hr => ?_⟩
        rcases List.mem_append.mp hr with hr | hr
        · rw [hresults] at hr
          exact hs.thrown r hr
        · rw [List.mem_singleton.mp hr]
          exact fun _ => hout
    | false =>
      refine ⟨fun _ h => absurd h (by decide), fun _ => ⟨?_, fun r hr => ?_⟩⟩
      · apply own_runBody hs.own
        intro operands hbody h hh
        rcases mem_body hbody hh with rfl | hmem
        · exact own_of_handle hi hs.own hen.1
        · exact Bool.eq_false_iff.mpr fun hf => (List.any_eq_false.mp hoff h hmem) hf
      · rcases List.mem_append.mp hr with hr | hr
        · rw [hresults] at hr
          exact hs.thrown r hr
        · rw [List.mem_singleton.mp hr]
          exact fun h => by cases h
  · cases h

theorem isolated_callbackReturns {value : Option Handle} (hs : Isolated g s)
    (h : step g s (.callbackReturns p value) = some s') :
    Isolated g s' ↔ Checked g s (.callbackReturns p value) := by
  simp only [step] at h
  split at h
  · cases h
    constructor
    · intro h
      exact (own_receive_iff.mp h.own).2 value (List.mem_singleton.mpr rfl)
    · intro hnot
      refine ⟨own_receive_iff.mpr ⟨hs.own, fun h hh => ?_⟩, fun r hr => ?_⟩
      · rw [List.mem_singleton.mp hh]
        exact hnot
      · rcases List.mem_append.mp hr with hr | hr
        · exact hs.thrown r hr
        · have hnot : foreign g p value = false := hnot
          rw [List.mem_singleton.mp hr, hnot]
          exact fun h => by cases h
  · cases h

theorem isolated_step {a : Act} (hi : Inv g s) (hs : Isolated g s) (h : step g s a = some s') :
    Isolated g s' ↔ Checked g s a := by
  cases a with
  | op t this o => exact isolated_op hi hs h
  | callbackReturns p value => exact isolated_callbackReturns hs h
  | deliver p o =>
    simp only [step] at h
    split at h
    · rw [← Option.some.inj h]
      exact ⟨fun _ => trivial, fun _ => ⟨hs.own, hs.thrown⟩⟩
    · cases h
  | undefined p | finalize p | closeContext p | closeRuntime r =>
    rw [← Option.some.inj h]
    exact ⟨fun _ => trivial, fun _ => ⟨hs.own, hs.thrown⟩⟩

/-! ## Whole runs -/

end

/-- Two runtimes with event queues and a context each. -/
def sampleSetting : Setting where
  runtime := fun p => p
  owner := fun _ => 0
  queue := fun _ => true

/-- An object of runtime 0 and one of runtime 1. -/
def sampleHandles : List Act := [.deliver 0 ⟨0, 1⟩, .deliver 1 ⟨1, 1⟩]

end QuickJSBridge.Isolation
