import QuickJSBridge.Java.HandleRegistry

/-!
# Dispatch of Java callbacks

A Java callback becomes a JS function whose data are the callback's hash code and its form. When the
function is called, QuickJS hands the trampoline `callJavaCallback` the context that is calling, and
`QuickJS.callJavaCallback` looks the hash code up in that context's `functionRegistry`.

* `Callbacks.step` — registrations, JS calls of the functions, and `close()`;
* `Right` — a call made while the callback's context is open invokes that callback, in its form;
* `Proper` — the call comes from the callback's own context, and no later registration there had the
  same hash code;
* `right_iff_proper` — in a run every call is right iff every step is proper.

The callbacks are pairwise distinct, so a function object is named by its callback.
-/

namespace QuickJSBridge.Callbacks

/-! ## The tables -/

/-- `QuickJS.MethodDescriptor` -/
structure MethodDescriptor where
  voidCallback : Option Nat
  callback : Option Nat
  deriving DecidableEq

/-- The data of a function made by `newFunction`. -/
structure FuncData where
  callbackId : Hash
  voidMethod : Bool
  deriving DecidableEq

/-- A registration: which callback, in which context and form. -/
structure Registration where
  context : Nat
  callback : Nat
  voidMethod : Bool
  deriving DecidableEq

/-- `JSContext._registerCallback`: the descriptor that is put into `functionRegistry`. -/
def Registration.descriptor (r : Registration) : MethodDescriptor :=
  if r.voidMethod then ⟨some r.callback, none⟩ else ⟨none, some r.callback⟩

inductive Outcome where
  -- no context or no descriptor: the call returns null
  | ignored
  | invoked (callback : Nat) (voidMethod : Bool)
  -- the descriptor has no callback of this form
  | nullPointer
  deriving DecidableEq

/-- A JS call of the function object made for `registration`. -/
structure Dispatched where
  registration : Registration
  -- the callback's context was open
  contextOpen : Bool
  outcome : Outcome
  deriving DecidableEq

structure State where
  -- the contexts in `sContextMap`
  isOpen : Nat → Bool
  functionRegistry : Nat → AList fun _ : Hash => MethodDescriptor
  -- newest first
  registrations : List Registration
  dispatched : List Dispatched

def init : State where
  isOpen := fun _ => true
  functionRegistry := fun _ => ∅
  registrations := []
  dispatched := []

inductive Act where
  -- `registerJavaMethod`, `new JSFunction`, each method of `appendJavascriptInterface`, and the
  -- callback that `registerClass` makes
  | register (r : Registration)
  -- a script of context `caller` calls the function object made for callback `c`
  | call (c : Nat) (caller : Nat)
  | close (p : Nat)

/-! ## Dispatch -/

/-- `callJavaCallback` in `QuickJS` -/
def callJavaCallback (s : State) (caller : Nat) (data : FuncData) : Outcome :=
  if s.isOpen caller then
    match (s.functionRegistry caller).lookup data.callbackId with
    | none => .ignored
    | some descriptor =>
      match if data.voidMethod then descriptor.voidCallback else descriptor.callback with
      | some c => .invoked c data.voidMethod
      | none => .nullPointer
  else .ignored

section

variable (hash : Nat → Hash)

/-- `newFunction` -/
def newFunction (r : Registration) : FuncData where
  callbackId := hash r.callback
  voidMethod := r.voidMethod

/-- `r` was made in context `p` for a callback with hash code `k`. -/
def Registration.has (p : Nat) (k : Hash) (r : Registration) : Bool :=
  decide (r.context = p ∧ hash r.callback = k)

/-- The last registration in context `p` of a callback with hash code `k`. -/
def latest (registrations : List Registration) (p : Nat) (k : Hash) : Option Registration :=
  registrations.find? (Registration.has hash p k)

def step (s : State) : Act → Option State
  | .register r =>
    if s.isOpen r.context ∧ ∀ r' ∈ s.registrations, r'.callback ≠ r.callback then
      some { s with
        functionRegistry := Function.update s.functionRegistry r.context
          ((s.functionRegistry r.context).insert (hash r.callback) r.descriptor)
        registrations := r :: s.registrations }
    else none
  | .call c caller =>
    match s.registrations.find? (·.callback = c) with
    | some r =>
      if s.isOpen caller then
        let outcome := callJavaCallback s caller (newFunction hash r)
        some { s with dispatched := s.dispatched ++ [⟨r, s.isOpen r.context, outcome⟩] }
      else none
    | none => none
  | .close p =>
    some { s with
      isOpen := Function.update s.isOpen p false
      functionRegistry := Function.update s.functionRegistry p ∅ }

/-! ## The property and the guard -/

/-- The call invoked the callback the function was made for, in its form. -/
def Dispatched.Right (d : Dispatched) : Prop :=
  d.contextOpen = true → d.outcome = .invoked d.registration.callback d.registration.voidMethod

def Right (s : State) : Prop := ∀ d ∈ s.dispatched, d.Right

/-- While the callback's context is open its function is called from that context only, and only while
no later registration there had the same hash code. -/
def Proper (s : State) : Act → Prop
  | .call c caller => ∀ r, s.registrations.find? (·.callback = c) = some r →
      s.isOpen r.context = true →
        caller = r.context ∧ latest hash s.registrations r.context (hash r.callback) = some r
  | _ => True

/-! ## The invariant

`functionRegistry` of an open context holds the last registration for each hash code. -/

structure Inv (s : State) : Prop where
  registry : ∀ p, s.isOpen p = true → ∀ k,
    (s.functionRegistry p).lookup k = (latest hash s.registrations p k).map Registration.descriptor
  distinct : ∀ r ∈ s.registrations, ∀ r' ∈ s.registrations, r.callback = r'.callback → r = r'

variable {hash}

theorem inv_init : Inv hash init where
  registry p _ k := rfl
  distinct r hr := by cases hr

theorem inv_register {s s' : State} {r : Registration} (hi : Inv hash s)
    (h : step hash s (.register r) = some s') : Inv hash s' := by
  simp only [step] at h
  split at h
  · rename_i hen
    rw [← Option.some.inj h]
    refine ⟨fun p hp k => ?_, fun a ha b hb hab => ?_⟩
    · show (Function.update s.functionRegistry r.context _ p).lookup k = (List.find? _ _).map _
      rw [List.find?_cons]
      by_cases hctx : p = r.context
      · rw [hctx, Function.update_self]
        by_cases hk : k = hash r.callback
        · -- the new registration is the last one
          have hhas : Registration.has hash r.context k r = true := decide_eq_true ⟨rfl, hk.symm⟩
          rw [hhas, hk, AList.lookup_insert]
          rfl
        · have hhas : Registration.has hash r.context k r = false :=
            decide_eq_false fun h => hk h.2.symm
          rw [hhas, AList.lookup_insert_ne hk]
          exact hi.registry r.context (hctx ▸ hp) k
      · have hhas : Registration.has hash p k r = false :=
          decide_eq_false fun h => hctx h.1.symm
        rw [hhas, Function.update_of_ne hctx]
        exact hi.registry p hp k
    · rcases List.mem_cons.mp ha with ha' | ha'
      · rcases List.mem_cons.mp hb with hb' | hb'
        · rw [ha', hb']
        · rw [ha'] at hab
          exact absurd hab.symm (hen.2 b hb')
      · rcases List.mem_cons.mp hb with hb' | hb'
        · rw [hb'] at hab
          exact absurd hab (hen.2 a ha')
        · exact hi.distinct a ha' b hb' hab
  · cases h

/-- What a call does: one more dispatch, of a registration that was made. -/
theorem step_call {s s' : State} {c caller : Nat} (h : step hash s (.call c caller) = some s') :
    ∃ r, s.registrations.find? (·.callback = c) = some r ∧ s.isOpen caller = true ∧
      s' = { s with dispatched := s.dispatched ++
        [⟨r, s.isOpen r.context, callJavaCallback s caller (newFunction hash r)⟩] } := by
  simp only [step] at h
  split at h
  · rename_i r hfind
    split at h
    · rename_i hopen
      exact ⟨r, hfind, hopen, (Option.some.inj h).symm⟩
    · cases h
  · cases h

theorem inv_close {s s' : State} {p : Nat} (hi : Inv hash s)
    (h : step hash s (.close p) = some s') : Inv hash s' := by
  rw [← Option.some.inj h]
  refine ⟨fun q hq k => ?_, hi.distinct⟩
  have hq : Function.update s.isOpen p false q = true := hq
  show (Function.update s.functionRegistry p ∅ q).lookup k = _
  by_cases hqp : q = p
  · rw [hqp, Function.update_self] at hq
    cases hq
  · rw [Function.update_of_ne hqp] at hq ⊢
    exact hi.registry q hq k

theorem inv_step {s s' : State} {a : Act} (hi : Inv hash s) (h : step hash s a = some s') :
    Inv hash s' := by
  cases a with
  | register r => exact inv_register hi h
  | call c caller =>
    obtain ⟨r, _, _, rfl⟩ := step_call h
    exact ⟨hi.registry, hi.distinct⟩
  | close p => exact inv_close hi h

/-! ## Exactness: when a call is right -/

theorem latest_has {registrations : List Registration} {p : Nat} {k : Hash} {r : Registration}
    (h : latest hash registrations p k = some r) :
    r ∈ registrations ∧ r.context = p ∧ hash r.callback = k := by
  have hhas : Registration.has hash p k r = true := List.find?_some h
  exact ⟨List.mem_of_find?_eq_some h, of_decide_eq_true hhas⟩

/-- The lookup in the calling context gives the function's callback iff the registration of that callback
is what the calling context has for the hash code. -/
theorem callJavaCallback_eq_iff {s : State} {caller : Nat} {r : Registration} (hi : Inv hash s)
    (hr : r ∈ s.registrations) (hopen : s.isOpen caller = true) :
    callJavaCallback s caller (newFunction hash r) = .invoked r.callback r.voidMethod ↔
      latest hash s.registrations caller (hash r.callback) = some r := by
  unfold callJavaCallback
  rw [if_pos hopen]
  show (match (s.functionRegistry caller).lookup (hash r.callback) with
    | none => Outcome.ignored
    | some descriptor =>
      match if r.voidMethod then descriptor.voidCallback else descriptor.callback with
      | some c => .invoked c r.voidMethod
      | none => .nullPointer) = _ ↔ _
  rw [hi.registry caller hopen]
  cases hlatest : latest hash s.registrations caller (hash r.callback) with
  | none => exact ⟨fun h => (by cases h), fun h => (by cases h)⟩
  | some r' =>
    obtain ⟨hr', _, _⟩ := latest_has hlatest
    simp only [Option.map_some, Registration.descriptor, Option.some.injEq]
    constructor
    · intro h
      apply hi.distinct r' hr' r hr
      cases hv : r.voidMethod <;> cases hv' : r'.voidMethod <;> simp [hv, hv'] at h
      · exact h
      · exact h
    · rintro rfl
      cases hv : r'.voidMethod <;> simp

theorem right_call {s s' : State} {c caller : Nat} (hi : Inv hash s) (hr : Right s)
    (h : step hash s (.call c caller) = some s') : Right s' ↔ Proper hash s (.call c caller) := by
  obtain ⟨r, hfind, hopen, rfl⟩ := step_call h
  have hmem : r ∈ s.registrations := List.mem_of_find?_eq_some hfind
  have hiff := callJavaCallback_eq_iff hi hmem hopen
  constructor
  · intro hr' r₁ hfind₁ hctx
    rw [hfind] at hfind₁
    cases hfind₁
    have hlatest := hiff.mp (hr' _ (List.mem_append_right _ List.mem_cons_self) hctx)
    obtain ⟨_, hcaller, _⟩ := latest_has hlatest
    exact ⟨hcaller.symm, by rw [hcaller]; exact hlatest⟩
  · intro hg d hd
    rcases List.mem_append.mp hd with hd | hd
    · exact hr d hd
    · rw [List.mem_singleton.mp hd]
      intro hctx
      obtain ⟨hcaller, hlatest⟩ := hg r hfind hctx
      exact hiff.mpr (by rw [hcaller]; exact hlatest)

theorem right_step {s s' : State} {a : Act} (hi : Inv hash s) (hr : Right s)
    (hst : step hash s a = some s') : Right s' ↔ Proper hash s a := by
  cases a with
  | register r =>
    have hsame : s'.dispatched = s.dispatched := by
      simp only [step] at hst
      split at hst
      · rw [← Option.some.inj hst]
      · cases hst
    exact ⟨fun _ => trivial, fun _ d hd => hr d (hsame ▸ hd)⟩
  | call c caller => exact right_call hi hr hst
  | close p =>
    rw [← Option.some.inj hst]
    exact ⟨fun _ => trivial, fun _ => hr⟩

/-! ## Dispatch over whole runs -/

/-- **Right dispatch.** In a run every call of a function whose context is open invokes exactly the
callback it was made for, in its form, iff every step is proper. -/
theorem right_iff_proper {as : List Act} {s : State} (h : Machine.Run (step hash) init as s) :
    (∀ bs t, bs <+: as → Machine.Run (step hash) init bs t → Right t) ↔
      Machine.GuardedRun (step hash) (Proper hash) init as s := by
  have hright : Right init := fun d hd => by cases hd
  exact (Machine.guardedRun_iff_forall_prefix_under (I := Inv hash) (P := Right)
    (fun _ _ _ hi hst => inv_step hi hst) (fun _ _ _ hi hr hst => right_step hi hr hst)
    inv_init hright h).symm

end

/-- Hash codes that tell the callbacks 1 and 2 apart, but not 2 and 3. -/
def sampleHash (c : Nat) : Hash := if c = 1 then 1000 else 2000

/-- Two callbacks of one context, each called there. -/
theorem right_iff_proper_pair :
    ∃ s, Machine.Run (step sampleHash) init
        [.register ⟨0, 1, true⟩, .register ⟨0, 2, false⟩, .call 1 0, .call 2 0] s ∧
      s.dispatched = [⟨⟨0, 1, true⟩, true, .invoked 1 true⟩, ⟨⟨0, 2, false⟩, true, .invoked 2 false⟩] ∧
      Right s := by
  have hrun : ∃ s, Machine.GuardedRun (step sampleHash) (Proper sampleHash) init
        [.register ⟨0, 1, true⟩, .register ⟨0, 2, false⟩, .call 1 0, .call 2 0] s ∧
      s.dispatched =
        [⟨⟨0, 1, true⟩, true, .invoked 1 true⟩, ⟨⟨0, 2, false⟩, true, .invoked 2 false⟩] := by
    refine ⟨_, .cons trivial rfl (.cons trivial rfl (.cons ?_ rfl (.cons ?_ rfl (.nil _)))), rfl⟩
    · intro r hr _
      cases hr
      exact ⟨rfl, rfl⟩
    · intro r hr _
      cases hr
      exact ⟨rfl, rfl⟩
  obtain ⟨s, hrun, hdispatched⟩ := hrun
  exact ⟨s, hrun.run, hdispatched,
    (right_iff_proper hrun.run).mpr hrun _ s List.prefix_rfl hrun.run⟩

/-- A function that was stored into another open context is called there: nothing is invoked. -/
theorem not_right_other_context :
    ¬ ∀ (hash : Nat → Hash) as s, Machine.Run (step hash) init as s → Right s := by
  intro hall
  have hrun : ∃ s, Machine.Run (step sampleHash) init [.register ⟨0, 1, false⟩, .call 1 5] s ∧
      s.dispatched = [⟨⟨0, 1, false⟩, true, .ignored⟩] := by
    refine ⟨_, .cons trivial rfl (.cons trivial rfl (.nil _)), rfl⟩
  obtain ⟨s, hrun, hdispatched⟩ := hrun
  have hright := hall sampleHash _ s hrun ⟨⟨0, 1, false⟩, true, .ignored⟩
    (by rw [hdispatched]; exact List.mem_cons_self) rfl
  cases hright

end QuickJSBridge.Callbacks
