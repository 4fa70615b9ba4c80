import Mathlib.Logic.Function.Basic
import QuickJSBridge.Java.ModuleNames
import QuickJSBridge.Lib.Machine

/-!
# The CommonJS loader

`CommonJSModule` records the modules it has loaded in a map, under the name that `convertModuleName` gives
without a base, when the module's script has run to its end. `require` looks the map up with the path as it is
spelled, and resolves the path against the `filename` of `receiver.module` otherwise.

* `step` — `executeModule`, `executeModuleScript` and the callback of `require`, over the stack of scripts
  that are being evaluated;
* `Identity` — a `require` returns the module that is recorded under the resolved name, or evaluates that
  script once and records it there; one name, one exports object, and no module under two names;
* `Keyed`, `identity_iff_keyed` — when a run has it;
* `Relative` — a plain `require(p)` of module `f` requests the script `convertModuleName(f, p)` only;
* `AtBase`, `relative_iff_atBase` — when a run has it.
-/

namespace QuickJSBridge.CommonJS

open ModuleNames (convertModuleName)

/-! ## The machine -/

/-- `this` of a call of `require`, as far as the callback looks at it. -/
inductive Receiver where
  -- a plain call
  | undefined
  -- no object, or its `module` is neither an object nor undefined: the callback throws
  | rejected
  -- it has no `module`, or that has no `filename`
  | anonymous
  -- the `filename` of its `module`
  | file (name : Option Text)
  deriving DecidableEq

/-- `moduleBaseName`; `none` if the callback throws. -/
def Receiver.base : Receiver → Option (Option Text)
  | undefined | anonymous => some none
  | rejected => none
  | file name => some name

/-- A module's script that is being evaluated. -/
structure Frame where
  -- the `moduleName` of `executeModuleScript`
  name : Option Text
  -- `moduleName_`
  key : Option Text
  -- the object `module` of the wrapper
  module : Nat
  -- a `require` waits for it
  byRequire : Bool
  -- the calls of `require` that were made while it was the innermost script
  requires : Nat
  deriving DecidableEq

inductive Outcome where
  -- a recorded module; no script is requested
  | returned (m : Nat)
  -- `getModuleScript` is asked for the script of the resolved name, and it is evaluated
  | evaluated
  -- `getModuleScript` returned null
  | missing
  -- `executeModuleScript` threw before the evaluation
  | failed
  deriving DecidableEq

/-- A call of `require`. -/
structure Call where
  -- the id of the module whose code calls
  caller : Option Text
  receiver : Receiver
  path : Option Text
  -- the resolved name
  name : Option Text
  -- the module that is recorded under it
  recorded : Option Nat
  -- the module that is being loaded under it
  loading : Option Nat
  outcome : Outcome
  deriving DecidableEq

/-- A `require` that has returned. -/
structure Returned where
  name : Option Text
  -- where the script that it evaluated was recorded; the outer `none` if it evaluated none
  key : Option (Option Text)
  module : Nat
  exports : Nat
  deriving DecidableEq

structure State where
  modules : Text → Option Nat
  -- the property `exports` of the module objects
  exports : Nat → Nat
  -- the number of module objects that wrappers have made
  fresh : Nat
  -- innermost first
  frames : List Frame
  calls : List Call
  returned : List Returned
  -- the names of the scripts that were evaluated, in order
  evaluated : List (Option Text)

def init : State where
  modules := fun _ => none
  exports := fun m => m
  fresh := 0
  frames := []
  calls := []
  returned := []
  evaluated := []

inductive Act where
  -- by Java code; `found` if `getModuleScript` returns a script
  | executeModule (name : Option Text) (found : Bool)
  | executeModuleScript (name : Option Text)
  -- code of module `caller`, or of none, calls `require`
  | require (caller : Option Text) (receiver : Receiver) (path : Option Text) (found : Bool)
  -- the innermost script ends: with its own module object, or with another object that it returns
  | finish (other : Option Nat)
  -- it throws, or its result is no object
  | fail
  -- JS code assigns the `exports` of a module object
  | assignExports (m e : Nat)
  deriving DecidableEq

namespace State

/-- `executeModuleScript`, up to the evaluation of the wrapper. -/
def executeModuleScript (s : State) (name : Option Text) (byRequire : Bool) : State × Outcome :=
  match convertModuleName none name with
  | .error _ => (s, .failed)
  | .ok key =>
    ({ s with
        frames := ⟨name, key, s.fresh, byRequire, 0⟩ :: s.frames
        fresh := s.fresh + 1
        evaluated := s.evaluated ++ [name] }, .evaluated)

/-- `executeModule` -/
def executeModule (s : State) (name : Option Text) (found byRequire : Bool) : State × Outcome :=
  if found then s.executeModuleScript name byRequire else (s, .missing)

def countRequire (s : State) : State :=
  match s.frames with
  | [] => s
  | f :: rest => { s with frames := { f with requires := f.requires + 1 } :: rest }

/-- The module that is being loaded under a name. -/
def loading (s : State) (name : Option Text) : Option Nat :=
  (s.frames.find? fun f => f.key = name).map Frame.module

/-- A module is loaded, or being loaded, under this id. -/
def Knows (s : State) (id : Text) : Prop := s.modules id ≠ none ∨ s.loading (some id) ≠ none

instance (s : State) (id : Text) : Decidable (s.Knows id) := inferInstanceAs (Decidable (_ ∨ _))

/-- The callback of `require`, from `modules.get(path)` on. -/
def lookup (s : State) (caller : Option Text) (receiver : Receiver) (path name : Option Text)
    (found : Bool) : State :=
  let call := Call.mk caller receiver path name (name.bind s.modules) (s.loading name)
  match path.bind s.modules with
  | some m =>
    { s with
      calls := s.calls ++ [call (.returned m)]
      returned := s.returned ++ [⟨name, none, m, s.exports m⟩] }
  | none =>
    let (s', outcome) := s.executeModule name found true
    { s' with calls := s'.calls ++ [call outcome] }

/-- The callback of `require`; it throws if the name cannot be resolved. -/
def require (s : State) (caller : Option Text) (receiver : Receiver) (path : Option Text)
    (found : Bool) : State :=
  match receiver.base with
  | none => s
  | some base =>
    match convertModuleName base path with
    | .error _ => s
    | .ok name => s.lookup caller receiver path name found

/-- The end of `executeModuleScript`, and of the `require` that waits for it. -/
def finish (s : State) (f : Frame) (rest : List Frame) (m : Nat) : State :=
  { s with
    modules :=
      match f.key with
      | none => s.modules
      | some key => Function.update s.modules key (some m)
    frames := rest
    returned :=
      if f.byRequire then s.returned ++ [⟨f.name, some f.key, m, s.exports m⟩] else s.returned }

end State

def step (s : State) : Act → Option State
  | .executeModule name found => some (s.executeModule name found false).1
  | .executeModuleScript name => some (s.executeModuleScript name false).1
  | .require caller receiver path found =>
    if ∀ id ∈ caller, s.Knows id then some (s.countRequire.require caller receiver path found) else none
  | .finish other =>
    match s.frames with
    | [] => none
    | f :: rest => some (s.finish f rest (other.getD f.module))
  | .fail =>
    match s.frames with
    | [] => none
    | _ :: rest => some { s with frames := rest }
  | .assignExports m e => some { s with exports := Function.update s.exports m e }

section

variable {s : State} {caller : Option Text} {receiver : Receiver} {path name base : Option Text} {found : Bool}

theorem require_of_resolved (hbase : receiver.base = some base) (hname : convertModuleName base path = .ok name) :
    s.require caller receiver path found = s.lookup caller receiver path name found := by
  unfold State.require
  rw [hbase]
  dsimp only
  rw [hname]

theorem require_of_error {e : ModuleNames.JavaError} (hbase : receiver.base = some base)
    (hname : convertModuleName base path = .error e) : s.require caller receiver path found = s := by
  unfold State.require
  rw [hbase]
  dsimp only
  rw [hname]

theorem lookup_of_recorded {m : Nat} (hm : path.bind s.modules = some m) :
    s.lookup caller receiver path name found = { s with
      calls := s.calls ++ [⟨caller, receiver, path, name, name.bind s.modules, s.loading name, .returned m⟩]
      returned := s.returned ++ [⟨name, none, m, s.exports m⟩] } := by
  unfold State.lookup
  rw [hm]

theorem lookup_of_not_recorded {s' : State} {outcome : Outcome} (hm : path.bind s.modules = none)
    (hexecute : s.executeModule name found true = (s', outcome)) :
    s.lookup caller receiver path name found = { s' with
      calls := s'.calls ++
        [⟨caller, receiver, path, name, name.bind s.modules, s.loading name, outcome⟩] } := by
  unfold State.lookup
  rw [hm]
  dsimp only
  rw [hexecute]

end

/-! ## Module identity -/

/-- A recorded module is returned, and otherwise the script of the resolved name is evaluated, unless there
is none. -/
def Call.Right (c : Call) : Prop :=
  match c.recorded with
  | some m => c.outcome = .returned m
  | none => c.outcome = .evaluated ∨ c.outcome = .missing

/-- A module that was evaluated is recorded under the resolved name. -/
def Returned.Right (r : Returned) : Prop :=
  ∀ key, r.key = some key → key = r.name ∧ r.name ≠ none

structure Identity (s : State) : Prop where
  calls : ∀ c ∈ s.calls, c.Right
  recorded : ∀ r ∈ s.returned, r.Right
  sameName : ∀ r ∈ s.returned, ∀ r' ∈ s.returned, r.name = r'.name → r.exports = r'.exports
  otherName : ∀ r ∈ s.returned, ∀ r' ∈ s.returned, r.name ≠ r'.name → r.module ≠ r'.module

/-- Returning `m` for `name` agrees with what was returned before: the same exports for that name, and other
modules for others. -/
def Fits (s : State) (name : Option Text) (m : Nat) : Prop :=
  ∀ r ∈ s.returned, (r.name = name → r.exports = s.exports m) ∧ (r.name ≠ name → r.module ≠ m)

/-- The path and its resolved name find the same in the map; the module found fits what was returned before,
and a script that is evaluated has a name that can be recorded. A script that a `require` waits for is
recorded under its own name, and its module fits. -/
def Keyed (s : State) : Act → Prop
  | .require _ receiver path found =>
    ∀ base name, receiver.base = some base → convertModuleName base path = .ok name →
      path.bind s.modules = name.bind s.modules ∧
        (∀ m, name.bind s.modules = some m → Fits s name m) ∧
        (name.bind s.modules = none → found = true → ∃ key, convertModuleName none name = .ok key)
  | .finish other =>
    ∀ f rest, s.frames = f :: rest → f.byRequire = true →
      f.key = f.name ∧ f.name ≠ none ∧ Fits s f.name (other.getD f.module)
  | _ => True

/-! ## Relative requires -/

/-- The script that the call requests, if any, is that of `path` relative to the calling module. -/
def Call.Relative (c : Call) : Prop :=
  c.receiver = .undefined → (∀ m, c.outcome ≠ .returned m) → ∀ id, c.caller = some id →
    convertModuleName (some id) c.path = .ok c.name

def Relative (s : State) : Prop := ∀ c ∈ s.calls, c.Relative

/-- A plain call finds a module under the path as it is spelled; or the path resolves to the same name
relative to the calling module and without a base. -/
def AtBase (s : State) : Act → Prop
  | .require caller .undefined path _ =>
    path.bind s.modules = none → ∀ id, caller = some id →
      ∀ name, convertModuleName none path = .ok name → convertModuleName (some id) path = .ok name
  | _ => True

/-! ## What a step adds to the logs -/

section

variable {s s' : State}

theorem countRequire_eq (s : State) : ∃ frames, s.countRequire = { s with frames := frames } := by
  unfold State.countRequire
  split
  · exact ⟨s.frames, rfl⟩
  · exact ⟨_, rfl⟩

theorem executeModuleScript_logs (s : State) (name : Option Text) (byRequire : Bool) :
    (s.executeModuleScript name byRequire).1.calls = s.calls ∧
      (s.executeModuleScript name byRequire).1.returned = s.returned := by
  unfold State.executeModuleScript
  split <;> exact ⟨rfl, rfl⟩

theorem executeModule_logs (s : State) (name : Option Text) (found byRequire : Bool) :
    (s.executeModule name found byRequire).1.calls = s.calls ∧
      (s.executeModule name found byRequire).1.returned = s.returned := by
  unfold State.executeModule
  split
  · exact executeModuleScript_logs s name byRequire
  · exact ⟨rfl, rfl⟩

/-- How the script of a name is requested, and evaluated. -/
theorem executeModule_outcome (s : State) (name : Option Text) (found byRequire : Bool) :
    (s.executeModule name found byRequire).2 = .evaluated ∨
        (s.executeModule name found byRequire).2 = .missing ↔
      (found = true → ∃ key, convertModuleName none name = .ok key) := by
  unfold State.executeModule State.executeModuleScript
  cases found with
  | false => exact ⟨fun _ h => (by cases h), fun _ => Or.inr rfl⟩
  | true =>
    rw [if_pos rfl]
    cases hkey : convertModuleName none name with
    | error _ =>
      refine ⟨fun h => h.elim (fun h => (by cases h)) fun h => (by cases h), fun h => ?_⟩
      obtain ⟨key, hkey⟩ := h rfl
      cases hkey
    | ok key => exact ⟨fun _ _ => ⟨key, rfl⟩, fun _ => Or.inl rfl⟩

theorem executeModule_ne_returned (s : State) (name : Option Text) (found byRequire : Bool) (m : Nat) :
    (s.executeModule name found byRequire).2 ≠ .returned m := by
  unfold State.executeModule State.executeModuleScript
  split
  · split <;> exact fun h => by cases h
  · exact fun h => by cases h

/-- The module of a `require` agrees with what was returned before. -/
def Returned.Fits (r : Returned) (returned : List Returned) : Prop :=
  ∀ r' ∈ returned, (r'.name = r.name → r'.exports = r.exports) ∧ (r'.name ≠ r.name → r'.module ≠ r.module)

/-- **What a step adds.** Calls, and at most one `require` that returns. -/
theorem identity_append (cs : List Call) (rs : List Returned) (hs : Identity s)
    (hcalls : s'.calls = s.calls ++ cs) (hreturned : s'.returned = s.returned ++ rs)
    (hlength : rs.length ≤ 1) :
    Identity s' ↔ (∀ c ∈ cs, c.Right) ∧ ∀ r ∈ rs, r.Right ∧ r.Fits s.returned := by
  have hsame : ∀ r ∈ rs, ∀ r' ∈ rs, r = r' := by
    match rs, hlength with
    | [], _ => exact fun r hr => by cases hr
    | [r₀], _ => exact fun r hr r' hr' => (List.mem_singleton.mp hr).trans (List.mem_singleton.mp hr').symm
  constructor
  · intro h
    refine ⟨fun c hc => h.calls c ?_, fun r hr => ?_⟩
    · rw [hcalls]
      exact List.mem_append_right _ hc
    · have hmem : r ∈ s'.returned := by
        rw [hreturned]
        exact List.mem_append_right _ hr
      refine ⟨h.recorded r hmem, fun r' hr' => ?_⟩
      have hmem' : r' ∈ s'.returned := by
        rw [hreturned]
        exact List.mem_append_left _ hr'
      exact ⟨h.sameName r' hmem' r hmem, h.otherName r' hmem' r hmem⟩
  · rintro ⟨hright, hfits⟩
    refine ⟨fun c hc => ?_, fun r hr => ?_, fun r hr r' hr' hname => ?_, fun r hr r' hr' hname => ?_⟩
    · rw [hcalls] at hc
      exact (List.mem_append.mp hc).elim (hs.calls c) (hright c)
    · rw [hreturned] at hr
      exact (List.mem_append.mp hr).elim (hs.recorded r) fun hr => (hfits r hr).1
    · rw [hreturned] at hr hr'
      rcases List.mem_append.mp hr with hr | hr
      · rcases List.mem_append.mp hr' with hr' | hr'
        · exact hs.sameName r hr r' hr' hname
        · exact ((hfits r' hr').2 r hr).1 hname
      · rcases List.mem_append.mp hr' with hr' | hr'
        · exact (((hfits r hr).2 r' hr').1 hname.symm).symm
        · rw [hsame r hr r' hr']
    · rw [hreturned] at hr hr'
      rcases List.mem_append.mp hr with hr | hr
      · rcases List.mem_append.mp hr' with hr' | hr'
        · exact hs.otherName r hr r' hr' hname
        · exact ((hfits r' hr').2 r hr).2 hname
      · rcases List.mem_append.mp hr' with hr' | hr'
        · exact fun heq => ((hfits r hr).2 r' hr').2 (Ne.symm hname) heq.symm
        · exact absurd (congrArg Returned.name (hsame r hr r' hr')) hname

/-- A step that adds nothing to the logs. -/
theorem identity_of_logs (hs : Identity s) (hcalls : s'.calls = s.calls)
    (hreturned : s'.returned = s.returned) : Identity s' := by
  have happend := identity_append [] [] hs (by rw [hcalls, List.append_nil])
    (by rw [hreturned, List.append_nil]) (Nat.zero_le 1)
  exact happend.mpr ⟨fun c hc => (by cases hc), fun r hr => (by cases hr)⟩

/-! ## When a step keeps the identity -/

theorem identity_lookup {caller : Option Text} {receiver : Receiver} {path name : Option Text}
    {found : Bool} (hs : Identity s) :
    Identity (s.lookup caller receiver path name found) ↔
      path.bind s.modules = name.bind s.modules ∧
        (∀ m, name.bind s.modules = some m → Fits s name m) ∧
        (name.bind s.modules = none → found = true → ∃ key, convertModuleName none name = .ok key) := by
  unfold State.lookup
  dsimp only
  cases hpath : path.bind s.modules with
  | some m =>
    refine (identity_append [_] [_] hs rfl rfl (Nat.le_refl 1)).trans ?_
    simp only [List.mem_singleton, forall_eq]
    cases hname : name.bind s.modules with
    | none =>
      refine ⟨fun h => ?_, fun h => by cases h.1⟩
      rcases h.1 with h | h <;> cases h
    | some m' =>
      constructor
      · rintro ⟨hright, _, hfits⟩
        cases hright
        refine ⟨rfl, fun m' hm' => ?_, fun h => by cases h⟩
        cases hm'
        exact hfits
      · rintro ⟨heq, hfits, _⟩
        cases heq
        exact ⟨rfl, fun key hkey => (by cases hkey), hfits m rfl⟩
  | none =>
    obtain ⟨hcalls, hreturned⟩ := executeModule_logs s name found true
    refine (identity_append [_] [] hs (by rw [hcalls]) (by rw [List.append_nil]; exact hreturned)
      (Nat.zero_le 1)).trans ?_
    simp only [List.mem_singleton, forall_eq, List.not_mem_nil, false_implies, implies_true, and_true]
    cases hname : name.bind s.modules with
    | none =>
      have hright : (Call.mk caller receiver path name none (s.loading name)
          (s.executeModule name found true).2).Right ↔
            (found = true → ∃ key, convertModuleName none name = .ok key) :=
        executeModule_outcome s name found true
      rw [hright]
      refine ⟨fun h => ⟨rfl, fun m hm => (by cases hm), fun _ => h⟩, fun h => h.2.2 rfl⟩
    | some m' =>
      refine ⟨fun h => ?_, fun h => by cases h.1⟩
      exact absurd h (executeModule_ne_returned s name found true m')

theorem identity_require {caller : Option Text} {receiver : Receiver} {path : Option Text} {found : Bool}
    (hs : Identity s) (h : step s (.require caller receiver path found) = some s') :
    Identity s' ↔ Keyed s (.require caller receiver path found) := by
  simp only [step] at h
  split at h
  · obtain ⟨frames, hcount⟩ := countRequire_eq s
    rw [hcount] at h
    cases h
    have hs₁ : Identity { s with frames := frames } := identity_of_logs hs rfl rfl
    show _ ↔ ∀ base name, receiver.base = some base → convertModuleName base path = .ok name → _
    cases hbase : receiver.base with
    | none =>
      refine ⟨fun _ _ _ h => (by cases h), fun _ => ?_⟩
      unfold State.require
      rw [hbase]
      exact hs₁
    | some base =>
      cases hname : convertModuleName base path with
      | error _ =>
        rw [require_of_error hbase hname]
        refine ⟨fun _ base' name h hok => ?_, fun _ => hs₁⟩
        cases h
        rw [hname] at hok
        cases hok
      | ok name =>
        rw [require_of_resolved hbase hname, identity_lookup hs₁]
        constructor
        · intro h base' name' hbase' hok
          cases hbase'
          rw [hname] at hok
          cases hok
          exact h
        · intro h
          exact h base name rfl hname
  · cases h

theorem identity_finish {other : Option Nat} (hs : Identity s) (h : step s (.finish other) = some s') :
    Identity s' ↔ Keyed s (.finish other) := by
  simp only [step] at h
  split at h
  · cases h
  · rename_i f rest hframes
    cases h
    show _ ↔ ∀ f rest, s.frames = f :: rest → f.byRequire = true → _
    rw [hframes]
    unfold State.finish
    cases hby : f.byRequire with
    | false =>
      refine ⟨fun _ f' rest' hf hby' => ?_, fun _ => identity_of_logs hs rfl rfl⟩
      cases hf
      rw [hby] at hby'
      cases hby'
    | true =>
      rw [if_pos rfl]
      refine Iff.trans (identity_append [] [_] hs (by rw [List.append_nil]) rfl (Nat.le_refl 1)) ?_
      simp only [List.mem_singleton, forall_eq, List.not_mem_nil, false_implies, implies_true, true_and]
      constructor
      · rintro ⟨hright, hfits⟩ f' rest' hf _
        cases hf
        exact ⟨(hright _ rfl).1, (hright _ rfl).2, hfits⟩
      · intro h
        obtain ⟨hkey, hnull, hfits⟩ := h f rest rfl hby
        refine ⟨fun key hk => ?_, hfits⟩
        cases hk
        exact ⟨hkey, hnull⟩

theorem identity_step {a : Act} (hs : Identity s) (h : step s a = some s') : Identity s' ↔ Keyed s a := by
  cases a with
  | require caller receiver path found => exact identity_require hs h
  | finish other => exact identity_finish hs h
  | executeModule name found =>
    obtain ⟨hcalls, hreturned⟩ := executeModule_logs s name found false
    cases h
    exact ⟨fun _ => trivial, fun _ => identity_of_logs hs hcalls hreturned⟩
  | executeModuleScript name =>
    obtain ⟨hcalls, hreturned⟩ := executeModuleScript_logs s name false
    cases h
    exact ⟨fun _ => trivial, fun _ => identity_of_logs hs hcalls hreturned⟩
  | fail =>
    simp only [step] at h
    split at h
    · cases h
    · cases h
      exact ⟨fun _ => trivial, fun _ => identity_of_logs hs rfl rfl⟩
  | assignExports m e =>
    cases h
    exact ⟨fun _ => trivial, fun _ => identity_of_logs hs rfl rfl⟩

end

/-- The name `x`. -/
def sampleName : Text := [0x78]

/-- `./x` -/
def samplePath : Text := [ModuleNames.dot, ModuleNames.slash, 0x78]

section

variable {s s' : State}

/-- The call that a `require` adds. -/
theorem calls_lookup (s : State) (caller : Option Text) (receiver : Receiver) (path name : Option Text)
    (found : Bool) :
    ∃ outcome, (s.lookup caller receiver path name found).calls = s.calls ++
        [⟨caller, receiver, path, name, name.bind s.modules, s.loading name, outcome⟩] ∧
      ((∀ m, outcome ≠ .returned m) ↔ path.bind s.modules = none) := by
  unfold State.lookup
  dsimp only
  cases hpath : path.bind s.modules with
  | some m => exact ⟨.returned m, rfl, fun h => absurd rfl (h m), fun h => by cases h⟩
  | none =>
    obtain ⟨hcalls, _⟩ := executeModule_logs s name found true
    refine ⟨(s.executeModule name found true).2, ?_, fun _ => rfl, fun _ => ?_⟩
    · show (s.executeModule name found true).1.calls ++ _ = _
      rw [hcalls]
    · exact executeModule_ne_returned s name found true

theorem relative_append {c : Call} (hs : Relative s) (hcalls : s'.calls = s.calls ++ [c]) :
    Relative s' ↔ c.Relative := by
  unfold Relative
  rw [hcalls]
  constructor
  · intro h
    exact h c (List.mem_append_right _ (List.mem_singleton.mpr rfl))
  · intro h c' hc'
    rcases List.mem_append.mp hc' with hc' | hc'
    · exact hs c' hc'
    · rw [List.mem_singleton.mp hc']
      exact h

/-- A call with a receiver is not plain. -/
theorem relative_of_receiver {receiver : Receiver} (hs : Relative s) (hreceiver : receiver ≠ .undefined)
    (caller path : Option Text) (found : Bool) : Relative (s.require caller receiver path found) := by
  unfold State.require
  split
  · exact hs
  · split
    · exact hs
    · rename_i name _
      obtain ⟨outcome, hcalls, _⟩ := calls_lookup s caller receiver path name found
      exact (relative_append hs hcalls).mpr fun h => absurd h hreceiver

theorem relative_require {caller : Option Text} {receiver : Receiver} {path : Option Text} {found : Bool}
    (hs : Relative s) (h : step s (.require caller receiver path found) = some s') :
    Relative s' ↔ AtBase s (.require caller receiver path found) := by
  simp only [step] at h
  split at h
  · obtain ⟨frames, hcount⟩ := countRequire_eq s
    rw [hcount] at h
    cases h
    have hs₁ : Relative { s with frames := frames } := hs
    cases receiver with
    | rejected | anonymous | file _ =>
      exact ⟨fun _ => trivial, fun _ => relative_of_receiver hs₁ (fun h => by cases h) caller path found⟩
    | undefined =>
      show _ ↔ (path.bind s.modules = none → ∀ id, caller = some id →
        ∀ name, convertModuleName none path = .ok name → convertModuleName (some id) path = .ok name)
      cases hname : convertModuleName none path with
      | error _ =>
        rw [require_of_error rfl hname]
        exact ⟨fun _ _ _ _ _ h => (by cases h), fun _ => hs₁⟩
      | ok name =>
        obtain ⟨outcome, hcalls, hout⟩ :=
          calls_lookup { s with frames := frames } caller .undefined path name found
        rw [require_of_resolved rfl hname, relative_append hs₁ hcalls]
        constructor
        · intro h hnone id hcaller name' hok
          rw [← Except.ok.inj hok]
          exact h rfl (hout.mpr hnone) id hcaller
        · intro h _ hnot id hcaller
          exact h (hout.mp hnot) id hcaller name rfl
  · cases h

theorem relative_step {a : Act} (hs : Relative s) (h : step s a = some s') : Relative s' ↔ AtBase s a := by
  have hkeep : s'.calls = s.calls → Relative s' := fun hcalls c hc => hs c (hcalls ▸ hc)
  cases a with
  | require caller receiver path found => exact relative_require hs h
  | finish other =>
    simp only [step] at h
    split at h
    · cases h
    · cases h
      exact ⟨fun _ => trivial, fun _ => hs⟩
  | executeModule name found =>
    obtain ⟨hcalls, _⟩ := executeModule_logs s name found false
    cases h
    exact ⟨fun _ => trivial, fun _ => hkeep hcalls⟩
  | executeModuleScript name =>
    obtain ⟨hcalls, _⟩ := executeModuleScript_logs s name false
    cases h
    exact ⟨fun _ => trivial, fun _ => hkeep hcalls⟩
  | fail =>
    simp only [step] at h
    split at h
    · cases h
    · cases h
      exact ⟨fun _ => trivial, fun _ => hs⟩
  | assignExports m e =>
    cases h
    exact ⟨fun _ => trivial, fun _ => hs⟩

/-- **Relative requires.** In a run every script that a plain `require(p)` of a module `f` requests is that of
`convertModuleName(f, p)` iff every step is at its base. -/
theorem relative_iff_atBase {as : List Act} (h : Machine.Run step init as s) :
    (∀ bs t, bs <+: as → Machine.Run step init bs t → Relative t) ↔
      Machine.GuardedRun step AtBase init as s := by
  have hinit : Relative init := fun c hc => by cases hc
  exact (Machine.guardedRun_iff_forall_prefix (I := Relative)
    (fun _ _ _ hs hst => relative_step hs hst) hinit h).symm

end

/-- The module `x` requires `/y`. -/
theorem relative_iff_atBase_absolute :
    ∃ s, Machine.Run step init
        [.executeModule (some sampleName) true,
          .require (some sampleName) .undefined (some [ModuleNames.slash, 0x79]) true] s ∧
      s.evaluated = [some sampleName, some [ModuleNames.slash, 0x79]] ∧ Relative s := by
  have hrun : ∃ s, Machine.GuardedRun step AtBase init
        [.executeModule (some sampleName) true,
          .require (some sampleName) .undefined (some [ModuleNames.slash, 0x79]) true] s ∧
      s.evaluated = [some sampleName, some [ModuleNames.slash, 0x79]] := by
    refine ⟨_, .cons trivial rfl (.cons ?_ rfl (.nil _)), rfl⟩
    intro _ id hid name hname
    cases hid
    exact hname
  obtain ⟨s, hrun, hevaluated⟩ := hrun
  exact ⟨s, hrun.run, hevaluated, (relative_iff_atBase hrun.run).mpr hrun _ s List.prefix_rfl hrun.run⟩

/-- The name `d/x`. -/
def sampleNested : Text := [0x64, ModuleNames.slash, 0x78]

/-- The module `d/x` requires `./y`, and the script `y` is requested instead of `d/y`. -/
theorem not_relative_nested :
    ∃ s, Machine.Run step init
        [.executeModule (some sampleNested) true,
          .require (some sampleNested) .undefined (some [ModuleNames.dot, ModuleNames.slash, 0x79]) true] s ∧
      s.evaluated = [some sampleNested, some [0x79]] ∧ ¬ Relative s := by
  refine ⟨_, .cons trivial rfl (.cons trivial rfl (.nil _)), rfl, fun h => ?_⟩
  have hname := h _ List.mem_cons_self rfl (fun m hm => by cases hm) sampleNested rfl
  exact absurd hname (by decide)

end QuickJSBridge.CommonJS
