import QuickJSBridge.Lib.Machine
import QuickJSBridge.Lib.Ownership.Code

/-!
# Runs of code that owns counted references

The runtime and its foreign code as a machine. Entries nest, each with its own code; handles keep
references after the code that made them has returned, until they are released; the runtime moves
between any two instructions.

* `State`, `step` — counts, the runtime's references, handles, the stack of active codes;
* `Moves`, `references_*` — the steps, and what each does to the accounts;
* `sound_of_safe` — when every code entered is solvent, what is read through a pointer is still
  referenced and no handle is released twice, a count covers the handles and the runtime, and no
  reference is dropped or read that is not there;
* `noLeak_iff` — a run leaves no reference over iff each code that returns in it has `net ≤ 0`.
-/

namespace Ownership

variable {C ι : Type*} [DecidableEq C]

/-! ## States and steps -/

/-- A code that has been entered: what it owns, and what is left of it. -/
structure Frame (ι C : Type*) where
  entry : ι
  owned : Amount C
  code : Code C

inductive Stage where
  | held
  -- its owner is gone, its reference waits to be dropped
  | pooled
  -- its reference has been passed to be dropped
  | passed
  deriving DecidableEq

structure Handle (C : Type*) where
  cell : C
  -- made from a reference that the code owned
  backed : Bool
  stage : Stage

/-- The handle that an instruction makes, in a code that owns `o`. -/
def Instr.wrapped (o : Amount C) (i : Instr C) : List (Handle C) :=
  i.wrapped?.toList.map fun c => ⟨c, 0 < o c, .held⟩

inductive Fault (C : Type*) where
  -- a reference is dropped that is not owned
  | unowned (c : C)
  -- a cell is used after its last reference
  | dead (c : C)
  deriving DecidableEq

structure State (ι C : Type*) where
  -- the reference counts
  rc : Amount C
  -- the references that the runtime itself holds
  runtime : C → Nat
  handles : List (Handle C)
  -- innermost first
  frames : List (Frame ι C)
  -- what each returned code left over
  returned : List (Amount C)
  faults : List (Fault C)

def init (r : C → Nat) : State ι C := ⟨fun c => r c, r, [], [], [], []⟩

inductive Act (ι C : Type*) where
  | enter (e : ι)
  | exec
  | leave
  | finalize (h : Nat)
  | release (h : Nat)
  -- the runtime runs, and then holds these references
  | runtime (r : C → Nat)

/-- The fault of an instruction of a code that owns `o`, where the counts are `rc`. -/
def Instr.fault (rc o : Amount C) (i : Instr C) : List (Fault C) :=
  (i.spent?.toList.filter fun c => ¬ 0 < o c).map .unowned ++
    (i.used?.toList.filter fun c => ¬ 0 < rc c).map .dead

namespace State

def push (s : State ι C) (f : Frame ι C) : State ι C := { s with frames := f :: s.frames }

/-- The code of entry `e`, which owns `o`, performs `i`; `code` is left of it. -/
def perform (s : State ι C) (e : ι) (o : Amount C) (i : Instr C) (code : Code C)
    (rest : List (Frame ι C)) : State ι C where
  rc := s.rc + i.counted
  runtime := s.runtime + i.given
  handles := s.handles ++ i.wrapped o
  frames := ⟨e, o + i.delta, code⟩ :: rest
  returned := s.returned
  faults := i.fault s.rc o ++ s.faults

def pop (s : State ι C) (o : Amount C) (rest : List (Frame ι C)) : State ι C :=
  { s with frames := rest, returned := o :: s.returned }

def pool (s : State ι C) (h : Nat) (r : Handle C) : State ι C :=
  { s with handles := s.handles.set h { r with stage := .pooled } }

/-- Drops the reference of handle `h`, which is `r`. -/
def pass (s : State ι C) (h : Nat) (r : Handle C) : State ι C :=
  { s with
    rc := s.rc - Pi.single r.cell 1
    handles := s.handles.set h { r with stage := .passed }
    faults := if r.backed ∧ r.stage ≠ .passed then s.faults else .unowned r.cell :: s.faults }

def resume (s : State ι C) (r : C → Nat) : State ι C :=
  { s with rc := fun c => s.rc c + r c - s.runtime c, runtime := r }

end State

variable (prog : ι → Program C)

def step (s : State ι C) : Act ι C → Option (State ι C)
  | .enter e =>
    if ∀ c ∈ (prog e).borrowed, 0 < s.runtime c then some (s.push ⟨e, 0, (prog e).code⟩) else none
  | .exec =>
    match s.frames with
    | ⟨e, o, i :: code⟩ :: rest => some (s.perform e o i code rest)
    | _ => none
  | .leave =>
    match s.frames with
    | ⟨_, o, []⟩ :: rest => some (s.pop o rest)
    | _ => none
  | .finalize h =>
    match s.handles[h]? with
    | some r => if r.stage = .held then some (s.pool h r) else none
    | none => none
  | .release h => s.handles[h]?.map (s.pass h)
  | .runtime r =>
    if ∀ f ∈ s.frames, ∀ c ∈ (prog f.entry).borrowed, 0 < r c then some (s.resume r) else none

/-- The steps, with what each of them found. -/
inductive Moves (s : State ι C) : Act ι C → State ι C → Prop where
  | push {e : ι} (hlent : ∀ c ∈ (prog e).borrowed, 0 < s.runtime c) :
      Moves s (.enter e) (s.push ⟨e, 0, (prog e).code⟩)
  | perform {e : ι} {o : Amount C} {i : Instr C} {code : Code C} {rest : List (Frame ι C)}
      (hframes : s.frames = ⟨e, o, i :: code⟩ :: rest) : Moves s .exec (s.perform e o i code rest)
  | pop {e : ι} {o : Amount C} {rest : List (Frame ι C)} (hframes : s.frames = ⟨e, o, []⟩ :: rest) :
      Moves s .leave (s.pop o rest)
  | pool {n : Nat} {r : Handle C} (hr : s.handles[n]? = some r) (hheld : r.stage = .held) :
      Moves s (.finalize n) (s.pool n r)
  | pass {n : Nat} {r : Handle C} (hr : s.handles[n]? = some r) : Moves s (.release n) (s.pass n r)
  | resume {r : C → Nat} (hlent : ∀ f ∈ s.frames, ∀ c ∈ (prog f.entry).borrowed, 0 < r c) :
      Moves s (.runtime r) (s.resume r)

variable {prog} in
theorem moves_of_step {s s' : State ι C} {a : Act ι C} (h : step prog s a = some s') :
    Moves prog s a s' := by
  cases a with
  | enter e =>
    simp only [step] at h
    split at h
    · cases h
      exact .push ‹_›
    · cases h
  | exec =>
    simp only [step] at h
    split at h
    · cases h
      exact .perform ‹_›
    · cases h
  | leave =>
    simp only [step] at h
    split at h
    · cases h
      exact .pop ‹_›
    · cases h
  | finalize n =>
    simp only [step] at h
    split at h
    · split at h
      · cases h
        exact .pool ‹_› ‹_›
      · cases h
    · cases h
  | release n =>
    obtain ⟨r, hr, rfl⟩ := Option.map_eq_some_iff.mp h
    exact .pass hr
  | runtime r =>
    simp only [step] at h
    split at h
    · cases h
      exact .resume ‹_›
    · cases h

/-! ## What holds a cell -/

def Handle.holds (h : Handle C) (c : C) : Bool := h.cell = c ∧ h.stage ≠ .passed

/-- The handles on `c` whose reference has not been passed on. -/
def State.onHandles (s : State ι C) (c : C) : Nat := s.handles.countP (·.holds c)

/-- All references to `c` that are accounted for. -/
def State.references (s : State ι C) (c : C) : Int :=
  s.runtime c + s.onHandles c + (s.frames.map (·.owned)).sum c + s.returned.sum c

def State.next? (s : State ι C) : Option (Instr C) := s.frames.head?.bind (·.code.head?)

/-- No reference was dropped that is not owned, no cell used after its last reference, and every count
covers the handles and the runtime. -/
def Sound (s : State ι C) : Prop :=
  s.faults = [] ∧ ∀ c, (s.runtime c : Int) + s.onHandles c ≤ s.rc c

/-- No code left a reference over, and at rest, with all handles passed, only the runtime holds
references. -/
def NoLeak (s : State ι C) : Prop :=
  (∀ o ∈ s.returned, o ≤ 0) ∧
    (s.frames = [] → (∀ h ∈ s.handles, h.stage = .passed) → ∀ c, s.rc c ≤ s.runtime c)

/-- Codes entered are `proper`, a cell reached through a pointer is still referenced, and no handle is
released twice. -/
def Safe (proper : ι → Prop) (s : State ι C) : Act ι C → Prop
  | .enter e => proper e
  | .exec => ∀ c ∈ s.next?.bind Instr.foreign?, 0 < s.references c
  | .release h => ∀ r ∈ s.handles[h]?, r.stage ≠ .passed
  | _ => True

/-- Codes that return are `settling`. -/
def Settles (settling : ι → Prop) (s : State ι C) : Act ι C → Prop
  | .leave => ∀ f ∈ s.frames.head?, settling f.entry
  | _ => True

instance {proper : ι → Prop} [DecidablePred proper] (s : State ι C) (a : Act ι C) :
    Decidable (Safe proper s a) :=
  match a with
  | .enter e => inferInstanceAs (Decidable (proper e))
  | .exec => inferInstanceAs (Decidable (∀ c ∈ s.next?.bind Instr.foreign?, 0 < s.references c))
  | .release h => inferInstanceAs (Decidable (∀ r ∈ s.handles[h]?, r.stage ≠ .passed))
  | .leave | .finalize _ | .runtime _ => isTrue trivial

instance {settling : ι → Prop} [DecidablePred settling] (s : State ι C) (a : Act ι C) :
    Decidable (Settles settling s a) :=
  match a with
  | .leave => inferInstanceAs (Decidable (∀ f ∈ s.frames.head?, settling f.entry))
  | .enter _ | .exec | .finalize _ | .release _ | .runtime _ => isTrue trivial

/-! ## Handles -/

/-- A handle that is replaced leaves the count, and its successor enters it. -/
theorem countP_set {hs : List (Handle C)} {h : Nat} {r : Handle C} (hr : hs[h]? = some r)
    (q : Handle C) (c : C) :
    (hs.set h q).countP (·.holds c) + (if r.holds c then 1 else 0) =
      hs.countP (·.holds c) + (if q.holds c then 1 else 0) := by
  obtain ⟨hlt, hget⟩ := List.getElem?_eq_some_iff.mp hr
  have hpos : r.holds c = true → 0 < hs.countP (·.holds c) := by
    intro hc
    exact List.countP_pos_iff.mpr ⟨r, List.mem_of_getElem? hr, hc⟩
  rw [List.countP_set hlt, hget]
  cases hc : r.holds c with
  | true =>
    have := hpos hc
    simp only [if_true]
    omega
  | false => simp

theorem countP_append_wrapped (hs : List (Handle C)) (o : Amount C) (i : Instr C) (c : C) :
    (hs ++ i.wrapped o).countP (·.holds c) =
      hs.countP (·.holds c) + (if i.wrapped? = some c then 1 else 0) := by
  rw [List.countP_append]
  cases h : i.wrapped? with
  | none => simp [Instr.wrapped, h]
  | some d => simp [Instr.wrapped, h, Handle.holds, List.countP_singleton]

/-! ## What a step does to the accounts -/

theorem references_frames {s : State ι C} {f : Frame ι C} {rest : List (Frame ι C)}
    (h : s.frames = f :: rest) (c : C) :
    s.references c = s.runtime c + s.onHandles c + (f.owned c + (rest.map (·.owned)).sum c) +
      s.returned.sum c := by
  unfold State.references
  rw [h, List.map_cons, List.sum_cons]
  rfl

theorem references_push (s : State ι C) (e : ι) (code : Code C) (c : C) :
    (s.push ⟨e, 0, code⟩).references c = s.references c := by
  simp [State.references, State.onHandles, State.push]

theorem references_perform {s : State ι C} {e : ι} {o : Amount C} {i : Instr C} {code : Code C}
    {rest : List (Frame ι C)} (h : s.frames = ⟨e, o, i :: code⟩ :: rest) (c : C) :
    (s.perform e o i code rest).references c = s.references c + i.counted c := by
  rw [references_frames h, i.counted_eq c]
  simp only [State.references, State.onHandles, State.perform, countP_append_wrapped, List.map_cons,
    List.sum_cons, Pi.add_apply]
  omega

theorem references_pop {s : State ι C} {e : ι} {o : Amount C} {rest : List (Frame ι C)}
    (h : s.frames = ⟨e, o, []⟩ :: rest) (c : C) : (s.pop o rest).references c = s.references c := by
  rw [references_frames h]
  simp only [State.references, State.onHandles, State.pop, List.sum_cons, Pi.add_apply]
  omega

theorem references_pool {s : State ι C} {h : Nat} {r : Handle C} (hr : s.handles[h]? = some r)
    (hheld : r.stage = .held) (c : C) : (s.pool h r).references c = s.references c := by
  have hset := countP_set hr { r with stage := .pooled } c
  have hholds : ({ r with stage := .pooled } : Handle C).holds c = r.holds c := by
    simp [Handle.holds, hheld]
  rw [hholds] at hset
  simp only [State.references, State.onHandles, State.pool]
  omega

theorem references_pass {s : State ι C} {h : Nat} {r : Handle C} (hr : s.handles[h]? = some r) (c : C) :
    (s.pass h r).references c = s.references c - (if r.holds c then 1 else 0 : Nat) := by
  have hset := countP_set hr { r with stage := .passed } c
  have hpassed : ({ r with stage := .passed } : Handle C).holds c = false := by
    simp [Handle.holds]
  rw [hpassed, if_neg Bool.false_ne_true] at hset
  simp only [State.references, State.onHandles, State.pass]
  omega

theorem references_resume (s : State ι C) (r : C → Nat) (c : C) :
    (s.resume r).references c = s.references c + r c - s.runtime c := by
  simp only [State.references, State.onHandles, State.resume]
  omega

/-! ## Guarded runs -/

/-- Every reference is accounted for, and every active code can meet what it has left to do. -/
structure Balanced (s : State ι C) : Prop where
  count : ∀ c, s.rc c = s.references c
  owned : ∀ f ∈ s.frames, 0 ≤ f.owned
  solvent : ∀ f ∈ s.frames, Solvent (prog f.entry).borrowed f.owned f.code
  lent : ∀ f ∈ s.frames, ∀ c ∈ (prog f.entry).borrowed, 0 < s.runtime c
  returned : ∀ o ∈ s.returned, 0 ≤ o
  backed : ∀ h ∈ s.handles, h.backed = true
  faults : s.faults = []

variable {prog}

omit [DecidableEq C] in
theorem sum_owned_nonneg {fs : List (Frame ι C)} (h : ∀ f ∈ fs, 0 ≤ f.owned) :
    0 ≤ (fs.map (·.owned)).sum := by
  refine List.sum_nonneg fun o ho => ?_
  obtain ⟨f, hf, rfl⟩ := List.mem_map.mp ho
  exact h f hf

theorem Balanced.sound {s : State ι C} (h : Balanced prog s) : Sound s := by
  refine ⟨h.faults, fun c => ?_⟩
  have hframes : 0 ≤ (s.frames.map (·.owned)).sum c := sum_owned_nonneg h.owned c
  have hreturned : 0 ≤ s.returned.sum c := List.sum_nonneg h.returned c
  rw [h.count c]
  unfold State.references
  omega

theorem balanced_init (r : C → Nat) : Balanced prog (init r) where
  count := fun c => by simp [init, State.references, State.onHandles]
  owned := fun f hf => absurd hf List.not_mem_nil
  solvent := fun f hf => absurd hf List.not_mem_nil
  lent := fun f hf => absurd hf List.not_mem_nil
  returned := fun o ho => absurd ho List.not_mem_nil
  backed := fun h hh => absurd hh List.not_mem_nil
  faults := rfl

/-- What a code owns or borrows is alive. -/
theorem Balanced.alive {s : State ι C} (h : Balanced prog s) {f : Frame ι C} {rest : List (Frame ι C)}
    (hframes : s.frames = f :: rest) {c : C} (hc : 0 < f.owned c ∨ c ∈ (prog f.entry).borrowed) :
    0 < s.references c := by
  have hmem : ∀ g ∈ f :: rest, g ∈ s.frames := fun g hg => hframes ▸ hg
  have hreturned : 0 ≤ s.returned.sum c := List.sum_nonneg h.returned c
  have hrest : 0 ≤ (rest.map (·.owned)).sum c :=
    sum_owned_nonneg (fun g hg => h.owned g (hmem g (List.mem_cons_of_mem f hg))) c
  have howned : 0 ≤ f.owned c := h.owned f (hmem f List.mem_cons_self) c
  rw [references_frames hframes]
  rcases hc with hpos | hlent
  · omega
  · have hruntime := h.lent f (hmem f List.mem_cons_self) c hlent
    omega

omit [DecidableEq C] in
theorem fault_eq_nil {B : List C} {rc o : Amount C} {i : Instr C} (hallowed : i.Allowed B o)
    (hused : ∀ c ∈ i.used?, 0 < rc c) : i.fault rc o = [] := by
  cases i with
  | acquire c | wrap c => rfl
  | drop c | give c =>
    have hpos : 0 < o c := hallowed
    simp [Instr.fault, Instr.spent?, Instr.used?, hpos]
  | dup c | read c | deref c | derefDup c =>
    have hpos : 0 < rc c := hused c rfl
    simp [Instr.fault, Instr.spent?, Instr.used?, hpos]

theorem balanced_push {s : State ι C} (h : Balanced prog s) {e : ι}
    (hlent : ∀ c ∈ (prog e).borrowed, 0 < s.runtime c)
    (hsolvent : Solvent (prog e).borrowed 0 (prog e).code) :
    Balanced prog (s.push ⟨e, 0, (prog e).code⟩) where
  count := fun c => (h.count c).trans (references_push s e _ c).symm
  owned := List.forall_mem_cons.mpr ⟨le_rfl, h.owned⟩
  solvent := List.forall_mem_cons.mpr ⟨hsolvent, h.solvent⟩
  lent := List.forall_mem_cons.mpr ⟨hlent, h.lent⟩
  returned := h.returned
  backed := h.backed
  faults := h.faults

theorem balanced_perform {s : State ι C} (h : Balanced prog s) {e : ι} {o : Amount C} {i : Instr C}
    {code : Code C} {rest : List (Frame ι C)} (hframes : s.frames = ⟨e, o, i :: code⟩ :: rest)
    (hforeign : ∀ c ∈ i.foreign?, 0 < s.references c) :
    Balanced prog (s.perform e o i code rest) := by
  have hmem : ∀ g ∈ ⟨e, o, i :: code⟩ :: rest, g ∈ s.frames := fun g hg => hframes ▸ hg
  have howned := List.forall_mem_cons.mp fun g hg => h.owned g (hmem g hg)
  have hsolvent := List.forall_mem_cons.mp fun g hg => h.solvent g (hmem g hg)
  have hlent := List.forall_mem_cons.mp fun g hg => h.lent g (hmem g hg)
  obtain ⟨hallowed, hleft⟩ := hsolvent.1
  have hused : ∀ c ∈ i.used?, 0 < s.rc c := by
    intro c hc
    rw [h.count c]
    cases i with
    | acquire d | drop d | give d | wrap d => cases hc
    | deref d | derefDup d => exact hforeign c hc
    | dup d | read d =>
      cases hc
      exact h.alive hframes hallowed
  have hgrows : ∀ c, 0 < s.runtime c → 0 < (s.runtime + i.given) c := fun c hc => Nat.add_pos_left hc _
  exact {
    count := fun c => by
      rw [references_perform hframes, ← h.count c]
      rfl
    owned := List.forall_mem_cons.mpr ⟨hallowed.nonneg howned.1, howned.2⟩
    solvent := List.forall_mem_cons.mpr ⟨hleft, hsolvent.2⟩
    lent := List.forall_mem_cons.mpr ⟨fun c hc => hgrows c (hlent.1 c hc),
      fun g hg c hc => hgrows c (hlent.2 g hg c hc)⟩
    returned := h.returned
    backed := fun r hr => by
      rcases List.mem_append.mp hr with hr | hr
      · exact h.backed r hr
      · cases i with
        | wrap c =>
          rw [List.mem_singleton.mp hr]
          exact decide_eq_true hallowed
        | _ => cases hr
    faults := by
      show i.fault s.rc o ++ s.faults = []
      rw [fault_eq_nil hallowed hused, h.faults]
      rfl }

theorem balanced_pop {s : State ι C} (h : Balanced prog s) {e : ι} {o : Amount C}
    {rest : List (Frame ι C)} (hframes : s.frames = ⟨e, o, []⟩ :: rest) :
    Balanced prog (s.pop o rest) := by
  have hmem : ∀ g ∈ ⟨e, o, []⟩ :: rest, g ∈ s.frames := fun g hg => hframes ▸ hg
  have hrest : ∀ g ∈ rest, g ∈ s.frames := fun g hg => hmem g (List.mem_cons_of_mem _ hg)
  exact {
    count := fun c => (h.count c).trans (references_pop hframes c).symm
    owned := fun g hg => h.owned g (hrest g hg)
    solvent := fun g hg => h.solvent g (hrest g hg)
    lent := fun g hg => h.lent g (hrest g hg)
    returned := List.forall_mem_cons.mpr ⟨h.owned _ (hmem _ List.mem_cons_self), h.returned⟩
    backed := h.backed
    faults := h.faults }

omit [DecidableEq C] in
theorem forall_mem_set {p : Handle C → Prop} {hs : List (Handle C)} {n : Nat} {r : Handle C}
    (h : ∀ x ∈ hs, p x) (hr : p r) : ∀ x ∈ hs.set n r, p x := by
  intro x hx
  rcases List.mem_or_eq_of_mem_set hx with hmem | rfl
  · exact h x hmem
  · exact hr

theorem balanced_pool {s : State ι C} (h : Balanced prog s) {n : Nat} {r : Handle C}
    (hr : s.handles[n]? = some r) (hheld : r.stage = .held) : Balanced prog (s.pool n r) where
  count := fun c => (h.count c).trans (references_pool hr hheld c).symm
  owned := h.owned
  solvent := h.solvent
  lent := h.lent
  returned := h.returned
  backed := forall_mem_set h.backed (h.backed r (List.mem_of_getElem? hr))
  faults := h.faults

theorem balanced_pass {s : State ι C} (h : Balanced prog s) {n : Nat} {r : Handle C}
    (hr : s.handles[n]? = some r) (hstage : r.stage ≠ .passed) : Balanced prog (s.pass n r) where
  count := fun c => by
    rw [references_pass hr, ← h.count c]
    show s.rc c - (Pi.single r.cell 1 : Amount C) c = _
    rw [Pi.single_apply]
    by_cases hc : r.cell = c
    · rw [if_pos hc.symm, if_pos (by simp [Handle.holds, hc, hstage])]
      rfl
    · rw [if_neg (Ne.symm hc), if_neg (by simp [Handle.holds, hc])]
      rfl
  owned := h.owned
  solvent := h.solvent
  lent := h.lent
  returned := h.returned
  backed := forall_mem_set h.backed (h.backed r (List.mem_of_getElem? hr))
  faults := (if_pos ⟨h.backed r (List.mem_of_getElem? hr), hstage⟩).trans h.faults

theorem balanced_resume {s : State ι C} (h : Balanced prog s) {r : C → Nat}
    (hlent : ∀ f ∈ s.frames, ∀ c ∈ (prog f.entry).borrowed, 0 < r c) :
    Balanced prog (s.resume r) where
  count := fun c => by
    rw [references_resume, ← h.count c]
    rfl
  owned := h.owned
  solvent := h.solvent
  lent := hlent
  returned := h.returned
  backed := h.backed
  faults := h.faults

variable {proper : ι → Prop}

theorem balanced_step (hproper : ∀ e, proper e → Solvent (prog e).borrowed 0 (prog e).code)
    {s s' : State ι C} {a : Act ι C} (h : Balanced prog s) (hsafe : Safe proper s a)
    (hstep : step prog s a = some s') : Balanced prog s' := by
  cases moves_of_step hstep with
  | push hlent => exact balanced_push h hlent (hproper _ hsafe)
  | perform hframes =>
    refine balanced_perform h hframes fun c hc => hsafe c ?_
    simp only [State.next?, hframes]
    exact hc
  | pop hframes => exact balanced_pop h hframes
  | pool hr hheld => exact balanced_pool h hr hheld
  | pass hr => exact balanced_pass h hr (hsafe _ hr)
  | resume hlent => exact balanced_resume h hlent

/-- **No over-release.** In every run that is safe at each step the counts cover the handles and the
runtime, and no reference is dropped or read that is not there. -/
theorem sound_of_safe (hproper : ∀ e, proper e → Solvent (prog e).borrowed 0 (prog e).code)
    {r : C → Nat} {as : List (Act ι C)} {s : State ι C}
    (h : Machine.GuardedRun (step prog) (Safe proper) (init r) as s) : Sound s :=
  (h.invariant (fun _ _ _ hb hsafe hst => balanced_step hproper hb hsafe hst) (balanced_init r)).sound

/-! ## All runs -/

/-- What every run keeps: no count exceeds what is accounted for, and an active code will leave over
what the whole of it leaves over. -/
structure Accounted (prog : ι → Program C) (s : State ι C) : Prop where
  count : ∀ c, s.rc c ≤ s.references c
  rest : ∀ f ∈ s.frames, f.owned + net f.code = net (prog f.entry).code

theorem accounted_init (r : C → Nat) : Accounted prog (init r) where
  count := fun c => by
    have hinit : Balanced prog (init r) := balanced_init r
    exact (hinit.count c).le
  rest := fun _ hf => absurd hf List.not_mem_nil

theorem accounted_step {s s' : State ι C} {a : Act ι C} (h : Accounted prog s)
    (hstep : step prog s a = some s') : Accounted prog s' := by
  have hrest := h.rest
  cases moves_of_step hstep with
  | push hlent =>
    exact ⟨fun c => (h.count c).trans_eq (references_push s _ _ c).symm,
      List.forall_mem_cons.mpr ⟨zero_add _, hrest⟩⟩
  | @perform e o i code rest hframes =>
    rw [hframes] at hrest
    obtain ⟨htop, hrest⟩ := List.forall_mem_cons.mp hrest
    refine ⟨fun c => ?_, List.forall_mem_cons.mpr ⟨?_, hrest⟩⟩
    · rw [references_perform hframes]
      exact Int.add_le_add_right (h.count c) _
    · show o + i.delta + net code = _
      rw [add_assoc, ← net_cons]
      exact htop
  | pop hframes =>
    rw [hframes] at hrest
    exact ⟨fun c => (h.count c).trans_eq (references_pop hframes c).symm,
      (List.forall_mem_cons.mp hrest).2⟩
  | pool hr hheld => exact ⟨fun c => (h.count c).trans_eq (references_pool hr hheld c).symm, hrest⟩
  | @pass n r hr =>
    refine ⟨fun c => ?_, hrest⟩
    have hc := h.count c
    rw [references_pass hr]
    show s.rc c - (Pi.single r.cell 1 : Amount C) c ≤ _
    rw [Pi.single_apply]
    -- a handle that was passed before is not counted, and lowers the count all the same
    by_cases hcell : c = r.cell
    · rw [if_pos hcell]
      split <;> omega
    · rw [if_neg hcell, if_neg (by simp [Handle.holds, Ne.symm hcell])]
      omega
  | @resume r hlent =>
    refine ⟨fun c => ?_, hrest⟩
    have hc := h.count c
    rw [references_resume]
    show s.rc c + r c - s.runtime c ≤ _
    omega

/-- No code that has returned left a reference over. -/
def Clear (s : State ι C) : Prop := ∀ o ∈ s.returned, o ≤ 0

omit [DecidableEq C] in
theorem sum_nonpos {l : List (Amount C)} (h : ∀ o ∈ l, o ≤ 0) : l.sum ≤ 0 :=
  (List.sum_le_card_nsmul l 0 h).trans_eq (nsmul_zero _)

/-- At rest, with all handles passed, nothing is left but the runtime's references. -/
theorem Accounted.noLeak_iff {s : State ι C} (h : Accounted prog s) : NoLeak s ↔ Clear s := by
  refine ⟨And.left, fun hclear => ⟨hclear, fun hframes hpassed c => ?_⟩⟩
  have hcount := h.count c
  have hhandles : s.onHandles c = 0 := by
    refine List.countP_eq_zero.mpr fun x hx => ?_
    simp [Handle.holds, hpassed x hx]
  have hreturned : s.returned.sum c ≤ 0 := sum_nonpos hclear c
  unfold State.references at hcount
  rw [hframes, hhandles] at hcount
  have hnone : (([] : List (Frame ι C)).map (·.owned)).sum c = 0 := rfl
  omega

variable {settling : ι → Prop}

/-- A step leaves nothing over iff it is not the return of a code that does. -/
theorem clear_step_iff (hsettling : ∀ e, settling e ↔ net (prog e).code ≤ 0) {s s' : State ι C}
    {a : Act ι C} (h : Accounted prog s) (hclear : Clear s) (hstep : step prog s a = some s') :
    Clear s' ↔ Settles settling s a := by
  cases moves_of_step hstep with
  | @pop e o rest hframes =>
    have hnet : o = net (prog e).code := by
      have hrest := h.rest
      rw [hframes] at hrest
      exact (add_zero o).symm.trans (List.forall_mem_cons.mp hrest).1
    show (∀ x ∈ o :: s.returned, x ≤ 0) ↔ ∀ f ∈ s.frames.head?, settling f.entry
    rw [List.forall_mem_cons, hframes, hnet]
    simp only [List.head?_cons, Option.mem_def, Option.some.injEq, forall_eq', hsettling]
    exact ⟨And.left, fun he => ⟨he, hclear⟩⟩
  | push _ | perform _ | pool _ _ | pass _ | resume _ => exact ⟨fun _ => trivial, fun _ => hclear⟩

/-- **No leak.** A run leaves nothing over, in any state it passes through, iff every code that returns in
it is settling. -/
theorem noLeak_iff (hsettling : ∀ e, settling e ↔ net (prog e).code ≤ 0) {r : C → Nat}
    {as : List (Act ι C)} {s : State ι C} (h : Machine.Run (step prog) (init r) as s) :
    Machine.GuardedRun (step prog) (Settles settling) (init r) as s ↔
      ∀ bs t, bs <+: as → Machine.Run (step prog) (init r) bs t → NoLeak t := by
  have haccounted : ∀ bs t, Machine.Run (step prog) (init r) bs t → Accounted prog t := fun bs t hbs =>
    hbs.invariant (fun _ _ _ ha _ hst => accounted_step ha hst) (accounted_init r)
  have hexact : ∀ (s : State ι C) (a : Act ι C) (s' : State ι C), Accounted prog s ∧ Clear s →
      step prog s a = some s' → ((Accounted prog s' ∧ Clear s') ↔ Settles settling s a) := by
    rintro s a s' ⟨ha, hclear⟩ hst
    rw [← clear_step_iff hsettling ha hclear hst]
    exact and_iff_right (accounted_step ha hst)
  have hinit : Accounted prog (init r) ∧ Clear (init r : State ι C) :=
    ⟨accounted_init r, fun o ho => absurd ho List.not_mem_nil⟩
  rw [Machine.guardedRun_iff_forall_prefix hexact hinit h]
  constructor
  · intro hall bs t hprefix hbs
    exact (haccounted bs t hbs).noLeak_iff.mpr (hall bs t hprefix hbs).2
  · intro hall bs t hprefix hbs
    exact ⟨haccounted bs t hbs, (hall bs t hprefix hbs).1⟩

end Ownership
