import Mathlib.Logic.Function.Basic
import QuickJSBridge.Java.Rendezvous.Answer

/-!
# The rendezvous of `post` and `postVoid`

Any number of clients, the queue of the handler and the owner thread.

* `step` — the calls of the clients, each with its own cells, served by the owner thread in order;
* `Undisturbed` — no event that a caller waits for ends in an `Error` or is dropped, and no `wait()` returns
  before the outcome of the event is in the cells;
* `exists_run_of_goes`, `answered_of_undisturbed` — what the parties of a call go on with are steps of the
  system, so in an undisturbed run an event that has ended lets its caller through;
* `met_iff_undisturbed` — every call of a run is met, whatever its parties go on with, iff the steps of the run
  are undisturbed.
-/

namespace QuickJSBridge.Rendezvous

variable {V X : Type}

/-! ## The clients, the queue and the owner thread -/

inductive Owner where
  | idle
  | serving (c : Nat)
  | dead
  deriving DecidableEq

/-- The owner thread when the runnable of call `c` is there. -/
def Runnable.owner (c : Nat) : Runnable V X → Owner
  | finished => .idle
  | died => .dead
  | _ => .serving c

structure State (V X : Type) where
  released : Bool
  interrupted : Bool
  queue : List Nat
  owner : Owner
  calls : Nat → Option (Call V X)

def init : State V X where
  released := false
  interrupted := false
  queue := []
  owner := .idle
  calls := fun _ => none

inductive Act (V X : Type) where
  -- a client calls `post` or `postVoid`; `c` is the number of the call
  | call (c : Nat) (kind : Kind)
  | caller (c : Nat)
  | wake (c : Nat)
  -- the owner thread takes the first runnable
  | serve
  | finish (o : Outcome V X)
  | runnable
  -- in `QuickJS.close`, on the owner thread
  | setReleased
  | interrupt

namespace State

/-- The test at the head of `post` and `postVoid`. -/
def isReleased (s : State V X) : Bool := s.released || s.interrupted

/-- Call `c` makes a move of its caller. -/
def callerMove (s : State V X) (c : Nat) (m : Move V X) : Option (State V X) :=
  match s.calls c with
  | some k => (k.step m).map fun k' => { s with calls := Function.update s.calls c (some k') }
  | none => none

/-- Call `c` makes a move of the owner thread. -/
def ownerMove (s : State V X) (c : Nat) (m : Move V X) : Option (State V X) :=
  match s.calls c with
  | some k => (k.step m).map fun k' =>
    { s with calls := Function.update s.calls c (some k'), owner := k'.runnable.owner c }
  | none => none

/-- The owner thread runs code that may call `QuickJS.close`. -/
def ownerOpen (s : State V X) : Bool :=
  match s.owner with
  | .idle => true
  | .serving c => (s.calls c).any fun k => match k.runnable with
    | .running => true
    | _ => false
  | .dead => false

end State

def step (s : State V X) : Act V X → Option (State V X)
  | .call c kind =>
    match s.calls c with
    | some _ => none
    | none =>
      if s.isReleased then some s
      else some { s with
        queue := s.queue ++ [c]
        calls := Function.update s.calls c (some (Call.posted kind)) }
  | .caller c => s.callerMove c .caller
  | .wake c => s.callerMove c .wake
  | .serve =>
    match s.owner, s.queue with
    | .idle, c :: rest => { s with queue := rest }.ownerMove c (.serve s.released)
    | _, _ => none
  | .finish o =>
    match s.owner with
    | .serving c => s.ownerMove c (.finish o)
    | _ => none
  | .runnable =>
    match s.owner with
    | .serving c => s.ownerMove c .runnable
    | _ => none
  | .setReleased => if s.ownerOpen then some { s with released := true } else none
  | .interrupt => if s.ownerOpen then some { s with interrupted := true } else none

/-! ## The property and the guard -/

/-- Every call that waits, and whatever the two parties of it go on with. -/
def Met (s : State V X) : Prop :=
  ∀ c k, s.calls c = some k → k.kind.blocks = true → ∀ k', k.Goes k' → k'.Met

/-- The call that an act moves. -/
def State.moved (s : State V X) : Act V X → Option (Nat × Move V X)
  | .caller c => some (c, .caller)
  | .wake c => some (c, .wake)
  | .serve =>
    match s.queue with
    | c :: _ => some (c, .serve s.released)
    | [] => none
  | .finish o =>
    match s.owner with
    | .serving c => some (c, .finish o)
    | _ => none
  | .runnable =>
    match s.owner with
    | .serving c => some (c, .runnable)
    | _ => none
  | .call _ _ | .setReleased | .interrupt => none

/-- Steps that concern a call without a waiting caller are free. -/
def Undisturbed (s : State V X) (a : Act V X) : Prop :=
  ∀ c m k, s.moved a = some (c, m) → s.calls c = some k → k.kind.blocks = true → k.Undisturbed m

/-! ## The steps -/

section

variable {s s' : State V X} {a : Act V X}

/-- The owner thread after a move of call `c`: not concerned, or free for the call before and where its
runnable puts it after. -/
def OwnerMoves (s s' : State V X) (c : Nat) (k k' : Call V X) : Prop :=
  (s'.owner = s.owner ∧ k'.runnable = k.runnable) ∨
    ((s.owner = .idle ∨ s.owner = .serving c) ∧ s'.owner = k'.runnable.owner c)

/-- What a step does to the calls, and to the owner thread. -/
inductive Moves (s s' : State V X) (a : Act V X) : Prop where
  | quiet (hmoved : s.moved a = none) (hcalls : s'.calls = s.calls) (howner : s'.owner = s.owner)
  | posts (c : Nat) (kind : Kind) (hmoved : s.moved a = none)
      (hcalls : s'.calls = Function.update s.calls c (some (Call.posted kind))) (howner : s'.owner = s.owner)
  | move (c : Nat) (m : Move V X) (k k' : Call V X) (hmoved : s.moved a = some (c, m))
      (hk : s.calls c = some k) (hstep : k.step m = some k')
      (hcalls : s'.calls = Function.update s.calls c (some k')) (howner : OwnerMoves s s' c k k')

/-- A move of call `c`, whatever it makes of the rest of the state. -/
theorem move_iff {c : Nat} {m : Move V X} {f : Call V X → State V X} :
    (match s.calls c with
      | some k => (k.step m).map f
      | none => none) = some s' ↔
    ∃ k k', s.calls c = some k ∧ k.step m = some k' ∧ s' = f k' := by
  constructor
  · intro h
    split at h
    · rename_i k hk
      obtain ⟨k', hstep, rfl⟩ := Option.map_eq_some_iff.mp h
      exact ⟨k, k', hk, hstep, rfl⟩
    · cases h
  · rintro ⟨k, k', hk, hstep, rfl⟩
    rw [hk]
    exact Option.map_eq_some_iff.mpr ⟨k', hstep, rfl⟩

theorem callerMove_iff {c : Nat} {m : Move V X} : s.callerMove c m = some s' ↔
    ∃ k k', s.calls c = some k ∧ k.step m = some k' ∧
      s' = { s with calls := Function.update s.calls c (some k') } :=
  move_iff

theorem ownerMove_iff {c : Nat} {m : Move V X} : s.ownerMove c m = some s' ↔
    ∃ k k', s.calls c = some k ∧ k.step m = some k' ∧
      s' = { s with calls := Function.update s.calls c (some k'), owner := k'.runnable.owner c } :=
  move_iff

theorem moves_of_step (h : step s a = some s') : Moves s s' a := by
  cases a with
  | call c kind =>
    simp only [step] at h
    split at h
    · cases h
    · split at h
      · cases h
        exact .quiet rfl rfl rfl
      · cases h
        exact .posts c kind rfl rfl rfl
  | caller c =>
    obtain ⟨k, k', hk, hstep, rfl⟩ := callerMove_iff.mp h
    exact .move c .caller k k' rfl hk hstep rfl (Or.inl ⟨rfl, runnable_callerNext hstep⟩)
  | wake c =>
    obtain ⟨k, k', hk, hstep, rfl⟩ := callerMove_iff.mp h
    exact .move c .wake k k' rfl hk hstep rfl (Or.inl ⟨rfl, runnable_wake hstep⟩)
  | serve =>
    simp only [step] at h
    split at h
    · rename_i c rest howner hqueue
      obtain ⟨k, k', hk, hstep, rfl⟩ := ownerMove_iff.mp h
      refine .move c _ k k' ?_ hk hstep rfl (Or.inr ⟨Or.inl howner, rfl⟩)
      simp only [State.moved, hqueue]
    · cases h
  | finish o | runnable =>
    simp only [step] at h
    split at h
    · rename_i c howner
      obtain ⟨k, k', hk, hstep, rfl⟩ := ownerMove_iff.mp h
      refine .move c _ k k' ?_ hk hstep rfl (Or.inr ⟨Or.inr howner, rfl⟩)
      simp only [State.moved, howner]
    · cases h
  | setReleased | interrupt =>
    simp only [step] at h
    split at h
    · cases h
      exact .quiet rfl rfl rfl
    · cases h

def Inv (s : State V X) : Prop := ∀ c k, s.calls c = some k → k.kind.blocks = true → k.Inv

theorem inv_init : Inv (init : State V X) := fun c k h => by cases h

theorem inv_update {c : Nat} {k : Call V X} (hs : Inv s) (hk : k.kind.blocks = true → k.Inv)
    (hcalls : s'.calls = Function.update s.calls c (some k)) : Inv s' := by
  intro d l hl hblocks
  rw [hcalls, Function.update_apply] at hl
  split at hl
  · cases hl
    exact hk hblocks
  · exact hs d l hl hblocks

theorem inv_step (hs : Inv s) (hg : Undisturbed s a) (h : step s a = some s') : Inv s' := by
  cases moves_of_step h with
  | quiet _ hcalls _ =>
    intro c k hk
    rw [hcalls] at hk
    exact hs c k hk
  | posts c kind _ hcalls _ => exact inv_update hs inv_posted hcalls
  | move c m k k' hmoved hk hstep hcalls _ =>
    refine inv_update hs (fun hblocks => ?_) hcalls
    rw [kind_step hstep] at hblocks
    exact (hs c k hk hblocks).step hblocks (hg c m k hmoved hk hblocks) hstep

theorem met_of_inv (hs : Inv s) : Met s := by
  intro c k hk hblocks k' hgoes
  obtain ⟨hk', hkind, -⟩ := (hs c k hk hblocks).goes hblocks hgoes
  exact hk'.met (by rw [hkind]; exact hblocks)

theorem undisturbed_of_met (hs : Inv s) (h : step s a = some s') (hmet : Met s') : Undisturbed s a := by
  intro c m k hmoved hk hblocks
  cases moves_of_step h with
  | quiet hnone _ _ | posts _ _ hnone _ _ =>
    rw [hmoved] at hnone
    cases hnone
  | move d m' l l' hmoved' hl hstep hcalls _ =>
    rw [hmoved] at hmoved'
    cases hmoved'
    rw [hk] at hl
    cases hl
    refine (hs c k hk hblocks).undisturbed hblocks hstep (hmet c l' ?_ ?_)
    · rw [hcalls, Function.update_self]
    · rw [kind_step hstep]
      exact hblocks

/-! ## The owner thread is where the runnables are

So what the two parties of a call go on with are steps of the system. -/

/-- The runnable was taken and not yet left. -/
def Runnable.inService : Runnable V X → Bool
  | queued | finished | died => false
  | _ => true

def Serving (s : State V X) : Prop :=
  ∀ c k, s.calls c = some k → k.runnable.inService = true → s.owner = .serving c

theorem owner_of_inService {r : Runnable V X} {c : Nat} (h : r.inService = true) : r.owner c = .serving c := by
  cases r with
  | queued | finished | died => cases h
  | _ => rfl

theorem inService_of_goes {k k' : Call V X} (h : k.RunnableGoes k') : k.runnable.inService = true := by
  cases h with
  | assign _ hr | catches _ hr | lock hr _ | set hr | notify hr | unlock hr =>
    rw [hr]
    rfl

theorem serving_step (hs : Serving s) (h : step s a = some s') : Serving s' := by
  intro d l hl hserved
  cases moves_of_step h with
  | quiet _ hcalls howner =>
    rw [hcalls] at hl
    rw [howner]
    exact hs d l hl hserved
  | posts c kind _ hcalls howner =>
    rw [hcalls, Function.update_apply] at hl
    split at hl
    · cases hl
      cases hserved
    · rw [howner]
      exact hs d l hl hserved
  | move c m k k' _ hk _ hcalls howner =>
    rw [hcalls, Function.update_apply] at hl
    split at hl
    · rename_i hdc
      cases hl
      rcases howner with ⟨howner, hrunnable⟩ | ⟨_, howner⟩
      · rw [howner, hdc]
        exact hs c k hk (hrunnable ▸ hserved)
      · rw [howner, hdc]
        exact owner_of_inService hserved
    · rename_i hdc
      have hold := hs d l hl hserved
      rcases howner with ⟨howner, _⟩ | ⟨hfree | hfree, _⟩
      · rw [howner]
        exact hold
      · cases hfree.symm.trans hold
      · cases hfree.symm.trans hold
        exact absurd rfl hdc

theorem serving_of_run {as : List (Act V X)} (h : Machine.Run step init as s) : Serving s :=
  h.invariant (fun _ _ _ hs _ hst => serving_step hs hst) fun c k hk => by cases hk

/-- The system follows where the parties of a call go on to. -/
theorem exists_run_of_goes {c : Nat} {k k' : Call V X} (hs : Serving s) (hk : s.calls c = some k)
    (h : k.Goes k') : ∃ as s', Machine.Run step s as s' ∧ s'.calls c = some k' := by
  obtain ⟨ms, hms, hrun⟩ := h
  induction ms generalizing s k with
  | nil =>
    cases hrun
    exact ⟨[], s, .nil s, hk⟩
  | cons m ms ih =>
    cases hrun with
    | @cons _ l _ _ _ _ hstep hrest =>
      have hmore := fun m' hm' => hms m' (List.mem_cons_of_mem m hm')
      have hact : ∃ a s₁, step s a = some s₁ ∧ s₁.calls c = some l := by
        rcases hms m List.mem_cons_self with rfl | rfl
        · refine ⟨.caller c, _, callerMove_iff.mpr ⟨k, l, hk, hstep, rfl⟩, ?_⟩
          exact Function.update_self ..
        · have howner := hs c k hk (inService_of_goes (runnableNext_iff.mp hstep))
          refine ⟨.runnable, { s with calls := Function.update s.calls c (some l), owner := l.runnable.owner c },
            ?_, Function.update_self ..⟩
          simp only [step, howner]
          exact ownerMove_iff.mpr ⟨k, l, hk, hstep, rfl⟩
      obtain ⟨a, s₁, hst, hl⟩ := hact
      obtain ⟨as, s', hrun', hk'⟩ := ih (serving_step hs hst) hl hmore hrest
      exact ⟨a :: as, s', .cons trivial hst hrun', hk'⟩

/-! ## Whole runs -/

/-- In an undisturbed run a client is not left waiting: once its event has ended, the run goes on to the state in
which its call has answered. -/
theorem answered_of_undisturbed {as : List (Act V X)} {c : Nat} {k : Call V X} {o : Outcome V X}
    (h : Machine.GuardedRun step Undisturbed init as s) (hk : s.calls c = some k) (hblocks : k.kind.blocks = true)
    (ho : k.event = .ended o) :
    ∃ bs s' k', Machine.Run step s bs s' ∧ s'.calls c = some k' ∧ k'.caller = .done (k.kind.answer o) := by
  have hs := h.invariant (fun _ _ _ hs hg hst => inv_step hs hg hst) inv_init
  obtain ⟨k', hgoes, hanswer⟩ := ((hs c k hk hblocks).met hblocks).answers o ho
  obtain ⟨bs, s', hrun, hk'⟩ := exists_run_of_goes (serving_of_run h.run) hk hgoes
  exact ⟨bs, s', k', hrun, hk', hanswer⟩

/-- **Rendezvous.** In every state that a run passes, and whatever the parties of its calls go on with, each
call that waits returns only after its event has ended and with what it ended with, and an event that has ended
brings its caller to that answer, iff the steps of the run are undisturbed. -/
theorem met_iff_undisturbed {as : List (Act V X)} (h : Machine.Run step init as s) :
    (∀ bs t, bs <+: as → Machine.Run step init bs t → Met t) ↔
      Machine.GuardedRun step Undisturbed init as s :=
  (Machine.guardedRun_iff_forall_prefix_of (I := Inv) (P := Met) (fun _ _ _ hs hg hst => inv_step hs hg hst)
    (fun _ hs => met_of_inv hs) (fun _ _ _ hs hst hmet => undisturbed_of_met hs hst hmet) inv_init h).symm

end

/-- No `wait()` returns without a notification, and no event ends in an `Error`. -/
def Act.calm : Act V X → Bool
  | wake _ | finish (.error _) => false
  | _ => true

theorem undisturbed_of_calm {s : State V X} {a : Act V X} (h : s.released = false ∧ a.calm = true) :
    Undisturbed s a := by
  intro c m k hmoved _ _
  cases a with
  | wake d => cases h.2
  | caller d =>
    cases hmoved
    trivial
  | serve =>
    simp only [State.moved] at hmoved
    split at hmoved
    · cases hmoved
      exact fun _ => h.1
    · cases hmoved
  | finish o =>
    simp only [State.moved] at hmoved
    split at hmoved
    · cases hmoved
      cases o with
      | error x => cases h.2
      | value | runtimeException => trivial
    · cases hmoved
  | runnable =>
    simp only [State.moved] at hmoved
    split at hmoved
    · cases hmoved
      trivial
    · cases hmoved
  | call | setReleased | interrupt => cases hmoved

/-- A client calls `post`, waits, and the owner thread takes the event. -/
def sampleServed : List (Act Nat Nat) := [.call 1 .post, .caller 1, .caller 1, .caller 1, .serve]

/-- The event returns 7, the runnable goes on to its end, and so does the caller. -/
def sampleReturned : List (Act Nat Nat) :=
  sampleServed ++ [.finish (.value (some 7)), .runnable, .runnable, .runnable, .runnable, .runnable,
    .caller 1, .caller 1, .caller 1, .caller 1]

theorem met_iff_undisturbed_returned :
    ∃ s, Machine.Run step init sampleReturned s ∧
      (s.calls 1).map Call.caller = some (.done (.returned (some 7))) ∧ Met s := by
  obtain ⟨s, hcalm, hcaller⟩ := Machine.exists_guardedRun_of_execGuarded step
    (fun s a => s.released = false ∧ a.calm = true) init sampleReturned
    (fun s => decide ((s.calls 1).map Call.caller = some (.done (.returned (some 7))))) (by decide)
  have hguarded := hcalm.mono fun _ _ h => undisturbed_of_calm h
  exact ⟨s, hcalm.run, of_decide_eq_true hcaller,
    (met_iff_undisturbed hcalm.run).mpr hguarded _ s List.prefix_rfl hcalm.run⟩

/-- The event throws an `Error`: the client is left waiting. Or the client is interrupted: its call returns
`null` while the event is still running. -/
theorem not_met_error :
    (∃ s k, Machine.Run step init (sampleServed ++ [.finish (.error 0)]) s ∧ s.calls 1 = some k ∧
      k.kind = .post ∧ k.caller = .waiting ∧ k.flag = false ∧ s.owner = .dead ∧ ¬ k.Met) ∧
    (∃ s k, Machine.Run step init (sampleServed ++ [.wake 1, .caller 1, .caller 1, .caller 1, .caller 1]) s ∧
      s.calls 1 = some k ∧ k.kind = .post ∧ k.caller = .done (.returned none) ∧ k.event = .running ∧
      ¬ k.Met) := by
  refine ⟨⟨_, _, Machine.run_of_exec rfl, rfl, rfl, rfl, rfl, rfl, fun h => ?_⟩,
    ⟨_, _, Machine.run_of_exec rfl, rfl, rfl, rfl, rfl, fun h => ?_⟩⟩
  · cases (h.signals _ rfl rfl).1
  · obtain ⟨o, ho, -⟩ := h.returns _ rfl
    cases ho

end QuickJSBridge.Rendezvous
