import Mathlib.Data.List.Basic
import Mathlib.Logic.Function.Basic
import QuickJSBridge.Lib.Machine

/-!
# Closing a runtime while others run

All runtimes of the process keep their contexts in one static map. `QuickJS.close` reads its size and copies
its values in two steps; a copy that does not fit leaves null in the array, the loop ends in a
`NullPointerException`, and the queue drops it.

* `step` — the threads of any number of runtimes on the shared `sContextMap`: the constructor's `put`,
  `JSContext.close` to its `remove`, and the runnable of `QuickJS.close`;
* `Complete` — each close event that has run closed the contexts that were registered when it started, and
  then, once, released the runtime;
* `Undisturbed` — between `size()` and the copy the map neither grows nor shrinks on balance, no context leaves
  it under the pointer of another, and no plugin throws;
* `complete_of_undisturbed` — in every state of such a run every close is complete.
-/

namespace QuickJSBridge.RuntimeClose

/-! ## The machine -/

/-- A `JSContext`. -/
structure Context where
  quickJS : Nat
  contextPtr : Nat
  -- which object: a pointer that was freed is used again
  serial : Nat
  deriving DecidableEq

/-- A native call. -/
inductive Call where
  | releaseContext (c : Context)
  | releaseRuntime
  deriving DecidableEq

/-- Where the thread of a runtime is. A `JSContext.close` has the `rest` of the array if it is called by the loop
of `QuickJS.close`. -/
inductive Phase where
  | idle
  -- in the runnable of `QuickJS.close`, past the test of `released`
  | sizing
  | copying (size : Nat)
  | looping (values : List (Option Context))
  -- in `JSContext.close` past its test of `released`: the plugins and the references are closed
  | closing (c : Context) (rest : Option (List (Option Context)))
  -- before `_releaseContext`
  | freeing (c : Context) (rest : Option (List (Option Context)))
  -- before `sContextMap.remove`
  | removing (c : Context) (rest : Option (List (Option Context)))
  -- between `_releaseRuntime` and `released = true`
  | flagging
  deriving DecidableEq

namespace Phase

/-- A close event between its start and the copy. -/
def beforeCopy : Phase → Bool
  | .sizing | .copying _ => true
  | _ => false

/-- A context between `released = true` and its removal from the map. -/
def betweenFlags : Phase → Bool
  | .freeing _ _ | .removing _ _ => true
  | _ => false

def size? : Phase → Option Nat
  | .copying size => some size
  | _ => none

def removed? : Phase → Option Context
  | .removing c _ => some c
  | _ => none

/-- A plugin of a context that the loop of `QuickJS.close` is closing is being called. -/
def closesForRuntime : Phase → Bool
  | .closing _ (some _) => true
  | _ => false

end Phase

/-- A runtime and its thread. -/
structure Thread where
  phase : Phase
  released : Bool
  calls : List Call
  -- the contexts of the runtime in the map when its last close event started
  registered : List Context
  -- that event has run
  ended : Bool

structure State where
  -- the values of `sContextMap`; the key of each is its `contextPtr`
  contextMap : List Context
  -- `_createContext` has returned
  created : List Context
  -- the constructor has put the context into the map
  constructed : List Context
  closed : Context → Bool
  threads : Nat → Thread

def init : State where
  contextMap := []
  created := []
  constructed := []
  closed := fun _ => false
  threads := fun _ => { phase := .idle, released := false, calls := [], registered := [], ended := false }

inductive Act where
  -- `_createContext`, on any thread
  | create (c : Context)
  -- the last statement of the constructor
  | put (c : Context)
  -- a thread is idle and runs the event of `JSContext.close`
  | closeContext (c : Context)
  -- a thread is idle and runs the event of `QuickJS.close`
  | start (r : Nat)
  | size (r : Nat)
  -- `order` is the order in which the map lists its values
  | copy (r : Nat) (order : List Context)
  | next (r : Nat)
  -- the steps of `JSContext.close`
  | fail (r : Nat)
  | close (r : Nat)
  | free (r : Nat)
  | remove (r : Nat)
  | releaseRuntime (r : Nat)
  | setReleased (r : Nat)
  deriving DecidableEq

/-- `HashMap.remove` -/
def removeKey (map : List Context) (ptr : Nat) : List Context := map.filter (·.contextPtr ≠ ptr)

/-- `values().toArray(array)` of an array with `size` nulls: the array stays as it is if the values do not fit. -/
def toArray (values : List Context) (size : Nat) : List (Option Context) :=
  if values.length ≤ size then values.map some ++ List.replicate (size - values.length) none
  else List.replicate size none

namespace State

/-- The engine has freed the context. -/
def freed (s : State) (c : Context) : Prop := .releaseContext c ∈ (s.threads c.quickJS).calls

instance (s : State) (c : Context) : Decidable (s.freed c) := inferInstanceAs (Decidable (_ ∈ _))

def phase (s : State) (r : Nat) : Phase := (s.threads r).phase

def setThread (s : State) (r : Nat) (t : Thread) : State := { s with threads := Function.update s.threads r t }

def goto (s : State) (r : Nat) (p : Phase) : State := s.setThread r { s.threads r with phase := p }

/-- An exception ends the event of `QuickJS.close`; the queue catches it. -/
def abort (s : State) (r : Nat) : State := s.setThread r { s.threads r with phase := .idle, ended := true }

end State

def step (s : State) : Act → Option State
  | .create c =>
    if c ∉ s.created ∧ ∀ d ∈ s.created, d.contextPtr = c.contextPtr → s.freed d then
      some { s with created := c :: s.created }
    else none
  | .put c =>
    if c ∈ s.created ∧ c ∉ s.constructed then
      some { s with
        contextMap := c :: removeKey s.contextMap c.contextPtr
        constructed := c :: s.constructed }
    else none
  | .closeContext c =>
    if c ∈ s.constructed ∧ s.phase c.quickJS = .idle then
      some (if (s.threads c.quickJS).released ∨ s.closed c then s else s.goto c.quickJS (.closing c none))
    else none
  | .start r =>
    if s.phase r = .idle then
      some (if (s.threads r).released then s
        else s.setThread r { s.threads r with
          phase := .sizing
          registered := s.contextMap.filter (·.quickJS = r)
          ended := false })
    else none
  | .size r =>
    match s.phase r with
    | .sizing => some (s.goto r (.copying s.contextMap.length))
    | _ => none
  | .copy r order =>
    match s.phase r with
    | .copying size => if order.Perm s.contextMap then some (s.goto r (.looping (toArray order size))) else none
    | _ => none
  | .next r =>
    match s.phase r with
    -- `context.getQuickJS()` of null
    | .looping (none :: _) => some (s.abort r)
    | .looping (some c :: rest) =>
      some (s.goto r (if c.quickJS = r ∧ s.closed c = false then .closing c (some rest) else .looping rest))
    | _ => none
  | .fail r =>
    match s.phase r with
    | .closing _ none => some (s.goto r .idle)
    | .closing _ (some _) => some (s.abort r)
    | _ => none
  | .close r =>
    match s.phase r with
    | .closing c rest => some { s.goto r (.freeing c rest) with closed := Function.update s.closed c true }
    | _ => none
  | .free r =>
    match s.phase r with
    | .freeing c rest =>
      some (s.setThread r { s.threads r with
        phase := .removing c rest
        calls := (s.threads r).calls ++ [.releaseContext c] })
    | _ => none
  | .remove r =>
    match s.phase r with
    | .removing c rest =>
      some { s.goto r (rest.elim .idle .looping) with contextMap := removeKey s.contextMap c.contextPtr }
    | _ => none
  | .releaseRuntime r =>
    match s.phase r with
    | .looping [] =>
      some (s.setThread r { s.threads r with
        phase := .flagging
        calls := (s.threads r).calls ++ [.releaseRuntime] })
    | _ => none
  | .setReleased r =>
    match s.phase r with
    | .flagging => some (s.setThread r { s.threads r with phase := .idle, released := true, ended := true })
    | _ => none

/-! ## The property and the guard -/

/-- The runtime was released once, as the last of its native calls, and after its registered contexts. -/
def ReleasedLast (t : Thread) : Prop :=
  ∃ before, t.calls = before ++ [.releaseRuntime] ∧ .releaseRuntime ∉ before ∧
    ∀ c ∈ t.registered, .releaseContext c ∈ before

/-- A close event that has run is complete, and a further close changes nothing. No thread closes a context of
another runtime. -/
structure Complete (s : State) : Prop where
  released : ∀ r, (s.threads r).ended = true → (s.threads r).released = true
  last : ∀ r, (s.threads r).ended = true → ReleasedLast (s.threads r)
  closed : ∀ r, (s.threads r).ended = true → ∀ c ∈ (s.threads r).registered, s.closed c = true
  again : ∀ r s', (s.threads r).ended = true → step s (.start r) = some s' → s' = s
  own : ∀ r c, .releaseContext c ∈ (s.threads r).calls → c.quickJS = r

/-- A close event that has yet to copy the map has the context to close. -/
def State.awaits (s : State) (c : Context) : Prop :=
  (s.phase c.quickJS).beforeCopy = true ∧ c ∈ (s.threads c.quickJS).registered

instance (s : State) (c : Context) : Decidable (s.awaits c) := inferInstanceAs (Decidable (_ ∧ _))

/-- The map has the size that was read; a context is not removed under the pointer of one that a close event has
yet to find; no plugin throws while its runtime is being closed. -/
def Undisturbed (s : State) : Act → Prop
  | .copy r _ => ∀ size ∈ (s.phase r).size?, s.contextMap.length = size ∨ size = 0
  | .remove r => ∀ c ∈ (s.phase r).removed?, ∀ d ∈ s.contextMap, d.contextPtr = c.contextPtr → ¬ s.awaits d
  | .fail r => (s.phase r).closesForRuntime = false
  | _ => True

instance (s : State) : (a : Act) → Decidable (Undisturbed s a)
  | .copy r _ => inferInstanceAs (Decidable (∀ size ∈ (s.phase r).size?, _))
  | .remove r => inferInstanceAs (Decidable (∀ c ∈ (s.phase r).removed?, _))
  | .fail _ => inferInstanceAs (Decidable (_ = _))
  | .create _ | .put _ | .closeContext _ | .start _ | .size _ | .next _ | .close _ | .free _ | .releaseRuntime _
  | .setReleased _ => inferInstanceAs (Decidable True)

/-! ## The invariant

What a thread knows is said of the thread and of the shared parts of the state, so that the steps of the other
threads keep it by one lemma. -/

/-- What the loop still has to do is in the array. -/
structure Todo (s : State) (t : Thread) (values : List (Option Context)) : Prop where
  full : none ∉ values
  constructed : ∀ c, some c ∈ values → c ∈ s.constructed
  registered : ∀ c ∈ t.registered, .releaseContext c ∈ t.calls ∨ some c ∈ values

def PhaseOk (s : State) (r : Nat) (t : Thread) : Phase → Prop
  | .idle | .flagging => True
  | .sizing => ∀ c ∈ t.registered, c ∈ s.contextMap
  | .copying size => (∀ c ∈ t.registered, c ∈ s.contextMap) ∧ (size = 0 → t.registered = [])
  | .looping values => Todo s t values
  | .closing c rest =>
    c.quickJS = r ∧ c ∈ s.constructed ∧ s.closed c = false ∧ ∀ values ∈ rest, Todo s t (some c :: values)
  | .freeing c rest => c.quickJS = r ∧ s.closed c = true ∧ ∀ values ∈ rest, Todo s t (some c :: values)
  | .removing c rest => c.quickJS = r ∧ .releaseContext c ∈ t.calls ∧ ∀ values ∈ rest, Todo s t values

/-- The flags of a thread and its `_releaseRuntime`. -/
structure Life (t : Thread) : Prop where
  ended : t.ended = true → t.released = true
  resting : t.released = true → t.phase = .idle
  running : t.released = false → t.phase ≠ .flagging → .releaseRuntime ∉ t.calls
  last : t.released = true ∨ t.phase = .flagging → ReleasedLast t

structure Good (s : State) (r : Nat) (t : Thread) : Prop where
  own : ∀ c ∈ t.registered, c.quickJS = r
  calls : ∀ c, .releaseContext c ∈ t.calls → c.quickJS = r ∧ s.closed c = true
  constructed : ∀ c, c.quickJS = r → s.closed c = true → c ∈ s.constructed
  -- a context that is freed leaves the map next
  mapped : ∀ c ∈ s.contextMap, .releaseContext c ∈ t.calls → ∃ rest, t.phase = .removing c rest
  -- a context that is closed is freed next
  shut : ∀ c, c.quickJS = r → s.closed c = true → .releaseContext c ∈ t.calls ∨ ∃ rest, t.phase = .freeing c rest
  phase : PhaseOk s r t t.phase
  life : Life t

structure Inv (s : State) : Prop where
  mapped : ∀ c ∈ s.contextMap, c ∈ s.constructed
  created : ∀ c ∈ s.constructed, c ∈ s.created
  distinct : ∀ c ∈ s.created, ∀ d ∈ s.created, c.contextPtr = d.contextPtr → c = d ∨ s.freed c ∨ s.freed d
  good : ∀ r, Good s r (s.threads r)

/-! ## The frame -/

theorem Todo.frame {s s' : State} {t t' : Thread} {values : List (Option Context)} (h : Todo s t values)
    (hconstructed : s.constructed ⊆ s'.constructed) (hregistered : t'.registered = t.registered)
    (hcalls : t.calls ⊆ t'.calls) : Todo s' t' values where
  full := h.full
  constructed c hc := hconstructed (h.constructed c hc)
  registered c hc := (h.registered c (hregistered ▸ hc)).imp_left fun hcall => hcalls hcall

theorem Todo.tail {s : State} {t : Thread} {c : Context} {values : List (Option Context)}
    (h : Todo s t (some c :: values)) (hc : c ∈ t.registered → .releaseContext c ∈ t.calls) : Todo s t values where
  full hmem := h.full (List.mem_cons_of_mem _ hmem)
  constructed d hd := h.constructed d (List.mem_cons_of_mem _ hd)
  registered d hd := by
    rcases h.registered d hd with hcall | hmem
    · exact Or.inl hcall
    · rcases List.mem_cons.mp hmem with heq | hmem
      · cases heq
        exact Or.inl (hc hd)
      · exact Or.inr hmem

theorem PhaseOk.frame {s s' : State} {r : Nat} {t t' : Thread} {p : Phase} (h : PhaseOk s r t p)
    (hclosed : ∀ c, c.quickJS = r → s'.closed c = s.closed c) (hconstructed : s.constructed ⊆ s'.constructed)
    (hstays : p.beforeCopy = true → ∀ c ∈ t.registered, c ∈ s.contextMap → c ∈ s'.contextMap)
    (hregistered : t'.registered = t.registered) (hcalls : t.calls ⊆ t'.calls) : PhaseOk s' r t' p := by
  have htodo : ∀ {values}, Todo s t values → Todo s' t' values :=
    fun h => h.frame hconstructed hregistered hcalls
  cases p with
  | idle => trivial
  | flagging => trivial
  | sizing =>
    intro c hc
    rw [hregistered] at hc
    exact hstays rfl c hc (h c hc)
  | copying size =>
    obtain ⟨hmap, hempty⟩ := h
    constructor
    · intro c hc
      rw [hregistered] at hc
      exact hstays rfl c hc (hmap c hc)
    · rw [hregistered]
      exact hempty
  | looping values => exact htodo h
  | closing c rest =>
    obtain ⟨hr, hc, hopen, hrest⟩ := h
    exact ⟨hr, hconstructed hc, (hclosed c hr).trans hopen, fun values hv => htodo (hrest values hv)⟩
  | freeing c rest =>
    obtain ⟨hr, hc, hrest⟩ := h
    exact ⟨hr, (hclosed c hr).trans hc, fun values hv => htodo (hrest values hv)⟩
  | removing c rest =>
    obtain ⟨hr, hcall, hrest⟩ := h
    exact ⟨hr, hcalls hcall, fun values hv => htodo (hrest values hv)⟩

/-- The shared parts of two states look the same to runtime `r`: what it awaits stays in the map, and what comes
into the map is not freed. -/
structure Looks (s s' : State) (r : Nat) (t : Thread) : Prop where
  closed : ∀ c, c.quickJS = r → s'.closed c = s.closed c
  constructed : s.constructed ⊆ s'.constructed
  enters : ∀ c ∈ s'.contextMap, c ∈ s.contextMap ∨ .releaseContext c ∉ t.calls
  stays : t.phase.beforeCopy = true → ∀ c ∈ t.registered, c ∈ s.contextMap → c ∈ s'.contextMap

theorem Good.frame {s s' : State} {r : Nat} {t : Thread} (h : Good s r t) (hlooks : Looks s s' r t) :
    Good s' r t where
  own := h.own
  calls c hc := ⟨(h.calls c hc).1, (hlooks.closed c (h.calls c hc).1).trans (h.calls c hc).2⟩
  constructed c hr hc := hlooks.constructed (h.constructed c hr (by rw [← hlooks.closed c hr]; exact hc))
  mapped c hc hcall := h.mapped c ((hlooks.enters c hc).resolve_right (not_not_intro hcall)) hcall
  shut c hr hc := h.shut c hr (by rw [← hlooks.closed c hr]; exact hc)
  phase := h.phase.frame hlooks.closed hlooks.constructed hlooks.stays rfl fun _ hc => hc
  life := h.life

/-- A step of thread `r`. It may close contexts of its runtime and take contexts out of the map that the others do
not await. -/
theorem Inv.of_thread {s s' : State} {r : Nat} {t : Thread} (hi : Inv s)
    (hthreads : s'.threads = Function.update s.threads r t)
    (hcreated : s'.created = s.created) (hconstructed : s'.constructed = s.constructed)
    (hmap : s'.contextMap ⊆ s.contextMap)
    (hclosed : ∀ c, c.quickJS ≠ r → s'.closed c = s.closed c)
    (hstays : ∀ c ∈ s.contextMap, c.quickJS ≠ r → s.awaits c → c ∈ s'.contextMap)
    (hcalls : (s.threads r).calls ⊆ t.calls)
    (hgood : Good s' r t) : Inv s' := by
  have hfreed : ∀ c, s.freed c → s'.freed c := by
    intro c hc
    unfold State.freed
    rw [hthreads]
    by_cases hr : c.quickJS = r
    · rw [hr, Function.update_self]
      apply hcalls
      rw [← hr]
      exact hc
    · rw [Function.update_of_ne hr]
      exact hc
  constructor
  · rw [hconstructed]
    exact fun c hc => hi.mapped c (hmap hc)
  · rw [hconstructed, hcreated]
    exact hi.created
  · rw [hcreated]
    intro c hc d hd hptr
    rcases hi.distinct c hc d hd hptr with heq | hfree | hfree
    · exact Or.inl heq
    · exact Or.inr (Or.inl (hfreed c hfree))
    · exact Or.inr (Or.inr (hfreed d hfree))
  · intro r'
    rw [hthreads]
    by_cases hr : r' = r
    · rw [hr, Function.update_self]
      exact hgood
    · rw [Function.update_of_ne hr]
      refine (hi.good r').frame ⟨?_, ?_, fun c hc => Or.inl (hmap hc), ?_⟩
      · exact fun c hc => hclosed c (by rw [hc]; exact hr)
      · rw [hconstructed]
        exact fun _ h => h
      · intro hbefore c hc hmem
        have hown := (hi.good r').own c hc
        refine hstays c hmem (by rw [hown]; exact hr) ⟨?_, ?_⟩
        · rw [hown]
          exact hbefore
        · rw [hown]
          exact hc

/-- A step of thread `r` that leaves the shared parts alone. -/
theorem Inv.setThread {s : State} {r : Nat} {t : Thread} (hi : Inv s) (hcalls : (s.threads r).calls ⊆ t.calls)
    (hgood : Good s r t) : Inv (s.setThread r t) :=
  hi.of_thread rfl rfl rfl (fun _ h => h) (fun _ _ => rfl) (fun _ hc _ _ => hc) hcalls
    (hgood.frame ⟨fun _ _ => rfl, fun _ h => h, fun _ hc => Or.inl hc, fun _ _ _ hc => hc⟩)

/-! ## The steps of a thread -/

/-- Before its `_releaseRuntime` a thread goes from phase to phase. -/
theorem Life.goto {t t' : Thread} (h : Life t) (hreleased : t.released = false) (hphase : t.phase ≠ .flagging)
    (hreleased' : t'.released = false) (hended : t'.ended = true → t.ended = true) (hphase' : t'.phase ≠ .flagging)
    (hcalls : .releaseRuntime ∈ t'.calls → .releaseRuntime ∈ t.calls) : Life t' where
  ended he := absurd (h.ended (hended he)) (by rw [hreleased]; exact Bool.false_ne_true)
  resting hrel := absurd hrel (by rw [hreleased']; exact Bool.false_ne_true)
  running _ _ hmem := h.running hreleased hphase (hcalls hmem)
  last := by
    rintro (hrel | hflag)
    · exact absurd hrel (by rw [hreleased']; exact Bool.false_ne_true)
    · exact absurd hflag hphase'

theorem Inv.phaseOk {s : State} {r : Nat} {p : Phase} (hi : Inv s) (hphase : s.phase r = p) :
    PhaseOk s r (s.threads r) p :=
  hphase ▸ (hi.good r).phase

theorem Good.not_released {s : State} {r : Nat} {t : Thread} (h : Good s r t) (hphase : t.phase ≠ .idle) :
    t.released = false := by
  cases hrel : t.released with
  | false => rfl
  | true => exact absurd (h.life.resting hrel) hphase

/-- With no context half closed, what is in the map is not freed, and what is closed is. -/
theorem Good.not_freed {s : State} {r : Nat} {t : Thread} (h : Good s r t) (hphase : t.phase.betweenFlags = false)
    {c : Context} (hc : c ∈ s.contextMap) : .releaseContext c ∉ t.calls := by
  intro hcall
  obtain ⟨rest, hrest⟩ := h.mapped c hc hcall
  rw [hrest] at hphase
  cases hphase

theorem Good.freed_of_closed {s : State} {r : Nat} {t : Thread} (h : Good s r t)
    (hphase : t.phase.betweenFlags = false) {c : Context} (hr : c.quickJS = r) (hc : s.closed c = true) :
    .releaseContext c ∈ t.calls := by
  rcases h.shut c hr hc with hcall | ⟨rest, hrest⟩
  · exact hcall
  · rw [hrest] at hphase
    cases hphase

/-- A thread that goes to another phase, with no context half closed. -/
theorem Good.goto {s : State} {r : Nat} {t : Thread} {p : Phase} (h : Good s r t)
    (hbetween : t.phase.betweenFlags = false) (hreleased : t.released = false) (hold : t.phase ≠ .flagging)
    (hp : p ≠ .flagging) (hok : PhaseOk s r t p) : Good s r { t with phase := p } where
  own := h.own
  calls := h.calls
  constructed := h.constructed
  mapped _ hc hcall := absurd hcall (h.not_freed hbetween hc)
  shut _ hr hc := Or.inl (h.freed_of_closed hbetween hr hc)
  phase := hok.frame (fun _ _ => rfl) (fun _ hc => hc) (fun _ _ _ hc => hc) rfl fun _ hc => hc
  life := h.life.goto hreleased hold hreleased id hp id

theorem Inv.goto {s : State} {r : Nat} {p q : Phase} (hi : Inv s) (hphase : s.phase r = p)
    (hp : p.betweenFlags = false ∧ p ≠ .idle ∧ p ≠ .flagging) (hq : q ≠ .flagging)
    (hok : PhaseOk s r (s.threads r) q) : Inv (s.goto r q) := by
  have hphase : (s.threads r).phase = p := hphase
  have hgood := hi.good r
  rw [← hphase] at hp
  exact hi.setThread (fun _ h => h) (hgood.goto hp.1 (hgood.not_released hp.2.1) hp.2.2 hq hok)

theorem inv_create {s s' : State} {c : Context} (hi : Inv s) (h : step s (.create c) = some s') : Inv s' := by
  simp only [step] at h
  split at h
  · rename_i hfresh
    obtain ⟨_, hfresh⟩ := hfresh
    rw [← Option.some.inj h]
    constructor
    · exact hi.mapped
    · exact fun d hd => List.mem_cons_of_mem _ (hi.created d hd)
    · intro d hd e he hptr
      rcases List.mem_cons.mp hd with hdc | hd'
      · rcases List.mem_cons.mp he with hec | he'
        · exact Or.inl (hdc.trans hec.symm)
        · exact Or.inr (Or.inr (hfresh e he' (by rw [← hptr, hdc])))
      · rcases List.mem_cons.mp he with hec | he'
        · exact Or.inr (Or.inl (hfresh d hd' (by rw [hptr, hec])))
        · exact hi.distinct d hd' e he' hptr
    · exact fun r => (hi.good r).frame
        ⟨fun _ _ => rfl, fun _ h => h, fun _ hc => Or.inl hc, fun _ _ _ hc => hc⟩
  · cases h

theorem mem_removeKey {map : List Context} {ptr : Nat} {c : Context} :
    c ∈ removeKey map ptr ↔ c ∈ map ∧ c.contextPtr ≠ ptr := by
  unfold removeKey
  rw [List.mem_filter, decide_eq_true_eq]

/-- The new entry may replace one whose context was freed. -/
theorem inv_put {s s' : State} {c : Context} (hi : Inv s) (h : step s (.put c) = some s') : Inv s' := by
  simp only [step] at h
  split at h
  · rename_i hput
    obtain ⟨hcreated, hnew⟩ := hput
    rw [← Option.some.inj h]
    have hopen : ∀ r, .releaseContext c ∉ (s.threads r).calls := by
      intro r hcall
      obtain ⟨hr, hclosed⟩ := (hi.good r).calls c hcall
      exact hnew ((hi.good r).constructed c hr hclosed)
    constructor
    · intro d hd
      rcases List.mem_cons.mp hd with rfl | hd
      · exact List.mem_cons_self
      · exact List.mem_cons_of_mem _ (hi.mapped d (mem_removeKey.mp hd).1)
    · intro d hd
      rcases List.mem_cons.mp hd with rfl | hd
      · exact hcreated
      · exact hi.created d hd
    · exact hi.distinct
    · intro r
      refine (hi.good r).frame ⟨fun _ _ => rfl, List.subset_cons_self _ _, ?_, ?_⟩
      · intro d hd
        rcases List.mem_cons.mp hd with rfl | hd
        · exact Or.inr (hopen r)
        · exact Or.inl (mem_removeKey.mp hd).1
      · -- what is awaited is not freed, so the constructor was not given its pointer
        intro hbefore d hd hmem
        apply List.mem_cons_of_mem
        rw [mem_removeKey]
        refine ⟨hmem, fun hptr => ?_⟩
        have hr := (hi.good r).own d hd
        have hbetween : (s.threads r).phase.betweenFlags = false := by
          revert hbefore
          cases (s.threads r).phase <;> first | exact fun _ => rfl | exact fun h => nomatch h
        rcases hi.distinct d (hi.created d (hi.mapped d hmem)) c hcreated hptr with rfl | hfree | hfree
        · exact hnew (hi.mapped d hmem)
        · apply (hi.good r).not_freed hbetween hmem
          rw [← hr]
          exact hfree
        · exact hopen _ hfree
  · cases h

theorem inv_closeContext {s s' : State} {c : Context} (hi : Inv s) (h : step s (.closeContext c) = some s') :
    Inv s' := by
  simp only [step] at h
  split at h
  · rename_i hidle
    obtain ⟨hc, hidle⟩ := hidle
    rw [← Option.some.inj h]
    split
    · exact hi
    · rename_i hopen
      rw [not_or, Bool.not_eq_true, Bool.not_eq_true] at hopen
      have hphase : (s.threads c.quickJS).phase = .idle := hidle
      have hquiet : (s.threads c.quickJS).phase.betweenFlags = false ∧
          (s.threads c.quickJS).phase ≠ .flagging := by
        rw [hphase]
        exact ⟨rfl, Phase.noConfusion⟩
      exact hi.setThread (fun _ h => h) ((hi.good c.quickJS).goto hquiet.1 hopen.1 hquiet.2 Phase.noConfusion
        ⟨rfl, hc, hopen.2, fun _ hv => nomatch hv⟩)
  · cases h

theorem inv_start {s s' : State} {r : Nat} (hi : Inv s) (h : step s (.start r) = some s') : Inv s' := by
  simp only [step] at h
  split at h
  · rename_i hidle
    have hphase : (s.threads r).phase = .idle := hidle
    rw [← Option.some.inj h]
    split
    · exact hi
    · rename_i hopen
      rw [Bool.not_eq_true] at hopen
      have hgood := hi.good r
      have hbetween : (s.threads r).phase.betweenFlags = false := by rw [hphase]; rfl
      have hregistered : ∀ c ∈ s.contextMap.filter (·.quickJS = r), c ∈ s.contextMap ∧ c.quickJS = r := by
        intro c hc
        rw [List.mem_filter, decide_eq_true_eq] at hc
        exact hc
      refine hi.setThread ?_ ?_
      · exact fun _ h => h
      · exact {
          own := fun c hc => (hregistered c hc).2
          calls := hgood.calls
          constructed := hgood.constructed
          mapped := fun c hc hcall => absurd hcall (hgood.not_freed hbetween hc)
          shut := fun c hr hc => Or.inl (hgood.freed_of_closed hbetween hr hc)
          phase := fun c hc => (hregistered c hc).1
          life := hgood.life.goto hopen (by rw [hphase]; exact Phase.noConfusion) hopen (fun he => nomatch he)
            Phase.noConfusion id }
  · cases h

theorem inv_size {s s' : State} {r : Nat} (hi : Inv s) (h : step s (.size r) = some s') : Inv s' := by
  simp only [step] at h
  split at h
  · rename_i hphase
    rw [← Option.some.inj h]
    have hok := hi.phaseOk hphase
    refine hi.goto hphase ⟨rfl, Phase.noConfusion, Phase.noConfusion⟩ Phase.noConfusion ⟨hok, fun hzero => ?_⟩
    rw [List.length_eq_zero_iff] at hzero
    apply List.eq_nil_iff_forall_not_mem.mpr
    intro c hc
    have hmem := hok c hc
    rw [hzero] at hmem
    cases hmem
  · cases h

theorem toArray_eq {values : List Context} {size : Nat} (h : values.length = size ∨ size = 0) :
    toArray values size = values.map some ∨ toArray values size = [] ∧ size = 0 := by
  unfold toArray
  split
  · left
    rw [show size - values.length = 0 by omega, List.replicate_zero, List.append_nil]
  · right
    have hzero : size = 0 := by omega
    rw [hzero]
    exact ⟨rfl, rfl⟩

theorem inv_copy {s s' : State} {r : Nat} {order : List Context} (hi : Inv s) (hg : Undisturbed s (.copy r order))
    (h : step s (.copy r order) = some s') : Inv s' := by
  simp only [step] at h
  split at h
  · rename_i size hphase
    split at h
    · rename_i hperm
      rw [← Option.some.inj h]
      obtain ⟨hmap, hempty⟩ := hi.phaseOk hphase
      have hsize : order.length = size ∨ size = 0 := by
        rw [hperm.length_eq]
        apply hg size
        rw [hphase]
        rfl
      apply hi.goto hphase ⟨rfl, Phase.noConfusion, Phase.noConfusion⟩ Phase.noConfusion
      show Todo s (s.threads r) (toArray order size)
      rcases toArray_eq hsize with harray | ⟨harray, hzero⟩
      · rw [harray]
        constructor
        · simp
        · intro c hc
          obtain ⟨d, hd, heq⟩ := List.mem_map.mp hc
          rw [← Option.some.inj heq]
          exact hi.mapped d (hperm.mem_iff.mp hd)
        · exact fun c hc => Or.inr (List.mem_map_of_mem (hperm.mem_iff.mpr (hmap c hc)))
      · rw [harray]
        refine ⟨List.not_mem_nil, fun c hc => absurd hc List.not_mem_nil, ?_⟩
        rw [hempty hzero]
        exact fun c hc => absurd hc List.not_mem_nil
    · cases h
  · cases h

theorem inv_next {s s' : State} {r : Nat} (hi : Inv s) (h : step s (.next r) = some s') : Inv s' := by
  simp only [step] at h
  split at h
  · rename_i rest hphase
    have hok := hi.phaseOk hphase
    exact absurd List.mem_cons_self (Todo.full hok)
  · rename_i c rest hphase
    have hgood := hi.good r
    have hphase' : (s.threads r).phase = .looping (some c :: rest) := hphase
    have hok := hi.phaseOk hphase
    rw [← Option.some.inj h]
    have hquiet : (Phase.looping (some c :: rest)).betweenFlags = false ∧
        Phase.looping (some c :: rest) ≠ .idle ∧ Phase.looping (some c :: rest) ≠ .flagging :=
      ⟨rfl, Phase.noConfusion, Phase.noConfusion⟩
    by_cases hc : c.quickJS = r ∧ s.closed c = false
    · rw [if_pos hc]
      refine hi.goto hphase hquiet Phase.noConfusion ⟨hc.1, ?_, hc.2, ?_⟩
      · exact Todo.constructed hok c List.mem_cons_self
      · rintro values ⟨⟩
        exact hok
    · rw [if_neg hc]
      apply hi.goto hphase hquiet Phase.noConfusion
      apply Todo.tail hok
      intro hregistered
      have hr := hgood.own c hregistered
      apply hgood.freed_of_closed (by rw [hphase']; rfl) hr
      cases hclosed : s.closed c with
      | true => rfl
      | false => exact absurd ⟨hr, hclosed⟩ hc
  · cases h

theorem inv_fail {s s' : State} {r : Nat} (hi : Inv s) (hg : Undisturbed s (.fail r))
    (h : step s (.fail r) = some s') : Inv s' := by
  simp only [step] at h
  split at h
  · rename_i c hphase
    rw [← Option.some.inj h]
    exact hi.goto hphase ⟨rfl, Phase.noConfusion, Phase.noConfusion⟩ Phase.noConfusion trivial
  · rename_i c values hphase
    have hg : (s.phase r).closesForRuntime = false := hg
    rw [hphase] at hg
    cases hg
  · cases h

theorem inv_close {s s' : State} {r : Nat} (hi : Inv s) (h : step s (.close r) = some s') : Inv s' := by
  simp only [step] at h
  split at h
  · rename_i c rest hphase
    have hgood := hi.good r
    obtain ⟨hr, hc, _, htodo⟩ := hi.phaseOk hphase
    have hphase : (s.threads r).phase = .closing c rest := hphase
    have hbetween : (s.threads r).phase.betweenFlags = false := by rw [hphase]; rfl
    have hreleased := hgood.not_released (by rw [hphase]; exact Phase.noConfusion)
    have hmono : ∀ d, s.closed d = true → Function.update s.closed c true d = true := by
      intro d hd
      by_cases hdc : d = c
      · rw [hdc, Function.update_self]
      · rw [Function.update_of_ne hdc]
        exact hd
    have hcases : ∀ d, Function.update s.closed c true d = true → d = c ∨ s.closed d = true := by
      intro d hd
      by_cases hdc : d = c
      · exact Or.inl hdc
      · rw [Function.update_of_ne hdc] at hd
        exact Or.inr hd
    rw [← Option.some.inj h]
    refine hi.of_thread rfl rfl rfl (fun _ h => h) ?_ (fun _ hd _ _ => hd) (fun _ h => h) ?_
    · intro d hd
      exact Function.update_of_ne (fun hdc => hd (by rw [hdc]; exact hr)) _ _
    · exact {
        own := hgood.own
        calls := fun d hd => ⟨(hgood.calls d hd).1, hmono d (hgood.calls d hd).2⟩
        constructed := by
          intro d hdr hd
          rcases hcases d hd with rfl | hd
          · exact hc
          · exact hgood.constructed d hdr hd
        mapped := fun d hd hcall => absurd hcall (hgood.not_freed hbetween hd)
        shut := by
          intro d hdr hd
          rcases hcases d hd with rfl | hd
          · exact Or.inr ⟨rest, rfl⟩
          · exact Or.inl (hgood.freed_of_closed hbetween hdr hd)
        phase := ⟨hr, Function.update_self _ _ _, fun values hv =>
          (htodo values hv).frame (fun _ h => h) rfl fun _ h => h⟩
        life := hgood.life.goto hreleased (by rw [hphase]; exact Phase.noConfusion) hreleased id
          Phase.noConfusion id }
  · cases h

theorem inv_free {s s' : State} {r : Nat} (hi : Inv s) (h : step s (.free r) = some s') : Inv s' := by
  simp only [step] at h
  split at h
  · rename_i c rest hphase
    have hgood := hi.good r
    obtain ⟨hr, hclosed, htodo⟩ := hi.phaseOk hphase
    have hphase : (s.threads r).phase = .freeing c rest := hphase
    have hreleased := hgood.not_released (by rw [hphase]; exact Phase.noConfusion)
    have hcases : ∀ d, .releaseContext d ∈ (s.threads r).calls ++ [.releaseContext c] →
        d = c ∨ .releaseContext d ∈ (s.threads r).calls := by
      intro d hd
      rcases List.mem_append.mp hd with hd | hd
      · exact Or.inr hd
      · exact Or.inl (Call.releaseContext.inj (List.mem_singleton.mp hd))
    have hlast : Call.releaseContext c ∈ (s.threads r).calls ++ [.releaseContext c] :=
      List.mem_append_right _ List.mem_cons_self
    have hcalls : (s.threads r).calls ⊆ (s.threads r).calls ++ [.releaseContext c] :=
      List.subset_append_left _ _
    rw [← Option.some.inj h]
    apply hi.setThread hcalls
    exact {
      own := hgood.own
      calls := by
        intro d hd
        rcases hcases d hd with rfl | hd
        · exact ⟨hr, hclosed⟩
        · exact hgood.calls d hd
      constructed := hgood.constructed
      mapped := by
        intro d hd hcall
        rcases hcases d hcall with rfl | hcall
        · exact ⟨rest, rfl⟩
        · obtain ⟨_, hremoving⟩ := hgood.mapped d hd hcall
          cases hphase.symm.trans hremoving
      shut := by
        intro d hdr hd
        rcases hgood.shut d hdr hd with hcall | ⟨_, hfreeing⟩
        · exact Or.inl (hcalls hcall)
        · cases hphase.symm.trans hfreeing
          exact Or.inl hlast
      phase := by
        refine ⟨hr, hlast, fun values hv => ?_⟩
        apply Todo.tail
        · exact (htodo values hv).frame (fun _ h => h) rfl hcalls
        · exact fun _ => hlast
      life := by
        refine hgood.life.goto hreleased (by rw [hphase]; exact Phase.noConfusion) hreleased id
          Phase.noConfusion fun hmem => ?_
        rcases List.mem_append.mp hmem with hmem | hmem
        · exact hmem
        · cases List.mem_singleton.mp hmem }
  · cases h

/-- The entry that is removed may be that of another runtime's context, at the pointer that was freed. -/
theorem inv_remove {s s' : State} {r : Nat} (hi : Inv s) (hg : Undisturbed s (.remove r))
    (h : step s (.remove r) = some s') : Inv s' := by
  simp only [step] at h
  split at h
  · rename_i c rest hphase
    have hgood := hi.good r
    have hguard : ∀ d ∈ s.contextMap, d.contextPtr = c.contextPtr → ¬ s.awaits d := by
      apply hg c
      rw [hphase]
      rfl
    obtain ⟨_, _, htodo⟩ := hi.phaseOk hphase
    have hphase : (s.threads r).phase = .removing c rest := hphase
    have hreleased := hgood.not_released (by rw [hphase]; exact Phase.noConfusion)
    rw [← Option.some.inj h]
    refine hi.of_thread rfl rfl rfl (fun d hd => (mem_removeKey.mp hd).1) (fun _ _ => rfl) ?_ (fun _ h => h) ?_
    · intro d hd _ hawaits
      exact mem_removeKey.mpr ⟨hd, fun hptr => hguard d hd hptr hawaits⟩
    · exact {
        own := hgood.own
        calls := hgood.calls
        constructed := hgood.constructed
        mapped := by
          intro d hd hcall
          obtain ⟨hmem, hptr⟩ := mem_removeKey.mp hd
          obtain ⟨_, hremoving⟩ := hgood.mapped d hmem hcall
          cases hphase.symm.trans hremoving
          exact absurd rfl hptr
        shut := by
          intro d hdr hd
          rcases hgood.shut d hdr hd with hcall | ⟨_, hfreeing⟩
          · exact Or.inl hcall
          · cases hphase.symm.trans hfreeing
        phase := by
          cases rest with
          | none => trivial
          | some values => exact (htodo values rfl).frame (fun _ h => h) rfl fun _ h => h
        life := by
          refine hgood.life.goto hreleased (by rw [hphase]; exact Phase.noConfusion) hreleased id ?_ id
          cases rest with
          | none => exact Phase.noConfusion
          | some values => exact Phase.noConfusion }
  · cases h

theorem inv_releaseRuntime {s s' : State} {r : Nat} (hi : Inv s) (h : step s (.releaseRuntime r) = some s') :
    Inv s' := by
  simp only [step] at h
  split at h
  · rename_i hphase
    have hgood := hi.good r
    have hok := hi.phaseOk hphase
    have hphase : (s.threads r).phase = .looping [] := hphase
    have hbetween : (s.threads r).phase.betweenFlags = false := by rw [hphase]; rfl
    have hreleased := hgood.not_released (by rw [hphase]; exact Phase.noConfusion)
    have hlast : ReleasedLast { s.threads r with
        phase := .flagging, calls := (s.threads r).calls ++ [.releaseRuntime] } := by
      refine ⟨(s.threads r).calls, rfl, ?_, fun c hc => ?_⟩
      · exact hgood.life.running hreleased (by rw [hphase]; exact Phase.noConfusion)
      · -- the array is used up
        exact (Todo.registered hok c hc).resolve_right List.not_mem_nil
    have hcalls : ∀ c, .releaseContext c ∈ (s.threads r).calls ++ [.releaseRuntime] →
        .releaseContext c ∈ (s.threads r).calls := by
      intro c hc
      rcases List.mem_append.mp hc with hc | hc
      · exact hc
      · cases List.mem_singleton.mp hc
    rw [← Option.some.inj h]
    apply hi.setThread (List.subset_append_left _ _)
    exact {
      own := hgood.own
      calls := fun c hc => hgood.calls c (hcalls c hc)
      constructed := hgood.constructed
      mapped := fun c hc hcall => absurd (hcalls c hcall) (hgood.not_freed hbetween hc)
      shut := fun c hr hc => Or.inl (List.mem_append_left _ (hgood.freed_of_closed hbetween hr hc))
      phase := trivial
      life := {
        ended := hgood.life.ended
        resting := fun hrel => nomatch hreleased.symm.trans hrel
        running := fun _ hflag => absurd rfl hflag
        last := fun _ => hlast } }
  · cases h

theorem inv_setReleased {s s' : State} {r : Nat} (hi : Inv s) (h : step s (.setReleased r) = some s') :
    Inv s' := by
  simp only [step] at h
  split at h
  · rename_i hphase
    have hgood := hi.good r
    have hphase : (s.threads r).phase = .flagging := hphase
    have hbetween : (s.threads r).phase.betweenFlags = false := by rw [hphase]; rfl
    rw [← Option.some.inj h]
    refine hi.setThread ?_ ?_
    · exact fun _ h => h
    · exact {
        own := hgood.own
        calls := hgood.calls
        constructed := hgood.constructed
        mapped := fun c hc hcall => absurd hcall (hgood.not_freed hbetween hc)
        shut := fun c hr hc => Or.inl (hgood.freed_of_closed hbetween hr hc)
        phase := trivial
        life := {
          ended := fun _ => rfl
          resting := fun _ => rfl
          running := fun hrel => nomatch hrel
          last := fun _ => hgood.life.last (Or.inr hphase) } }
  · cases h

theorem inv_step {s s' : State} {a : Act} (hi : Inv s) (hg : Undisturbed s a) (h : step s a = some s') :
    Inv s' := by
  cases a with
  | create c => exact inv_create hi h
  | put c => exact inv_put hi h
  | closeContext c => exact inv_closeContext hi h
  | start r => exact inv_start hi h
  | size r => exact inv_size hi h
  | copy r order => exact inv_copy hi hg h
  | next r => exact inv_next hi h
  | fail r => exact inv_fail hi hg h
  | close r => exact inv_close hi h
  | free r => exact inv_free hi h
  | remove r => exact inv_remove hi hg h
  | releaseRuntime r => exact inv_releaseRuntime hi h
  | setReleased r => exact inv_setReleased hi h

theorem inv_init : Inv init where
  mapped _ hc := absurd hc List.not_mem_nil
  created _ hc := absurd hc List.not_mem_nil
  distinct _ hc := absurd hc List.not_mem_nil
  good _ := {
    own := fun _ hc => absurd hc List.not_mem_nil
    calls := fun _ hc => absurd hc List.not_mem_nil
    constructed := fun _ _ hc => nomatch hc
    mapped := fun _ hc => absurd hc List.not_mem_nil
    shut := fun _ _ hc => nomatch hc
    phase := trivial
    life := {
      ended := fun h => nomatch h
      resting := fun h => nomatch h
      running := fun _ _ => List.not_mem_nil
      last := by
        rintro (h | h)
        · cases h
        · cases h } }

/-! ## Runs -/

theorem Inv.complete {s : State} (hi : Inv s) : Complete s where
  released r hended := (hi.good r).life.ended hended
  last r hended := (hi.good r).life.last (Or.inl ((hi.good r).life.ended hended))
  closed r hended c hc := by
    obtain ⟨before, hcalls, _, hbefore⟩ := (hi.good r).life.last (Or.inl ((hi.good r).life.ended hended))
    apply ((hi.good r).calls c _).2
    rw [hcalls]
    exact List.mem_append_left _ (hbefore c hc)
  again r s' hended h := by
    simp only [step] at h
    split at h
    · rw [if_pos ((hi.good r).life.ended hended)] at h
      exact (Option.some.inj h).symm
    · cases h
  own r c hc := ((hi.good r).calls c hc).1

/-- **Complete closes.** In every state of a run whose steps are all undisturbed every close event that has run is
complete. -/
theorem complete_of_undisturbed {as : List Act} {s : State} (h : Machine.GuardedRun step Undisturbed init as s) :
    Complete s :=
  (h.invariant (fun _ _ _ hi hg hst => inv_step hi hg hst) inv_init).complete

/-- A context of runtime 0 and one of runtime 1. -/
def first : Context := { quickJS := 0, contextPtr := 16, serial := 0 }

def second : Context := { quickJS := 1, contextPtr := 32, serial := 0 }

/-- Runtime 0 is closed while runtime 1 has a context, which is closed after the copy. -/
def closeBesideOther : List Act :=
  [.create first, .put first, .create second, .put second, .start 0, .size 0, .copy 0 [second, first],
    .closeContext second, .close 1, .free 1, .next 0, .remove 1, .next 0, .close 0, .free 0, .remove 0,
    .releaseRuntime 0, .setReleased 0]

theorem complete_of_undisturbed_beside :
    ∃ s, Machine.GuardedRun step Undisturbed init closeBesideOther s ∧
      (s.threads 0).calls = [.releaseContext first, .releaseRuntime] ∧ Complete s := by
  obtain ⟨s, hrun, hcalls⟩ := Machine.exists_guardedRun_of_execGuarded step Undisturbed init closeBesideOther
    (fun s => decide ((s.threads 0).calls = [.releaseContext first, .releaseRuntime])) (by decide)
  exact ⟨s, hrun, of_decide_eq_true hcalls, complete_of_undisturbed hrun⟩

/-- Runtime 1 closes its context between `size()` and the copy: the loop of runtime 0 meets a null, and runtime 0
is not released. -/
theorem not_complete_other_closes : ¬ ∀ as s, Machine.Run step init as s → Complete s := by
  intro hall
  obtain ⟨s, hrun, hended⟩ := Machine.exists_run_of_exec step init
    [.create first, .put first, .create second, .put second, .start 0, .size 0, .closeContext second, .close 1,
      .free 1, .remove 1, .copy 0 [first], .next 0, .close 0, .free 0, .remove 0, .next 0]
    (fun s => (s.threads 0).ended && !(s.threads 0).released) (by decide)
  rw [Bool.and_eq_true, Bool.not_eq_true'] at hended
  have hreleased := (hall _ s hrun).released 0 hended.1
  rw [hended.2] at hreleased
  cases hreleased

end QuickJSBridge.RuntimeClose
