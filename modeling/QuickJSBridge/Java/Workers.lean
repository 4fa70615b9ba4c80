import Mathlib.Data.List.Basic
import Mathlib.Logic.Function.Basic
import QuickJSBridge.Jni.Marshal
import QuickJSBridge.Lib.Machine

/-!
# The registry of the workers

`WorkerPlugin` keeps the workers of all the contexts it was added to in one map, under the `tag` field of the
worker's object, and a context that closes makes it close all workers of the map.

* `getTag` — the key; `latest_struct64`: in the struct layout all workers have the same;
* `step` — contexts that add the plugin and close, scripts that create workers and terminate them;
* `ClosesOwn` — a context that closes closes its workers, and none of another open context;
* `LatestOnly` — at a close, the workers of the context are the latest of their keys, and the latest of no key is
  one of another open context;
* `closesOwn_iff_latestOnly` — a run keeps the first at every close iff it has the second.
-/

namespace QuickJSBridge.Workers

variable {L : Layout}

/-! ## The machine -/

/-- A `WorkerPlugin.Worker`. -/
structure Worker (L : Layout) where
  id : Nat
  -- the context whose script created it
  context : Nat
  -- the JS object of `workerObj`
  thisObj : Addr L
  deriving DecidableEq

/-- `thisObj.getTag()` -/
def Worker.getTag (w : Worker L) : BitVec 64 := (javaFields (JSVal.object w.thisObj).raw).tag

/-- The tags of any two workers are equal. -/
theorem getTag_struct64 (w w' : Worker .struct64) : w.getTag = w'.getTag := rfl

structure State (L : Layout) where
  -- the contexts the plugin was added to
  added : List Nat
  closed : Nat → Bool
  -- the values of the map; the key of each is its `getTag`
  workers : List (Worker L)
  -- all workers, the latest first
  created : List (Worker L)
  -- the flag `terminate`
  terminated : Worker L → Bool
  -- the workers to whose runtime `QuickJS.close` was posted
  posted : List (Worker L)

def init : State L where
  added := []
  closed := fun _ => false
  workers := []
  created := []
  terminated := fun _ => false
  posted := []

inductive Act (L : Layout) where
  | addPlugin (c : Nat)
  -- a script evaluates `new Worker(url)`
  | create (w : Worker L)
  -- a script calls `worker.terminate()`
  | terminate (w : Worker L)
  -- `JSContext.close`
  | close (c : Nat)
  deriving DecidableEq

namespace State

/-- `Worker.close` -/
def closeWorker (s : State L) (w : Worker L) : State L :=
  if s.terminated w then s
  else { s with terminated := Function.update s.terminated w true, posted := s.posted ++ [w] }

/-- `WorkerPlugin.close` -/
def closeWorkers (s : State L) : State L := s.workers.foldl closeWorker s

end State

/-- `workers.put(thisObj.getTag(), …)` -/
def put (workers : List (Worker L)) (w : Worker L) : List (Worker L) :=
  w :: workers.filter (·.getTag ≠ w.getTag)

def step (s : State L) : Act L → Option (State L)
  -- in a closed context `checkReleased` throws
  | .addPlugin c => some (if s.closed c ∨ c ∈ s.added then s else { s with added := c :: s.added })
  -- the callbacks of a closed context are gone
  | .create w =>
    if w.context ∈ s.added ∧ s.closed w.context = false ∧ w ∉ s.created then
      some { s with workers := put s.workers w, created := w :: s.created }
    else none
  | .terminate w =>
    if w ∈ s.created ∧ s.closed w.context = false then some (s.closeWorker w) else none
  | .close c =>
    some (if s.closed c then s
      else { (if c ∈ s.added then s.closeWorkers else s) with closed := Function.update s.closed c true })

/-! ## The property and the guard -/

/-- The close of `c` from `s` to `s'` closes the workers of `c` that were not terminated, and none of another open
context. -/
def ClosesOwn (s : State L) (c : Nat) (s' : State L) : Prop :=
  s.closed c = false → ∀ w ∈ s.created, s.terminated w = false →
    (w.context = c → w ∈ s'.posted) ∧ (w.context ≠ c → s.closed w.context = false → w ∉ s'.posted)

/-- No worker was created later under the key. -/
def State.Latest (s : State L) (w : Worker L) : Prop := s.created.find? (·.getTag = w.getTag) = some w

instance (s : State L) (w : Worker L) : Decidable (s.Latest w) := inferInstanceAs (Decidable (_ = _))

/-- In the struct layout only the worker that was created last is the latest. -/
theorem latest_struct64 {s : State .struct64} {w : Worker .struct64} : s.Latest w ↔ s.created.head? = some w := by
  unfold State.Latest
  cases s.created with
  | nil => exact Iff.rfl
  | cons u created =>
    have hfind : (u :: created).find? (·.getTag = w.getTag) = some u :=
      List.find?_cons_of_pos (decide_eq_true (getTag_struct64 u w))
    rw [hfind]
    exact Iff.rfl

/-- Of the workers that are not terminated, those of the context that closes are the latest of their keys, and
those of the other open contexts are not. -/
def LatestOnly (s : State L) : Act L → Prop
  | .close c => s.closed c = false → c ∈ s.added → ∀ w ∈ s.created, s.terminated w = false →
      (w.context = c → s.Latest w) ∧ (w.context ≠ c → s.closed w.context = false → ¬ s.Latest w)
  | _ => True

instance (s : State L) : (a : Act L) → Decidable (LatestOnly s a)
  | .close _ => inferInstanceAs (Decidable (_ → _ → ∀ w ∈ s.created, _ → _ ∧ _))
  | .addPlugin _ | .create _ | .terminate _ => inferInstanceAs (Decidable True)

/-! ## The invariant -/

structure Inv (s : State L) : Prop where
  -- the map holds the latest worker of each key
  latest : ∀ w, w ∈ s.workers ↔ s.Latest w
  posted : ∀ w, w ∈ s.posted ↔ s.terminated w = true
  added : ∀ w ∈ s.created, w.context ∈ s.added

theorem mem_put {workers : List (Worker L)} {w u : Worker L} :
    u ∈ put workers w ↔ u = w ∨ u ∈ workers ∧ u.getTag ≠ w.getTag := by
  unfold put
  rw [List.mem_cons, List.mem_filter, decide_eq_true_eq]

/-- What `WorkerPlugin.close` changes of the state. -/
structure Closes (s s' : State L) (ws : List (Worker L)) : Prop where
  added : s'.added = s.added
  closed : s'.closed = s.closed
  workers : s'.workers = s.workers
  created : s'.created = s.created
  terminated : ∀ w, s'.terminated w = true ↔ s.terminated w = true ∨ w ∈ ws
  posted : ∀ w, w ∈ s'.posted ↔ w ∈ s.posted ∨ s.terminated w = false ∧ w ∈ ws

theorem closes_closeWorker (s : State L) (w : Worker L) : Closes s (s.closeWorker w) [w] := by
  unfold State.closeWorker
  split
  · rename_i hterm
    refine ⟨rfl, rfl, rfl, rfl, fun u => ?_, fun u => ?_⟩
    · rw [List.mem_singleton]
      constructor
      · exact Or.inl
      · rintro (hu | rfl)
        · exact hu
        · exact hterm
    · rw [List.mem_singleton]
      constructor
      · exact Or.inl
      · rintro (hu | ⟨hopen, rfl⟩)
        · exact hu
        · exact nomatch hopen.symm.trans hterm
  · rename_i hterm
    rw [Bool.not_eq_true] at hterm
    refine ⟨rfl, rfl, rfl, rfl, fun u => ?_, fun u => ?_⟩
    · rw [List.mem_singleton]
      show Function.update s.terminated w true u = true ↔ _
      by_cases huw : u = w
      · rw [huw, Function.update_self]
        exact ⟨fun _ => Or.inr rfl, fun _ => rfl⟩
      · rw [Function.update_of_ne huw]
        exact ⟨Or.inl, fun h => h.resolve_right huw⟩
    · show u ∈ s.posted ++ [w] ↔ _
      rw [List.mem_append, List.mem_singleton]
      constructor
      · rintro (hu | rfl)
        · exact Or.inl hu
        · exact Or.inr ⟨hterm, rfl⟩
      · exact fun h => h.imp_right And.right

theorem Closes.trans {s s' s'' : State L} {ws ws' : List (Worker L)} (h : Closes s s' ws) (h' : Closes s' s'' ws') :
    Closes s s'' (ws ++ ws') where
  added := h'.added.trans h.added
  closed := h'.closed.trans h.closed
  workers := h'.workers.trans h.workers
  created := h'.created.trans h.created
  terminated w := by rw [h'.terminated, h.terminated, List.mem_append, or_assoc]
  posted w := by
    have hterm : s'.terminated w = false ↔ s.terminated w = false ∧ w ∉ ws := by
      rw [← Bool.not_eq_true, h.terminated w, not_or, Bool.not_eq_true]
    rw [h'.posted, h.posted, hterm, List.mem_append]
    by_cases hw : w ∈ ws <;> simp [hw]

/-- The loop of `WorkerPlugin.close`, over any values. -/
theorem closes_foldl (ws : List (Worker L)) (s : State L) : Closes s (ws.foldl State.closeWorker s) ws := by
  induction ws generalizing s with
  | nil => exact ⟨rfl, rfl, rfl, rfl, fun w => by simp, fun w => by simp⟩
  | cons w ws ih => exact (closes_closeWorker s w).trans (ih (s.closeWorker w))

theorem Inv.closes {s s' : State L} {ws : List (Worker L)} (hi : Inv s) (h : Closes s s' ws) : Inv s' where
  latest w := by
    unfold State.Latest
    rw [h.workers, h.created]
    exact hi.latest w
  posted w := by
    rw [h.posted, h.terminated, hi.posted]
    cases s.terminated w <;> simp
  added := by
    rw [h.created, h.added]
    exact hi.added

/-! ## The step lemmas -/

/-- A new worker is the latest of its key, and for the other keys nothing changes. -/
theorem inv_create {s s' : State L} {w : Worker L} (hi : Inv s) (h : step s (.create w) = some s') : Inv s' := by
  simp only [step] at h
  split at h
  · rename_i hnew
    obtain ⟨hadded, _, hfresh⟩ := hnew
    rw [← Option.some.inj h]
    refine ⟨fun u => ?_, hi.posted, fun u hu => ?_⟩
    · show u ∈ put s.workers w ↔ (w :: s.created).find? (·.getTag = u.getTag) = some u
      rw [mem_put]
      by_cases htag : w.getTag = u.getTag
      · have hfind : (w :: s.created).find? (·.getTag = u.getTag) = some w :=
          List.find?_cons_of_pos (decide_eq_true htag)
        rw [hfind]
        constructor
        · rintro (rfl | ⟨_, hne⟩)
          · rfl
          · exact absurd htag.symm hne
        · intro heq
          exact Or.inl (Option.some.inj heq).symm
      · have hfind : (w :: s.created).find? (·.getTag = u.getTag) = s.created.find? (·.getTag = u.getTag) :=
          List.find?_cons_of_neg (by rw [decide_eq_true_eq]; exact htag)
        rw [hfind]
        constructor
        · rintro (rfl | ⟨hu, _⟩)
          · exact absurd rfl htag
          · exact (hi.latest u).mp hu
        · exact fun hu => Or.inr ⟨(hi.latest u).mpr hu, fun heq => htag heq.symm⟩
    · rcases List.mem_cons.mp hu with rfl | hu
      · exact hadded
      · exact hi.added u hu
  · cases h

theorem inv_step {s s' : State L} {a : Act L} (hi : Inv s) (h : step s a = some s') : Inv s' := by
  cases a with
  | addPlugin c =>
    rw [← Option.some.inj h]
    split
    · exact hi
    · exact ⟨hi.latest, hi.posted, fun w hw => List.mem_cons_of_mem _ (hi.added w hw)⟩
  | create w => exact inv_create hi h
  | terminate w =>
    simp only [step] at h
    split at h
    · rw [← Option.some.inj h]
      exact hi.closes (closes_closeWorker s w)
    · cases h
  | close c =>
    rw [← Option.some.inj h]
    split
    · exact hi
    · have hi' : Inv (if c ∈ s.added then s.closeWorkers else s) := by
        split
        · exact hi.closes (closes_foldl s.workers s)
        · exact hi
      exact ⟨hi'.latest, hi'.posted, hi'.added⟩

/-- What the first close of a context closes: the values of the map. -/
theorem mem_posted_close {s s' : State L} {c : Nat} {w : Worker L} (hi : Inv s) (hc : s.closed c = false)
    (hw : s.terminated w = false) (h : step s (.close c) = some s') :
    w ∈ s'.posted ↔ c ∈ s.added ∧ s.Latest w := by
  have hnot : w ∉ s.posted := by
    rw [hi.posted, hw]
    exact Bool.false_ne_true
  rw [← Option.some.inj h, if_neg (by rw [hc]; exact Bool.false_ne_true), ← hi.latest]
  show w ∈ (if c ∈ s.added then s.closeWorkers else s).posted ↔ _
  split
  · rename_i hadded
    have hposted := (closes_foldl s.workers s).posted w
    constructor
    · exact fun hw' => ⟨hadded, ((hposted.mp hw').resolve_left hnot).2⟩
    · exact fun hw' => hposted.mpr (Or.inr ⟨hw, hw'.2⟩)
  · rename_i hadded
    exact ⟨fun hw' => absurd hw' hnot, fun hw' => absurd hw'.1 hadded⟩

theorem latestOnly_iff_closesOwn {s s' : State L} {c : Nat} (hi : Inv s) (h : step s (.close c) = some s') :
    LatestOnly s (.close c) ↔ ClosesOwn s c s' := by
  constructor
  · intro hg hc w hw hterm
    have hposted := mem_posted_close hi hc hterm h
    constructor
    · intro hown
      have hadded : c ∈ s.added := hown ▸ hi.added w hw
      exact hposted.mpr ⟨hadded, (hg hc hadded w hw hterm).1 hown⟩
    · intro hother hopen hmem
      obtain ⟨hadded, hlatest⟩ := hposted.mp hmem
      exact (hg hc hadded w hw hterm).2 hother hopen hlatest
  · intro hq hc hadded w hw hterm
    have hposted := mem_posted_close hi hc hterm h
    obtain ⟨hown, hother⟩ := hq hc w hw hterm
    constructor
    · exact fun heq => (hposted.mp (hown heq)).2
    · exact fun hne hopen hlatest => hother hne hopen (hposted.mpr ⟨hadded, hlatest⟩)

theorem inv_init : Inv (init : State L) where
  latest _ := ⟨fun h => absurd h List.not_mem_nil, fun h => nomatch h⟩
  posted _ := ⟨fun h => absurd h List.not_mem_nil, fun h => nomatch h⟩
  added _ hw := absurd hw List.not_mem_nil

/-! ## Runs -/

/-- **The registry.** Every close of a run closes the workers of its context, and none of another open context, iff
at every close these are the latest workers of the keys. -/
theorem closesOwn_iff_latestOnly {as : List (Act L)} {s : State L} (h : Machine.Run step init as s) :
    Machine.GuardedRun step LatestOnly init as s ↔
      ∀ bs c t t', bs ++ [.close c] <+: as → Machine.Run step init bs t → step t (.close c) = some t' →
        ClosesOwn t c t' := by
  rw [Machine.guardedRun_iff_forall_step (I := Inv) (Q := fun t a t' => ∀ c, a = .close c → ClosesOwn t c t')
    (fun _ _ _ hi hst => inv_step hi hst) ?_ inv_init h]
  · constructor
    · exact fun hall bs c t t' hbs hrun hst => hall bs (.close c) t t' hbs hrun hst c rfl
    · rintro hall bs a t t' hbs hrun hst c rfl
      exact hall bs c t t' hbs hrun hst
  · intro t a t' hi hst
    cases a with
    | close c =>
      rw [latestOnly_iff_closesOwn hi hst]
      exact ⟨fun hq d hd => by cases hd; exact hq, fun hq => hq c rfl⟩
    | addPlugin | create | terminate => exact ⟨fun _ _ hd => (by cases hd), fun _ => trivial⟩

/-- Workers of two contexts. -/
def ofFirst : Worker .struct64 := { id := 0, context := 0, thisObj := 16 }

def ofSecond : Worker .struct64 := { id := 1, context := 1, thisObj := 32 }

/-- The worker of the first context is terminated, and both contexts are closed. -/
def terminateThenClose : List (Act .struct64) :=
  [.addPlugin 0, .addPlugin 1, .create ofFirst, .create ofSecond, .terminate ofFirst, .close 1, .close 0]

theorem closesOwn_iff_latestOnly_terminated :
    ∃ s, Machine.Run step init terminateThenClose s ∧
      ∀ bs c t t', bs ++ [.close c] <+: terminateThenClose → Machine.Run step init bs t →
        step t (.close c) = some t' → ClosesOwn t c t' := by
  obtain ⟨s, hrun, _⟩ := Machine.exists_guardedRun_of_execGuarded step LatestOnly init terminateThenClose
    (fun _ => true) (by decide)
  exact ⟨s, hrun.run, (closesOwn_iff_latestOnly hrun.run).mp hrun⟩

/-- A second worker of one context, in the struct layout: the first is not closed with the context. -/
theorem not_closesOwn_two :
    ¬ ∀ bs c t t', Machine.Run step (init : State .struct64) bs t → step t (.close c) = some t' →
        ClosesOwn t c t' := by
  intro hall
  obtain ⟨t, hrun, ht⟩ := Machine.exists_run_of_exec step (init : State .struct64)
    [.addPlugin 0, .create ofFirst, .create { ofSecond with context := 0 }]
    (fun t => decide (t.closed 0 = false ∧ ofFirst ∈ t.created ∧ t.terminated ofFirst = false ∧
      ∀ t' ∈ step t (.close 0), ofFirst ∉ t'.posted)) (by decide)
  obtain ⟨hopen, hcreated, hterm, hmissed⟩ := of_decide_eq_true ht
  have hclosed := (hall _ 0 t _ hrun rfl hopen _ hcreated hterm).1 rfl
  exact hmissed _ rfl hclosed

end QuickJSBridge.Workers
