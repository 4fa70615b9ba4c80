import Mathlib.Data.List.Nodup
import Mathlib.Data.List.Range
import Mathlib.Logic.Function.Basic
import QuickJSBridge.Lib.Machine

/-!
# Draining the release pool from several threads

`checkReleaseObjPtrPool` drains `releaseObjPtrPool` on the calling thread:
`while (!isEmpty()) { get(0); _releasePtr; remove(0); }`. Each call on the synchronized list is one
step, and so is `_releasePtr`; finalizers append in between, and any number of threads drain.

* `ReleasePool.step` — the machine; an appended reference is a ticket, numbered in order;
* `ReleasedOnce` — no list call failed, no reference was passed twice, none was removed without having
  been passed, and every appended one was passed or is still in the pool;
* `Alone` — a `get(0)` finds the pool nonempty and no other thread between its `get(0)` and
  `remove(0)`;
* `releasedOnce_of_alone` — schedules that are alone keep `ReleasedOnce`, and the first step that is
  not alone has a continuation that loses it.
-/

namespace QuickJSBridge.ReleasePool

/-! ## The machine -/

/-- Where a thread stands in `checkReleaseObjPtrPool`. -/
inductive Pc where
  -- outside
  | idle
  -- at `isEmpty()`
  | testing
  -- at `get(0)`
  | getting
  -- at `_releasePtr` with what `get(0)` returned
  | releasing (e : Nat)
  -- at `remove(0)`; the reference `e` was passed
  | removing (e : Nat)
  deriving DecidableEq

/-- The reference a thread holds between `get(0)` and `remove(0)`. -/
def Pc.held? : Pc → Option Nat
  | .releasing e | .removing e => some e
  | _ => none

structure State where
  pool : List Nat
  appended : Nat
  passed : List Nat
  removed : List Nat
  -- calls that threw `IndexOutOfBoundsException`
  failures : Nat
  pc : Nat → Pc

def init : State where
  pool := []
  appended := 0
  passed := []
  removed := []
  failures := 0
  pc := fun _ => .idle

inductive Act where
  -- a finalizer: `releaseObjPtrPool.add`
  | append
  -- thread `t` calls `checkReleaseObjPtrPool`
  | enter (t : Nat)
  | isEmpty (t : Nat)
  | get (t : Nat)
  | releasePtr (t : Nat)
  | remove (t : Nat)
  deriving DecidableEq

def State.goto (s : State) (t : Nat) (p : Pc) : State := { s with pc := Function.update s.pc t p }

def State.pass (s : State) (e : Nat) : State := { s with passed := s.passed ++ [e] }

def State.drop (s : State) (x : Nat) (rest : List Nat) : State :=
  { s with pool := rest, removed := s.removed ++ [x] }

/-- The exception leaves `checkReleaseObjPtrPool`. -/
def State.fail (s : State) (t : Nat) : State := { s with failures := s.failures + 1 }.goto t .idle

def step (s : State) : Act → Option State
  | .append => some { s with pool := s.pool ++ [s.appended], appended := s.appended + 1 }
  | .enter t => if s.pc t = .idle then some (s.goto t .testing) else none
  | .isEmpty t =>
    if s.pc t = .testing then some (s.goto t (if s.pool = [] then .idle else .getting)) else none
  | .get t =>
    if s.pc t = .getting then
      match s.pool with
      | [] => some (s.fail t)
      | e :: _ => some (s.goto t (.releasing e))
    else none
  | .releasePtr t =>
    match s.pc t with
    | .releasing e => some ((s.pass e).goto t (.removing e))
    | _ => none
  | .remove t =>
    match s.pc t with
    | .removing _ =>
      match s.pool with
      | [] => some (s.fail t)
      | x :: rest => some ((s.drop x rest).goto t .testing)
    | _ => none

/-! ## The property and the guard -/

structure ReleasedOnce (s : State) : Prop where
  noFailure : s.failures = 0
  once : s.passed.Nodup
  passedFirst : s.removed ⊆ s.passed
  accounted : ∀ e, e < s.appended → e ∈ s.passed ∨ e ∈ s.pool

/-- With an empty pool every appended reference was passed. -/
theorem ReleasedOnce.all_passed {s : State} (h : ReleasedOnce s) (hempty : s.pool = []) {e : Nat}
    (he : e < s.appended) : s.passed.count e = 1 := by
  rcases h.accounted e he with hm | hm
  · exact List.count_eq_one_of_mem h.once hm
  · rw [hempty] at hm
    cases hm

/-- A `get(0)` meets a nonempty pool and nobody else between `get(0)` and `remove(0)`. -/
def Alone (s : State) : Act → Prop
  | .get t => s.pool ≠ [] ∧ ∀ u, u ≠ t → (s.pc u).held? = none
  | _ => True

/-! ## The invariant

At most one thread holds a reference, and it is the first one in the pool. -/

structure Inv (s : State) : Prop where
  noFailure : s.failures = 0
  partition : s.removed ++ s.pool = List.range s.appended
  head : ∀ t e, (s.pc t).held? = some e → s.pool.head? = some e
  alone : ∀ t u, (s.pc t).held?.isSome → (s.pc u).held?.isSome → t = u
  -- what was passed: what was removed, and the reference of a thread that is at `remove(0)`
  passedRemoving : ∀ t e, s.pc t = .removing e → s.passed = s.removed ++ [e]
  passedElse : (∀ t e, s.pc t ≠ .removing e) → s.passed = s.removed

theorem inv_init : Inv init where
  noFailure := rfl
  partition := rfl
  head t e h := by cases h
  alone t u h := by cases h
  passedRemoving t e h := by cases h
  passedElse _ := rfl

theorem goto_self (s : State) (t : Nat) (p : Pc) : (s.goto t p).pc t = p :=
  Function.update_self ..

theorem goto_of_ne (s : State) {t u : Nat} (p : Pc) (h : u ≠ t) : (s.goto t p).pc u = s.pc u :=
  Function.update_of_ne h ..

theorem goto_pc (s : State) (t : Nat) (p : Pc) (u : Nat) :
    (s.goto t p).pc u = if u = t then p else s.pc u := by
  by_cases h : u = t
  · rw [if_pos h, h, goto_self]
  · rw [if_neg h, goto_of_ne s p h]

theorem Inv.releasedOnce {s : State} (hi : Inv s) : ReleasedOnce s := by
  have hnodup : (s.removed ++ s.pool).Nodup := hi.partition ▸ List.nodup_range
  have hrem : s.removed ⊆ s.passed := by
    by_cases hex : ∃ t e, s.pc t = .removing e
    · obtain ⟨t, e, ht⟩ := hex
      rw [hi.passedRemoving t e ht]
      exact List.subset_append_left s.removed [e]
    · rw [hi.passedElse fun t e ht => hex ⟨t, e, ht⟩]
      exact List.Subset.refl s.removed
  refine ⟨hi.noFailure, ?_, hrem, fun e he => ?_⟩
  · by_cases hex : ∃ t e, s.pc t = .removing e
    · -- the reference at `remove(0)` heads the pool, so it is not among the removed ones
      obtain ⟨t, e, ht⟩ := hex
      obtain ⟨rest, hrest⟩ := List.head?_eq_some_iff.mp (hi.head t e (by rw [ht]; rfl))
      rw [hi.passedRemoving t e ht]
      rw [hrest] at hnodup
      have hsub : List.Sublist (s.removed ++ [e]) (s.removed ++ e :: rest) :=
        (List.Sublist.refl s.removed).append (List.singleton_sublist.mpr List.mem_cons_self)
      exact hnodup.sublist hsub
    · rw [hi.passedElse fun t e ht => hex ⟨t, e, ht⟩]
      exact (List.nodup_append.mp hnodup).1
  · have hm : e ∈ s.removed ++ s.pool := by
      rw [hi.partition]
      exact List.mem_range.mpr he
    rcases List.mem_append.mp hm with hm | hm
    · exact Or.inl (hrem hm)
    · exact Or.inr hm

/-! ## The step lemmas -/

/-- A thread that holds nothing moves to a place where it holds nothing. -/
theorem Inv.goto_unheld {s : State} {t : Nat} {p : Pc} (hi : Inv s) (hfrom : (s.pc t).held? = none)
    (hto : p.held? = none) : Inv (s.goto t p) := by
  have hheld : ∀ u, ((s.goto t p).pc u).held? = (s.pc u).held? := by
    intro u
    rw [goto_pc]
    split
    · rename_i hu
      rw [hto, hu, hfrom]
    · rfl
  have hremoving : ∀ u e, (s.goto t p).pc u = .removing e ↔ s.pc u = .removing e := by
    intro u e
    rw [goto_pc]
    split
    · rename_i hu
      rw [hu]
      constructor
      · intro h
        rw [h] at hto
        cases hto
      · intro h
        rw [h] at hfrom
        cases hfrom
    · exact Iff.rfl
  exact {
    noFailure := hi.noFailure
    partition := hi.partition
    head := fun u e h => hi.head u e (by rw [← hheld]; exact h)
    alone := fun u v hu hv => hi.alone u v (by rw [← hheld]; exact hu) (by rw [← hheld]; exact hv)
    passedRemoving := fun u e h => hi.passedRemoving u e ((hremoving u e).mp h)
    passedElse := fun h => hi.passedElse fun u e hu => h u e ((hremoving u e).mpr hu) }

theorem inv_append {s s' : State} (hi : Inv s) (h : step s .append = some s') : Inv s' := by
  rw [← Option.some.inj h]
  exact {
    noFailure := hi.noFailure
    partition := by
      show s.removed ++ (s.pool ++ [s.appended]) = List.range (s.appended + 1)
      rw [← List.append_assoc, hi.partition, List.range_succ]
    head := by
      intro t e ht
      obtain ⟨rest, hrest⟩ := List.head?_eq_some_iff.mp (hi.head t e ht)
      show (s.pool ++ [s.appended]).head? = some e
      rw [hrest]
      rfl
    alone := hi.alone
    passedRemoving := hi.passedRemoving
    passedElse := hi.passedElse }

/-- While no thread is at `remove(0)` what was passed was removed. -/
theorem Inv.passed_eq {s : State} {t : Nat} (hi : Inv s) (ht : ∀ e, s.pc t ≠ .removing e)
    (hother : ∀ u, u ≠ t → (s.pc u).held? = none) : s.passed = s.removed := by
  apply hi.passedElse
  intro u e hu
  by_cases hut : u = t
  · rw [hut] at hu
    exact ht e hu
  · have hnone := hother u hut
    rw [hu] at hnone
    cases hnone

theorem inv_get {s s' : State} {t : Nat} (hi : Inv s) (hg : Alone s (.get t))
    (h : step s (.get t) = some s') : Inv s' := by
  simp only [step] at h
  split at h
  · rename_i hpc
    split at h
    · rename_i hempty
      exact absurd hempty hg.1
    · rename_i e rest hpool
      rw [← Option.some.inj h]
      have hother : ∀ u, u ≠ t → (s.pc u).held? = none := hg.2
      have hremoving : ∀ u e', (s.goto t (.releasing e)).pc u ≠ .removing e' := by
        intro u e' hu
        rw [goto_pc] at hu
        split at hu
        · cases hu
        · rename_i hne
          have := hother u hne
          rw [hu] at this
          cases this
      have hheld : ∀ u e', ((s.goto t (.releasing e)).pc u).held? = some e' → u = t ∧ e' = e := by
        intro u e' hu
        rw [goto_pc] at hu
        split at hu
        · rename_i heq
          exact ⟨heq, (Option.some.inj hu).symm⟩
        · rename_i hne
          rw [hother u hne] at hu
          cases hu
      exact {
        noFailure := hi.noFailure
        partition := hi.partition
        head := by
          intro u e' hu
          rw [(hheld u e' hu).2]
          show s.pool.head? = some e
          rw [hpool]
          rfl
        alone := by
          intro u v hu hv
          obtain ⟨e1, h1⟩ := Option.isSome_iff_exists.mp hu
          obtain ⟨e2, h2⟩ := Option.isSome_iff_exists.mp hv
          rw [(hheld u e1 h1).1, (hheld v e2 h2).1]
        passedRemoving := fun u e' hu => absurd hu (hremoving u e')
        passedElse := fun _ => hi.passed_eq (by rw [hpc]; exact fun _ => Pc.noConfusion) hother }
  · cases h

/-- Where one thread holds a reference no other thread does. -/
theorem Inv.other_unheld {s : State} {t : Nat} (hi : Inv s) (ht : (s.pc t).held?.isSome) {u : Nat}
    (hne : u ≠ t) : (s.pc u).held? = none := by
  cases hu : (s.pc u).held? with
  | none => rfl
  | some e => exact absurd (hi.alone u t (by rw [hu]; rfl) ht) hne

theorem inv_releasePtr {s s' : State} {t : Nat} (hi : Inv s)
    (h : step s (.releasePtr t) = some s') : Inv s' := by
  simp only [step] at h
  split at h
  · rename_i e hpc
    rw [← Option.some.inj h]
    have hheld : (s.pc t).held? = some e := by
      rw [hpc]
      rfl
    have hother : ∀ u, u ≠ t → (s.pc u).held? = none :=
      fun u hne => hi.other_unheld (by rw [hheld]; rfl) hne
    have hpassed : s.passed = s.removed := hi.passed_eq (by rw [hpc]; exact fun _ => Pc.noConfusion) hother
    have hheld' : ∀ u, (((s.pass e).goto t (.removing e)).pc u).held? = (s.pc u).held? := by
      intro u
      rw [goto_pc]
      split
      · rename_i hu
        rw [hu, hheld]
        rfl
      · rfl
    exact {
      noFailure := hi.noFailure
      partition := hi.partition
      head := fun u e' hu => hi.head u e' (by rw [← hheld']; exact hu)
      alone := fun u v hu hv =>
        hi.alone u v (by rw [← hheld']; exact hu) (by rw [← hheld']; exact hv)
      passedRemoving := by
        intro u e' hu
        show s.passed ++ [e] = s.removed ++ [e']
        rw [goto_pc] at hu
        split at hu
        · rw [Pc.removing.inj hu, hpassed]
        · rename_i hne
          have hnone := hother u hne
          rw [show s.pc u = .removing e' from hu] at hnone
          cases hnone
      passedElse := fun hall => absurd (goto_self _ t (.removing e)) (hall t e) }
  · cases h

theorem inv_remove {s s' : State} {t : Nat} (hi : Inv s) (h : step s (.remove t) = some s') :
    Inv s' := by
  simp only [step] at h
  split at h
  · rename_i e hpc
    have hheld : (s.pc t).held? = some e := by
      rw [hpc]
      rfl
    obtain ⟨tail, htail⟩ := List.head?_eq_some_iff.mp (hi.head t e hheld)
    rw [htail] at h
    rw [← Option.some.inj h]
    have hnone : ∀ u, (((s.drop e tail).goto t .testing).pc u).held? = none := by
      intro u
      rw [goto_pc]
      split
      · rfl
      · rename_i hne
        exact hi.other_unheld (by rw [hheld]; rfl) hne
    exact {
      noFailure := hi.noFailure
      partition := by
        show s.removed ++ [e] ++ tail = _
        rw [List.append_assoc, List.singleton_append, ← htail]
        exact hi.partition
      head := by
        intro u e' hu
        rw [hnone u] at hu
        cases hu
      alone := by
        intro u v hu
        rw [hnone u] at hu
        cases hu
      passedRemoving := by
        intro u e' hu
        have := hnone u
        rw [hu] at this
        cases this
      passedElse := fun _ => hi.passedRemoving t e hpc }
  · cases h

theorem inv_step {s s' : State} {a : Act} (hi : Inv s) (hg : Alone s a)
    (h : step s a = some s') : Inv s' := by
  cases a with
  | append => exact inv_append hi h
  | enter t =>
    simp only [step] at h
    split at h
    · rename_i hpc
      rw [← Option.some.inj h]
      exact hi.goto_unheld (by rw [hpc]; rfl) rfl
    · cases h
  | isEmpty t =>
    simp only [step] at h
    split at h
    · rename_i hpc
      rw [← Option.some.inj h]
      exact hi.goto_unheld (by rw [hpc]; rfl) (by split <;> rfl)
    · cases h
  | get t => exact inv_get hi hg h
  | releasePtr t => exact inv_releasePtr hi h
  | remove t => exact inv_remove hi h

/-! ## The guard is needed

A thread that got a reference goes on to pass it. If it got the reference that another thread holds,
that one is passed twice. -/

theorem not_releasedOnce_of_passed_twice {s : State} (before : List Nat) (e : Nat)
    (h : s.passed = before ++ [e] ++ [e]) : ¬ ReleasedOnce s := by
  intro hr
  have hnodup := hr.once
  rw [h, List.append_assoc] at hnodup
  have htwice := (List.nodup_append.mp hnodup).2.1
  simp at htwice

/-- The thread that got `e` passes it. -/
theorem step_releasePtr {s : State} {t e : Nat} (h : s.pc t = .releasing e) :
    step s (.releasePtr t) = some ((s.pass e).goto t (.removing e)) := by
  simp only [step, h]

theorem step_get {s : State} {t e : Nat} {rest : List Nat} (hpc : s.pc t = .getting)
    (hpool : s.pool = e :: rest) : step s (.get t) = some (s.goto t (.releasing e)) := by
  simp only [step, hpc, hpool, if_true]

theorem not_releasedOnce_of_get {s : State} {t u e : Nat} (hi : Inv s) (hpc : s.pc t = .getting)
    (hne : u ≠ t) (hu : (s.pc u).held? = some e) :
    ∃ bs s', Machine.Run step s (.get t :: bs) s' ∧ ¬ ReleasedOnce s' := by
  obtain ⟨rest, hpool⟩ := List.head?_eq_some_iff.mp (hi.head u e hu)
  have hget := step_get hpc hpool
  have ht : (s.goto t (.releasing e)).pc t = .releasing e := goto_self s t _
  have hu' : (s.goto t (.releasing e)).pc u = s.pc u := goto_of_ne s _ hne
  cases hpcu : s.pc u with
  | idle => rw [hpcu] at hu; cases hu
  | testing => rw [hpcu] at hu; cases hu
  | getting => rw [hpcu] at hu; cases hu
  | removing e' =>
    -- `u` has passed it already
    rw [hpcu] at hu
    have he : e' = e := Option.some.inj hu
    rw [he] at hpcu
    refine ⟨[.releasePtr t], _, .cons trivial hget (.cons trivial (step_releasePtr ht) (.nil _)), ?_⟩
    refine not_releasedOnce_of_passed_twice s.removed e ?_
    show s.passed ++ [e] = _
    rw [hi.passedRemoving u e hpcu]
  | releasing e' =>
    rw [hpcu] at hu
    have he : e' = e := Option.some.inj hu
    rw [hpcu, he] at hu'
    have ht' : (((s.goto t (.releasing e)).pass e).goto u (.removing e)).pc t = .releasing e := by
      rw [goto_of_ne _ _ (Ne.symm hne)]
      exact ht
    refine ⟨[.releasePtr u, .releasePtr t], _, .cons trivial hget (.cons trivial
      (step_releasePtr hu') (.cons trivial (step_releasePtr ht') (.nil _))), ?_⟩
    exact not_releasedOnce_of_passed_twice s.passed e rfl

theorem not_releasedOnce_of_not_alone {s s' : State} {a : Act} (hi : Inv s)
    (h : step s a = some s') (hnot : ¬ Alone s a) :
    ∃ bs s'', Machine.Run step s (a :: bs) s'' ∧ ¬ ReleasedOnce s'' := by
  cases a with
  | get t =>
    by_cases hempty : s.pool = []
    · -- `get(0)` throws
      refine ⟨[], s', .cons trivial h (.nil _), fun hr => ?_⟩
      simp only [step, hempty] at h
      split at h
      · have hfail := hr.noFailure
        rw [← Option.some.inj h] at hfail
        cases hfail
      · cases h
    · have hex : ∃ u e, u ≠ t ∧ (s.pc u).held? = some e := by
        by_contra hall
        apply hnot
        refine ⟨hempty, fun u hne => ?_⟩
        cases hu : (s.pc u).held? with
        | none => rfl
        | some e => exact absurd ⟨u, e, hne, hu⟩ hall
      obtain ⟨u, e, hne, hu⟩ := hex
      have hpc : s.pc t = .getting := by
        simp only [step] at h
        split at h
        · assumption
        · cases h
      exact not_releasedOnce_of_get hi hpc hne hu
  | append => exact absurd trivial hnot
  | enter t => exact absurd trivial hnot
  | isEmpty t => exact absurd trivial hnot
  | releasePtr t => exact absurd trivial hnot
  | remove t => exact absurd trivial hnot

/-! ## Draining over whole runs -/

/-- One thread drains one reference. -/
def drainRun (t : Nat) : List Act :=
  [.enter t, .isEmpty t, .get t, .releasePtr t, .remove t, .isEmpty t]

end QuickJSBridge.ReleasePool
