import Mathlib.Data.List.Basic

/-!
# Labelled machines and guarded runs

A machine is an executable step function `step : σ → α → Option σ`: label `a` is enabled in
state `s` when `step s a` is `some`. Several parties that interleave are one machine whose
labels name the party that moves, so a run is an arbitrary schedule.

* `Run step s as s'` — the labels `as` lead from `s` to `s'`, every step enabled;
* `GuardedRun step G s as s'` — the same, and every step meets the guard `G` in the state it is
  taken from;
* `GuardedRun.append`, `GuardedRun.of_append`, `GuardedRun.unique` — runs compose, split and are
  determined by their labels;
* `GuardedRun.invariant` — an invariant that guarded steps keep holds after every guarded run;
* `guardedRun_iff_forall_prefix` — where the guard is *exact* (a step from a good state is guarded iff
  it leads to a good state), the guarded runs are exactly the runs all of whose states are good;
* `guardedRun_iff_forall_prefix_of` — the same where being good is weaker than the invariant;
* `guardedRun_iff_forall_prefix_under` — the same where the guard is exact under an invariant that every
  step keeps;
* `guardedRun_iff_forall_step` — the same where it is the steps that are good;
* `exec` — the executable form, from which a concrete run is obtained by evaluation;
* `NothingAfter x l` — in the trace `l` nothing follows `x`;
* `pairwise_concat` — a trace whose entries are pairwise allowed, grown by one.
-/

namespace Machine

variable {σ α : Type*}

/-- The labels `as` lead from `s` to `s'`, and every step meets `G` in the state it is taken
from. -/
inductive GuardedRun (step : σ → α → Option σ) (G : σ → α → Prop) : σ → List α → σ → Prop where
  | nil (s : σ) : GuardedRun step G s [] s
  | cons {s s' s'' : σ} {a : α} {as : List α}
      (hguard : G s a)
      (hstep : step s a = some s')
      (rest : GuardedRun step G s' as s'') :
      GuardedRun step G s (a :: as) s''

/-- A run without a guard. -/
abbrev Run (step : σ → α → Option σ) : σ → List α → σ → Prop :=
  GuardedRun step (fun _ _ => True)

variable {step : σ → α → Option σ} {G H : σ → α → Prop}

/-! ## Composition and weakening -/

theorem GuardedRun.append {s s' s'' : σ} {as bs : List α}
    (h1 : GuardedRun step G s as s') (h2 : GuardedRun step G s' bs s'') :
    GuardedRun step G s (as ++ bs) s'' := by
  induction h1 with
  | nil _ => exact h2
  | cons hguard hstep _ ih => exact .cons hguard hstep (ih h2)

theorem GuardedRun.mono (hGH : ∀ s a, G s a → H s a) {s s' : σ} {as : List α}
    (h : GuardedRun step G s as s') : GuardedRun step H s as s' := by
  induction h with
  | nil s => exact .nil s
  | cons hguard hstep _ ih => exact .cons (hGH _ _ hguard) hstep ih

theorem GuardedRun.run {s s' : σ} {as : List α} (h : GuardedRun step G s as s') :
    Run step s as s' :=
  h.mono fun _ _ _ => trivial

/-! ## Invariants

The induction over a run is made here once. An application supplies the step lemma. -/

/-- An invariant that every guarded step keeps holds after every guarded run. -/
theorem GuardedRun.invariant {I : σ → Prop}
    (hstep : ∀ s a s', I s → G s a → step s a = some s' → I s')
    {s s' : σ} {as : List α} (h : GuardedRun step G s as s') (hs : I s) : I s' := by
  induction h with
  | nil _ => exact hs
  | cons hguard hst _ ih => exact ih (hstep _ _ _ hs hguard hst)

/-- A run over `as ++ bs` passes through a state where `as` is used up. -/
theorem GuardedRun.of_append {s s'' : σ} {as bs : List α}
    (h : GuardedRun step G s (as ++ bs) s'') :
    ∃ s', GuardedRun step G s as s' ∧ GuardedRun step G s' bs s'' := by
  induction as generalizing s with
  | nil => exact ⟨s, .nil s, h⟩
  | cons a as ih =>
    cases h with
    | cons hguard hst rest =>
      obtain ⟨s', h1, h2⟩ := ih rest
      exact ⟨s', .cons hguard hst h1, h2⟩

/-- The labels determine the run: `step` is a function. -/
theorem GuardedRun.unique {s t u : σ} {as : List α}
    (h1 : GuardedRun step G s as t) (h2 : GuardedRun step H s as u) : t = u := by
  induction h1 with
  | nil _ => cases h2; rfl
  | cons _ hst _ ih =>
    cases h2 with
    | cons _ hst' rest' =>
      rw [hst] at hst'
      cases hst'
      exact ih rest'

/-! ## Exact guards -/

/-- Let guarded steps keep the invariant `I`, let `I` imply `P`, and let a step from an `I`-state to a
`P`-state be guarded. Then a run meets `G` at every step iff `P` holds in every state it passes through. -/
theorem guardedRun_iff_forall_prefix_of {I P : σ → Prop}
    (hkeep : ∀ s a s', I s → G s a → step s a = some s' → I s')
    (himp : ∀ s, I s → P s)
    (hexact : ∀ s a s', I s → step s a = some s' → P s' → G s a)
    {s s' : σ} {as : List α} (hs : I s) (h : Run step s as s') :
    GuardedRun step G s as s' ↔
      ∀ bs t, bs <+: as → Run step s bs t → P t := by
  constructor
  · rintro hg bs t ⟨cs, rfl⟩ hbs
    obtain ⟨t', h1, _⟩ := hg.of_append
    rw [hbs.unique h1]
    exact himp t' (h1.invariant hkeep hs)
  · intro hall
    induction h with
    | nil s => exact .nil s
    | @cons s s₁ s₂ a as _ hst rest ih =>
      have hP : P s₁ := hall [a] s₁ ⟨as, rfl⟩ (.cons trivial hst (.nil _))
      have hguard : G s a := hexact s a s₁ hs hst hP
      refine .cons hguard hst (ih (hkeep s a s₁ hs hguard hst) ?_)
      rintro bs t ⟨cs, rfl⟩ hbs
      exact hall (a :: bs) t ⟨cs, rfl⟩ (.cons trivial hst hbs)

/-- **Exact guards.** Let `I` hold at the start and let a step from an `I`-state keep `I`
exactly when it meets `G`. Then a run meets `G` at every step iff `I` holds in every state it
passes through. -/
theorem guardedRun_iff_forall_prefix {I : σ → Prop}
    (hexact : ∀ s a s', I s → step s a = some s' → (I s' ↔ G s a))
    {s s' : σ} {as : List α} (hs : I s) (h : Run step s as s') :
    GuardedRun step G s as s' ↔
      ∀ bs t, bs <+: as → Run step s bs t → I t :=
  guardedRun_iff_forall_prefix_of (fun s a s' hi hg hst => (hexact s a s' hi hst).2 hg)
    (fun _ hi => hi) (fun s a s' hi hst hi' => (hexact s a s' hi hst).1 hi') hs h

/-- Let every step keep `I`, and let a step from a `P`-state where `I` holds lead to a `P`-state exactly when it
meets `G`. Then a run meets `G` at every step iff `P` holds in every state it passes through. -/
theorem guardedRun_iff_forall_prefix_under {I P : σ → Prop}
    (hkeep : ∀ s a s', I s → step s a = some s' → I s')
    (hexact : ∀ s a s', I s → P s → step s a = some s' → (P s' ↔ G s a))
    {s s' : σ} {as : List α} (hI : I s) (hP : P s) (h : Run step s as s') :
    GuardedRun step G s as s' ↔
      ∀ bs t, bs <+: as → Run step s bs t → P t := by
  have hboth : ∀ s a s', I s ∧ P s → step s a = some s' → ((I s' ∧ P s') ↔ G s a) := by
    intro s a s' hs hst
    have hI' : I s' := hkeep s a s' hs.1 hst
    exact (and_iff_right hI').trans (hexact s a s' hs.1 hs.2 hst)
  have hiff := guardedRun_iff_forall_prefix hboth ⟨hI, hP⟩ h
  rw [hiff]
  constructor
  · intro hall bs t hbs ht
    exact (hall bs t hbs ht).2
  · intro hall bs t hbs ht
    exact ⟨ht.invariant (fun s a s' hi _ hst => hkeep s a s' hi hst) hI, hall bs t hbs ht⟩

/-- Let every step keep `I`, and let a step from an `I`-state be guarded exactly when it is a `Q`-step. Then a
run meets `G` at every step iff all its steps are `Q`-steps. -/
theorem guardedRun_iff_forall_step {I : σ → Prop} {Q : σ → α → σ → Prop}
    (hkeep : ∀ s a s', I s → step s a = some s' → I s')
    (hexact : ∀ s a s', I s → step s a = some s' → (G s a ↔ Q s a s'))
    {s s' : σ} {as : List α} (hs : I s) (h : Run step s as s') :
    GuardedRun step G s as s' ↔
      ∀ bs a t t', bs ++ [a] <+: as → Run step s bs t → step t a = some t' → Q t a t' := by
  constructor
  · rintro hg bs a t t' ⟨cs, rfl⟩ hbs hst
    rw [List.append_assoc] at hg
    obtain ⟨u, h1, h2⟩ := hg.of_append
    rw [← hbs.unique h1] at h2
    have hI : I t := hbs.invariant (fun _ _ _ hi _ => hkeep _ _ _ hi) hs
    cases h2 with
    | cons hguard _ _ => exact (hexact t a t' hI hst).mp hguard
  · intro hall
    induction h with
    | nil s => exact .nil s
    | @cons s s₁ s₂ a as _ hst rest ih =>
      have hguard : G s a := (hexact s a s₁ hs hst).mpr (hall [] a s s₁ ⟨as, rfl⟩ (.nil s) hst)
      refine .cons hguard hst (ih (hkeep s a s₁ hs hst) ?_)
      rintro bs b t t' ⟨cs, rfl⟩ hbs
      exact hall (a :: bs) b t t' ⟨cs, rfl⟩ (.cons trivial hst hbs)

/-! ## Execution -/

/-- Runs the labels in order. -/
def exec (step : σ → α → Option σ) : σ → List α → Option σ
  | s, [] => some s
  | s, a :: as => (step s a).bind fun s' => exec step s' as

/-- The guarded form of `exec`, for a guard that can be decided. -/
def execGuarded (step : σ → α → Option σ) (G : σ → α → Prop) [∀ s a, Decidable (G s a)] :
    σ → List α → Option σ
  | s, [] => some s
  | s, a :: as => if G s a then (step s a).bind fun s' => execGuarded step G s' as else none

theorem guardedRun_of_execGuarded [∀ s a, Decidable (G s a)] {s s' : σ} {as : List α}
    (h : execGuarded step G s as = some s') : GuardedRun step G s as s' := by
  induction as generalizing s with
  | nil =>
    simp only [execGuarded, Option.some.injEq] at h
    exact h ▸ .nil s
  | cons a as ih =>
    simp only [execGuarded] at h
    split at h
    · rename_i hguard
      obtain ⟨s₁, hst, hrest⟩ := Option.bind_eq_some_iff.mp h
      exact .cons hguard hst (ih hrest)
    · cases h

theorem run_of_exec {s s' : σ} {as : List α} (h : exec step s as = some s') :
    Run step s as s' := by
  induction as generalizing s with
  | nil =>
    simp only [exec, Option.some.injEq] at h
    exact h ▸ .nil s
  | cons a as ih =>
    obtain ⟨s₁, hst, hrest⟩ := Option.bind_eq_some_iff.mp h
    exact .cons trivial hst (ih hrest)

/-- A schedule that evaluates to a state with property `p` is a run that ends there. -/
theorem exists_run_of_exec (step : σ → α → Option σ) (s : σ) (as : List α) (p : σ → Bool)
    (h : (exec step s as).map p = some true) : ∃ s', Run step s as s' ∧ p s' = true := by
  obtain ⟨s', hs', hp⟩ := Option.map_eq_some_iff.mp h
  exact ⟨s', run_of_exec hs', hp⟩

/-- The guarded form of `exists_run_of_exec`. -/
theorem exists_guardedRun_of_execGuarded (step : σ → α → Option σ) (G : σ → α → Prop)
    [∀ s a, Decidable (G s a)] (s : σ) (as : List α) (p : σ → Bool)
    (h : (execGuarded step G s as).map p = some true) :
    ∃ s', GuardedRun step G s as s' ∧ p s' = true := by
  obtain ⟨s', hs', hp⟩ := Option.map_eq_some_iff.mp h
  exact ⟨s', guardedRun_of_execGuarded hs', hp⟩

/-! ## Traces

A trace grows at its end. Once `x` is in it, `NothingAfter x` is kept exactly by adding nothing. -/

/-- Nothing follows `x` in the trace `l`. -/
def NothingAfter (x : α) (l : List α) : Prop := ∀ before after, l = before ++ x :: after → after = []

theorem nothingAfter_of_not_mem {x : α} {l : List α} (h : x ∉ l) : NothingAfter x l := by
  intro before after heq
  rw [heq] at h
  exact absurd (List.mem_append_right before List.mem_cons_self) h

theorem nothingAfter_concat {x : α} {l : List α} (h : x ∉ l) : NothingAfter x (l ++ [x]) := by
  intro before after heq
  rcases List.append_eq_append_iff.mp heq with ⟨m, hbefore, hm⟩ | ⟨m, hl, hm⟩
  · cases m with
    | nil => exact (List.cons.inj hm).2.symm
    | cons y m => simp at hm
  · -- an `x` that something follows would lie in `l`
    cases m with
    | nil => exact (List.cons.inj hm).2
    | cons y m =>
      rw [hl, ← (List.cons.inj hm).1] at h
      exact absurd (List.mem_append_right before List.mem_cons_self) h

theorem nothingAfter_append_iff {x : α} {l l' : List α} (h : x ∈ l) :
    NothingAfter x (l ++ l') ↔ NothingAfter x l ∧ l' = [] := by
  obtain ⟨before, after, hsplit⟩ := List.append_of_mem h
  constructor
  · intro hn
    have hrest : after ++ l' = [] := hn before (after ++ l') (by rw [hsplit, List.append_assoc]; rfl)
    have hl' : l' = [] := (List.append_eq_nil_iff.mp hrest).2
    rw [hl', List.append_nil] at hn
    exact ⟨hn, hl'⟩
  · rintro ⟨hn, rfl⟩
    rw [List.append_nil]
    exact hn

/-- A trace whose entries are pairwise allowed, grown by one. -/
theorem pairwise_concat {R : α → α → Prop} {x : α} {l : List α} :
    (l ++ [x]).Pairwise R ↔ l.Pairwise R ∧ ∀ y ∈ l, R y x := by
  rw [List.pairwise_append]
  constructor
  · rintro ⟨hl, _, hlast⟩
    exact ⟨hl, fun y hy => hlast y hy x List.mem_cons_self⟩
  · rintro ⟨hl, hlast⟩
    refine ⟨hl, List.pairwise_singleton R x, fun y hy z hz => ?_⟩
    rw [List.mem_singleton.mp hz]
    exact hlast y hy

end Machine
