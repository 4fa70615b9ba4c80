import Mathlib.Data.List.Nodup
import Mathlib.Data.List.Perm.Subperm
import Mathlib.Logic.Function.Basic

/-!
# Chains of links

Every element leads to another one, or to none. Following the links from some start either comes to an element that
leads to none, or does not end.

* `Chain` — the elements that are met until there is no further one; `Ends` — there are such elements;
* `Chain.nodup` — none is met twice, so a chain is not longer than the number of elements;
* `Chain.congr`, `ends_update` — links of elements that are not met do not matter, and where one link is changed
  chains still end if the one from its new target ends without it;
* `chainOf` — the chain, as a function.
-/

namespace Chains

variable {α : Type*} {next next' : α → Option α} {start target : Option α} {a b : α} {l l' : List α}

inductive Chain (next : α → Option α) : Option α → List α → Prop
  | nil : Chain next none []
  | cons {a : α} {l : List α} (h : Chain next (next a) l) : Chain next (some a) (a :: l)

def Ends (next : α → Option α) (start : Option α) : Prop := ∃ l, Chain next start l

theorem Chain.unique (h : Chain next start l) (h' : Chain next start l') : l = l' := by
  induction h generalizing l' with
  | nil =>
    cases h' with
    | nil => rfl
  | cons _ ih =>
    cases h' with
    | cons h' => rw [ih h']

/-- From an element on, a chain goes on as the chain of that element. -/
theorem Chain.of_mem (h : Chain next start l) (hb : b ∈ l) : ∃ l', Chain next (some b) l' ∧ l'.length ≤ l.length := by
  induction h with
  | nil => exact absurd hb List.not_mem_nil
  | @cons a l h ih =>
    rcases List.mem_cons.mp hb with heq | hb
    · rw [heq]
      exact ⟨a :: l, h.cons, Nat.le_refl _⟩
    · obtain ⟨l', hl', hle⟩ := ih hb
      exact ⟨l', hl', Nat.le_trans hle (Nat.le_succ _)⟩

theorem Chain.nodup (h : Chain next start l) : l.Nodup := by
  induction h with
  | nil => exact List.nodup_nil
  | @cons a l h ih =>
    refine List.nodup_cons.mpr ⟨fun ha => ?_, ih⟩
    -- an element that is met again has two chains of different length
    obtain ⟨l', hl', hle⟩ := h.of_mem ha
    rw [hl'.unique h.cons, List.length_cons] at hle
    omega

theorem Chain.length_le (h : Chain next start l) {s : List α} (hs : ∀ x ∈ l, x ∈ s) : l.length ≤ s.length :=
  (h.nodup.subperm hs).length_le

theorem Chain.congr (h : Chain next start l) (hsame : ∀ x ∈ l, next' x = next x) : Chain next' start l := by
  induction h with
  | nil => exact .nil
  | @cons a l _ ih =>
    refine .cons ?_
    rw [hsame a List.mem_cons_self]
    exact ih fun x hx => hsame x (List.mem_cons_of_mem a hx)

theorem Ends.of_next (h : Ends next (next a)) : Ends next (some a) :=
  let ⟨l, hl⟩ := h
  ⟨a :: l, hl.cons⟩

theorem ends_none : Ends next none := ⟨[], .nil⟩

/-- The link of `a` is changed. -/
theorem ends_update [DecidableEq α] (h : Ends next start) (htarget : Chain next target l) (ha : a ∉ l) :
    Ends (Function.update next a target) start := by
  have hne : ∀ x ∈ l, x ≠ a := fun x hx heq => ha (heq ▸ hx)
  have htarget' : Chain (Function.update next a target) target l := htarget.congr fun x hx => Function.update_of_ne (hne x hx) _ _
  obtain ⟨m, hm⟩ := h
  induction hm with
  | nil => exact ends_none
  | @cons x m _ ih =>
    by_cases hx : x = a
    · refine Ends.of_next ⟨l, ?_⟩
      rw [hx, Function.update_self]
      exact htarget'
    · refine Ends.of_next ?_
      rw [Function.update_of_ne hx]
      exact ih

/-! ## The chain as a function -/

open Classical in
/-- The chain from `start`, if it ends. -/
noncomputable def chainOf (next : α → Option α) (start : Option α) : List α :=
  if h : Ends next start then h.choose else []

theorem Chain.chainOf_eq (h : Chain next start l) : chainOf next start = l := by
  have hends : Ends next start := ⟨l, h⟩
  unfold chainOf
  rw [dif_pos hends]
  exact hends.choose_spec.unique h

theorem Ends.chain (h : Ends next start) : Chain next start (chainOf next start) := by
  obtain ⟨l, hl⟩ := h
  rw [hl.chainOf_eq]
  exact hl

theorem chainOf_none : chainOf next none = [] := Chain.nil.chainOf_eq

theorem Ends.chainOf_some (h : Ends next (next a)) : chainOf next (some a) = a :: chainOf next (next a) :=
  h.chain.cons.chainOf_eq

end Chains
