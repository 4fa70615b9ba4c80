import Mathlib.Data.Set.Finite.Basic
import Mathlib.Logic.Relation
import Mathlib.Order.WellFounded

/-!
# Cycles and accessibility

`r b a` says that `b` is a direct successor of `a` in a graph. Where finitely many elements can be reached
from `a`, the recursion along `r` that starts at `a` ends iff it meets no cycle.

* `NoCycle r a` — no element that can be reached from `a` can be reached from itself;
* `acc_iff_noCycle` — on a finite part of the graph this is accessibility.
-/

namespace Acyclic

open Relation

variable {α : Type*} {r : α → α → Prop} {a : α}

/-- No cycle is reached from `a`. -/
def NoCycle (r : α → α → Prop) (a : α) : Prop := ∀ b, ReflTransGen r b a → ¬ TransGen r b b

theorem not_rel_self_of_acc (h : Acc r a) : ¬ r a a := by
  induction h with
  | intro x _ ih => exact fun hx => ih x hx hx

theorem not_transGen_self_of_acc (h : Acc r a) : ¬ TransGen r a a :=
  not_rel_self_of_acc h.transGen

theorem acc_of_reflTransGen {b : α} (h : Acc r a) (hb : ReflTransGen r b a) : Acc r b := by
  rcases reflTransGen_iff_eq_or_transGen.mp hb with heq | hb
  · exact heq ▸ h
  · exact h.inv_of_transGen hb

theorem noCycle_of_acc (h : Acc r a) : NoCycle r a :=
  fun _ hb => not_transGen_self_of_acc (acc_of_reflTransGen h hb)

/-- Along a descending chain every element can be reached from the ones before. -/
theorem transGen_of_chain {f : Nat → α} (hf : ∀ n, r (f (n + 1)) (f n)) {i j : Nat} (h : i < j) :
    TransGen r (f j) (f i) := by
  induction j with
  | zero => exact absurd h (Nat.not_lt_zero i)
  | succ j ih =>
    rcases Nat.lt_succ_iff_lt_or_eq.mp h with hlt | heq
    · exact TransGen.head (hf j) (ih hlt)
    · rw [heq]
      exact TransGen.single (hf j)

theorem acc_of_noCycle (hfin : {b | ReflTransGen r b a}.Finite) (h : NoCycle r a) : Acc r a := by
  rw [acc_iff_isEmpty_descending_chain]
  constructor
  rintro ⟨f, hstart, hf⟩
  have hreach : ∀ n, ReflTransGen r (f n) a := by
    intro n
    rw [← hstart]
    rcases Nat.eq_zero_or_pos n with hn | hn
    · rw [hn]
    · exact (transGen_of_chain hf hn).to_reflTransGen
  -- two places of the chain hold one element
  have hinfinite : ¬ Function.Injective f := by
    intro hinj
    exact (Set.infinite_range_of_injective hinj) (hfin.subset (Set.range_subset_iff.mpr hreach))
  obtain ⟨i, j, heq, hne⟩ := Function.not_injective_iff.mp hinfinite
  rcases Nat.lt_or_gt_of_ne hne with hlt | hlt
  · have hcycle := transGen_of_chain hf hlt
    rw [← heq] at hcycle
    exact h (f i) (hreach i) hcycle
  · have hcycle := transGen_of_chain hf hlt
    rw [heq] at hcycle
    exact h (f j) (hreach j) hcycle

theorem acc_iff_noCycle (hfin : {b | ReflTransGen r b a}.Finite) : Acc r a ↔ NoCycle r a :=
  ⟨noCycle_of_acc, acc_of_noCycle hfin⟩

end Acyclic
