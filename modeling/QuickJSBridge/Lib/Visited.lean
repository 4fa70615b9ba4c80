import Mathlib.Data.List.Perm.Basic

/-!
# Searches that mark what they visit

A search that marks a node before it goes on from there ends, since with each step fewer nodes of a finite
universe are open.

* `countP_lt_countP` — a predicate that holds of fewer members of a list;
* `unvisited` — how many nodes of a universe a list does not have; `unvisited_le`, `unvisited_lt`.
-/

namespace Visited

variable {α : Type*}

/-- Of `a` only the second predicate holds, which is the weaker one. -/
theorem countP_lt_countP {p q : α → Bool} {l : List α} {a : α} (ha : a ∈ l) (hp : p a = false)
    (hq : q a = true) (hpq : ∀ b ∈ l, p b = true → q b = true) : l.countP p < l.countP q := by
  induction l with
  | nil => exact absurd ha List.not_mem_nil
  | cons b l ih =>
    have hle : l.countP p ≤ l.countP q :=
      List.countP_mono_left fun x hx => hpq x (List.mem_cons_of_mem b hx)
    rw [List.countP_cons, List.countP_cons]
    by_cases hb : a = b
    · subst hb
      rw [if_pos hq, hp, if_neg (by decide)]
      omega
    · have hlt := ih ((List.mem_cons.mp ha).resolve_left hb) fun x hx => hpq x (List.mem_cons_of_mem b hx)
      by_cases hpb : p b = true
      · rw [if_pos hpb, if_pos (hpq b List.mem_cons_self hpb)]
        omega
      · rw [if_neg hpb]
        omega

variable [DecidableEq α]

/-- How many nodes of the universe `U` are not in `s`. -/
def unvisited (U s : List α) : Nat := U.countP fun a => a ∉ s

theorem unvisited_le {U s s' : List α} (h : s ⊆ s') : unvisited U s' ≤ unvisited U s := by
  refine List.countP_mono_left fun a _ ha => ?_
  rw [decide_eq_true_iff] at ha ⊢
  exact fun hs => ha (h hs)

theorem unvisited_lt {U s s' : List α} {a : α} (h : s ⊆ s') (hU : a ∈ U) (hs : a ∉ s) (hs' : a ∈ s') :
    unvisited U s' < unvisited U s := by
  refine countP_lt_countP hU (decide_eq_false (not_not_intro hs')) (decide_eq_true hs) fun b _ hb => ?_
  rw [decide_eq_true_iff] at hb ⊢
  exact fun hbs => hb (h hbs)

theorem unvisited_le_length (U s : List α) : unvisited U s ≤ U.length := List.countP_le_length

end Visited
