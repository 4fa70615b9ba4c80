import Mathlib.Data.List.Count
import Mathlib.Data.List.Perm.Lattice
import Mathlib.Logic.Function.Basic

/-!
# Reference-counted graphs

Nodes hold references to other nodes, and some are held from outside. A node's count is exact when it is the
number of references from outside and from the nodes that exist. Taking the references of all nodes off their
counts leaves the references from outside, and this is how a cycle that nothing outside holds is told from one
that is in use.

* `incoming` — how many references the nodes of a list have to a node;
* `Held` — the nodes that are held, directly or through other nodes;
* `mem_iff_held` — a list that keeps only held nodes, and refers to no node that it leaves out, keeps exactly
  the held ones.
-/

namespace RefCounts

variable {α : Type*} [DecidableEq α] {children : α → List α} {external : α → Nat}

/-! ## References from a list of nodes -/

/-- The references that the nodes of `l` have to `p`. -/
def incoming (children : α → List α) (l : List α) (p : α) : Nat := (l.flatMap children).count p

@[simp] theorem incoming_nil (p : α) : incoming children [] p = 0 := rfl

theorem incoming_cons (q : α) (l : List α) (p : α) :
    incoming children (q :: l) p = (children q).count p + incoming children l p := by
  unfold incoming
  rw [List.flatMap_cons, List.count_append]

theorem incoming_append (l m : List α) (p : α) :
    incoming children (l ++ m) p = incoming children l p + incoming children m p := by
  unfold incoming
  rw [List.flatMap_append, List.count_append]

theorem incoming_singleton (q p : α) : incoming children [q] p = (children q).count p := by
  rw [incoming_cons, incoming_nil, Nat.add_zero]

theorem incoming_perm {l m : List α} (h : l.Perm m) (p : α) :
    incoming children l p = incoming children m p :=
  (h.flatMap_right children).count_eq p

/-- What a node that leaves the list held, and what the rest holds. -/
theorem incoming_erase {q : α} {l : List α} (h : q ∈ l) (p : α) :
    incoming children l p = (children q).count p + incoming children (l.erase q) p := by
  rw [incoming_perm (List.perm_cons_erase h) p, incoming_cons]

theorem incoming_le_of_sublist {l m : List α} (h : l.Sublist m) (p : α) :
    incoming children l p ≤ incoming children m p := by
  induction h with
  | slnil => exact Nat.le_refl 0
  | cons q _ ih =>
    rw [incoming_cons]
    omega
  | cons_cons q _ ih =>
    rw [incoming_cons, incoming_cons]
    omega

theorem incoming_pos_iff {l : List α} {p : α} :
    0 < incoming children l p ↔ ∃ q ∈ l, p ∈ children q := by
  unfold incoming
  rw [List.count_pos_iff, List.mem_flatMap]

theorem incoming_pos {l : List α} {p q : α} (hq : q ∈ l) (hp : p ∈ children q) :
    0 < incoming children l p :=
  incoming_pos_iff.mpr ⟨q, hq, hp⟩

theorem incoming_congr {f g : α → List α} {l : List α} (h : ∀ q ∈ l, f q = g q) (p : α) :
    incoming f l p = incoming g l p := by
  induction l with
  | nil => rfl
  | cons q l ih =>
    rw [incoming_cons, incoming_cons, h q List.mem_cons_self, ih fun r hr => h r (List.mem_cons_of_mem q hr)]

theorem incoming_update_of_not_mem {l : List α} {p : α} (hp : p ∉ l) (cs : List α) (q : α) :
    incoming (Function.update children p cs) l q = incoming children l q := by
  refine incoming_congr (fun r hr => ?_) q
  have hrp : r ≠ p := fun heq => hp (heq ▸ hr)
  exact Function.update_of_ne hrp ..

/-- What a node holds is replaced. -/
theorem incoming_update {l : List α} {p : α} (hl : l.Nodup) (hp : p ∈ l) (cs : List α) (q : α) :
    incoming (Function.update children p cs) l q + (children p).count q =
      incoming children l q + cs.count q := by
  have hrest : p ∉ l.erase p := hl.not_mem_erase
  have hbefore : incoming children l q = (children p).count q + incoming children (l.erase p) q :=
    incoming_erase hp q
  rw [incoming_erase hp, Function.update_self, incoming_update_of_not_mem hrest]
  omega

/-! ## What is held -/

/-- Held from outside, or by a node that is held. -/
inductive Held (children : α → List α) (external : α → Nat) : α → Prop where
  | root {p : α} (h : 0 < external p) : Held children external p
  | child {p c : α} (hp : Held children external p) (hc : c ∈ children p) : Held children external c

omit [DecidableEq α] in
/-- What contains the nodes held from outside and the children of its members contains all that is held. -/
theorem Held.mem_of_closed {S : α → Prop} (hroot : ∀ p, 0 < external p → S p)
    (hchild : ∀ p, S p → ∀ c ∈ children p, S c) {p : α} (h : Held children external p) : S p := by
  induction h with
  | root h => exact hroot _ h
  | child _ hc ih => exact hchild _ ih _ hc

/-- A node that nothing refers to any more is not held. -/
theorem not_held_of_unreferenced {l : List α} (hl : ∀ p, Held children external p → p ∈ l) {c : α}
    (h : external c + incoming children l c = 0) : ¬ Held children external c := by
  intro hheld
  cases hheld with
  | root hpos => omega
  | child hp hc =>
    have := incoming_pos (hl _ hp) hc
    omega

/-- Let the nodes be split into those kept, all of them held, and those dropped, to which no reference from
outside or from a kept node is left. Then the kept nodes are the held ones. -/
theorem mem_iff_held {nodes kept dropped : List α} (hsplit : (kept ++ dropped).Perm nodes)
    (hclosed : ∀ p ∈ nodes, ∀ c ∈ children p, c ∈ nodes) (hroots : ∀ p, 0 < external p → p ∈ nodes)
    (hkept : ∀ p ∈ kept, Held children external p)
    (hdropped : ∀ p ∈ dropped, external p + incoming children kept p = 0) {p : α} :
    p ∈ kept ↔ Held children external p := by
  have hside : ∀ q ∈ nodes, q ∉ dropped → q ∈ kept := by
    intro q hq hd
    rcases List.mem_append.mp (hsplit.mem_iff.mpr hq) with h | h
    · exact h
    · exact absurd h hd
  refine ⟨hkept p, Held.mem_of_closed (S := (· ∈ kept)) ?_ ?_⟩
  · intro q hq
    refine hside q (hroots q hq) fun hd => ?_
    have := hdropped q hd
    omega
  · intro q hq c hc
    have hmem : q ∈ nodes := hsplit.mem_iff.mp (List.mem_append_left dropped hq)
    refine hside c (hclosed q hmem c hc) fun hd => ?_
    have := hdropped c hd
    have := incoming_pos hq hc
    omega

end RefCounts
