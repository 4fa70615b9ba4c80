import Mathlib.Logic.Function.Basic

/-!
# Chained indexes

The entries of an array are in buckets, or free. An index has a head for each bucket, and a link for each entry to
the one before it in its bucket. Entries are counted from one; zero ends a chain.

* `last b h n` — the last of the first `n` entries that is in bucket `h`;
* `Indexed b n head next` — head and link of each bucket and entry are what `last` says;
* `Indexed.push`, `Indexed.skip` — an entry is added, or left free;
* `Indexed.erase_head`, `Indexed.erase_link` — an entry is taken out, the first of its bucket or another.
-/

namespace ChainIndex

variable {b b' : Nat → Option Nat} {h i n : Nat}

def last (b : Nat → Option Nat) (h : Nat) : Nat → Nat
  | 0 => 0
  | n + 1 => if b n = some h then n + 1 else last b h n

theorem last_succ_of_eq (hb : b n = some h) : last b h (n + 1) = n + 1 := if_pos hb

theorem last_succ_of_ne (hb : b n ≠ some h) : last b h (n + 1) = last b h n := if_neg hb

theorem last_le (b : Nat → Option Nat) (h n : Nat) : last b h n ≤ n := by
  induction n with
  | zero => exact Nat.le_refl 0
  | succ n ih =>
    unfold last
    split
    · exact Nat.le_refl _
    · omega

theorem bucket_of_last (hlast : last b h n = i + 1) : i < n ∧ b i = some h := by
  induction n with
  | zero => exact absurd hlast (Nat.succ_ne_zero i).symm
  | succ n ih =>
    by_cases hb : b n = some h
    · rw [last_succ_of_eq hb] at hlast
      obtain rfl : n = i := by omega
      exact ⟨Nat.lt_succ_self n, hb⟩
    · rw [last_succ_of_ne hb] at hlast
      obtain ⟨hlt, hi⟩ := ih hlast
      exact ⟨by omega, hi⟩

/-- Between the last entry of a bucket and the end there is none. -/
theorem ne_of_last_le {j : Nat} (hj : j < n) (hle : last b h n ≤ j) : b j ≠ some h := by
  induction n with
  | zero => exact absurd hj (Nat.not_lt_zero j)
  | succ n ih =>
    by_cases hb : b n = some h
    · rw [last_succ_of_eq hb] at hle
      omega
    · rw [last_succ_of_ne hb] at hle
      by_cases hjn : j = n
      · rw [hjn]
        exact hb
      · exact ih (by omega) hle

theorem last_congr (hb : ∀ j < n, b' j = b j) : last b' h n = last b h n := by
  induction n with
  | zero => rfl
  | succ n ih =>
    unfold last
    rw [hb n (Nat.lt_succ_self n), ih fun j hj => hb j (by omega)]

/-- Entry `i` is taken out. -/
theorem last_erase (hi : b' i = none) (hb : ∀ j ≠ i, b' j = b j) :
    last b' h n = if last b h n = i + 1 then last b h i else last b h n := by
  induction n with
  | zero => rfl
  | succ n ih =>
    by_cases hn : n = i
    · rw [hn]
      have hsame : last b' h i = last b h i := last_congr fun j hj => hb j (by omega)
      rw [last_succ_of_ne (by rw [hi]; exact (Option.some_ne_none _).symm), hsame]
      by_cases hbi : b i = some h
      · rw [last_succ_of_eq hbi, if_pos rfl]
      · have hle := last_le b h i
        rw [last_succ_of_ne hbi, if_neg (by omega)]
    · by_cases hbn : b n = some h
      · rw [last_succ_of_eq (by rw [hb n hn]; exact hbn), last_succ_of_eq hbn, if_neg (by omega)]
      · rw [last_succ_of_ne (by rw [hb n hn]; exact hbn), last_succ_of_ne hbn, ih]

/-! ## Indexes -/

/-- The index of the first `n` entries, with `size` buckets. -/
structure Indexed (b : Nat → Option Nat) (size n : Nat) (head next : Nat → Nat) : Prop where
  bounded : ∀ i < n, ∀ h, b i = some h → h < size
  head : ∀ h < size, head h = last b h n
  next : ∀ i < n, ∀ h, b i = some h → next i = last b h i

variable {size : Nat} {head next head' next' : Nat → Nat}

theorem indexed_zero (b : Nat → Option Nat) (size : Nat) (next : Nat → Nat) : Indexed b size 0 (fun _ => 0) next where
  bounded := fun i hi => absurd hi (Nat.not_lt_zero i)
  head := fun _ _ => rfl
  next := fun i hi => absurd hi (Nat.not_lt_zero i)

/-- An entry is added in front of its bucket. -/
theorem Indexed.push (hindex : Indexed b size n head next) (hb : ∀ j < n, b' j = b j) (hn : b' n = some h)
    (hsize : h < size) (hhead : head' h = n + 1) (hheads : ∀ k ≠ h, head' k = head k) (hnext : next' n = head h)
    (hnexts : ∀ j < n, next' j = next j) : Indexed b' size (n + 1) head' next' := by
  have hlast : ∀ k, ∀ j ≤ n, last b' k j = last b k j := fun k j hj => last_congr fun i hi => hb i (by omega)
  refine ⟨fun i hi k hk => ?_, fun k hk => ?_, fun i hi k hk => ?_⟩
  · by_cases hin : i = n
    · rw [hin, hn] at hk
      cases hk
      exact hsize
    · rw [hb i (by omega)] at hk
      exact hindex.bounded i (by omega) k hk
  · by_cases hkh : k = h
    · rw [hkh, hhead, last_succ_of_eq hn]
    · have hne : b' n ≠ some k := by
        rw [hn]
        exact fun heq => hkh (Option.some.inj heq).symm
      rw [hheads k hkh, last_succ_of_ne hne, hlast k n (Nat.le_refl n), hindex.head k hk]
  · by_cases hin : i = n
    · rw [hin, hn] at hk
      cases hk
      rw [hin, hnext, hlast h n (Nat.le_refl n), hindex.head h hsize]
    · rw [hb i (by omega)] at hk
      rw [hnexts i (by omega), hlast k i (by omega)]
      exact hindex.next i (by omega) k hk

/-- An entry is left free. -/
theorem Indexed.skip (hindex : Indexed b size n head next) (hb : ∀ j < n, b' j = b j) (hn : b' n = none)
    (hnexts : ∀ j < n, next' j = next j) : Indexed b' size (n + 1) head next' := by
  have hlast : ∀ k, ∀ j ≤ n, last b' k j = last b k j := fun k j hj => last_congr fun i hi => hb i (by omega)
  have hfree : ∀ k, b' n ≠ some k := by
    intro k
    rw [hn]
    exact (Option.some_ne_none _).symm
  refine ⟨fun i hi k hk => ?_, fun k hk => ?_, fun i hi k hk => ?_⟩
  · have hin : i ≠ n := fun heq => hfree k (heq ▸ hk)
    rw [hb i (by omega)] at hk
    exact hindex.bounded i (by omega) k hk
  · rw [last_succ_of_ne (hfree k), hlast k n (Nat.le_refl n)]
    exact hindex.head k hk
  · have hin : i ≠ n := fun heq => hfree k (heq ▸ hk)
    rw [hb i (by omega)] at hk
    rw [hnexts i (by omega), hlast k i (by omega)]
    exact hindex.next i (by omega) k hk

/-- An entry is taken out: the head or the link that led to it now leads to the one before it. -/
theorem Indexed.erase (hindex : Indexed b size n head next) (hin : i < n) (hbi : b i = some h) (hi : b' i = none)
    (hb : ∀ j ≠ i, b' j = b j)
    (hhead : ∀ k, head' k = if k = h ∧ head h = i + 1 then next i else head k)
    (hnext : ∀ j < n, j ≠ i → next' j = if b j = some h ∧ next j = i + 1 then next i else next j) :
    Indexed b' size n head' next' := by
  have hnexti : next i = last b h i := hindex.next i hin h hbi
  have hlast : ∀ k j, last b' k j = if last b k j = i + 1 then last b k i else last b k j :=
    fun k j => last_erase hi hb
  -- only the bucket of `i` leads to it
  have hbucket : ∀ {k j}, last b k j = i + 1 → k = h := by
    intro k j heq
    have hbk := (bucket_of_last heq).2
    rw [hbi] at hbk
    exact (Option.some.inj hbk).symm
  refine ⟨fun j hj k hk => ?_, fun k hk => ?_, fun j hj k hk => ?_⟩
  · by_cases hji : j = i
    · rw [hji, hi] at hk
      cases hk
    · rw [hb j hji] at hk
      exact hindex.bounded j hj k hk
  · rw [hhead, hlast]
    by_cases hlk : last b k n = i + 1
    · have hkh := hbucket hlk
      rw [hkh] at hlk hk ⊢
      rw [if_pos ⟨rfl, by rw [hindex.head h hk]; exact hlk⟩, if_pos hlk, hnexti]
    · rw [if_neg hlk, if_neg fun hand => hlk ?_, hindex.head k hk]
      rw [hand.1] at hk ⊢
      rw [← hindex.head h hk]
      exact hand.2
  · have hji : j ≠ i := by
      intro heq
      rw [heq, hi] at hk
      cases hk
    rw [hb j hji] at hk
    rw [hnext j hj hji, hlast]
    have hnextj := hindex.next j hj k hk
    by_cases hlk : last b k j = i + 1
    · have hkh := hbucket hlk
      rw [hkh] at hlk hk ⊢
      rw [if_pos ⟨hk, by rw [hnextj, hkh]; exact hlk⟩, if_pos hlk, hnexti]
    · rw [if_neg hlk, if_neg fun hand => hlk ?_, hnextj]
      rw [← hnextj]
      exact hand.2

/-- Entry `i` is the first that the head of its bucket leads to. -/
theorem Indexed.erase_head (hindex : Indexed b size n head next) (hin : i < n) (hbi : b i = some h)
    (hlead : head h = i + 1) (hi : b' i = none) (hb : ∀ j ≠ i, b' j = b j) (hhead : head' h = next i)
    (hheads : ∀ k ≠ h, head' k = head k) (hnexts : ∀ j < n, j ≠ i → next' j = next j) :
    Indexed b' size n head' next' := by
  refine hindex.erase hin hbi hi hb (fun k => ?_) fun j hj hji => ?_
  · by_cases hk : k = h
    · rw [hk, hhead, if_pos ⟨rfl, hlead⟩]
    · rw [hheads k hk, if_neg fun hand => hk hand.1]
  · rw [hnexts j hj hji, if_neg]
    rintro ⟨hbj, hnextj⟩
    rw [hindex.next j hj h hbj] at hnextj
    rw [hindex.head h (hindex.bounded i hin h hbi)] at hlead
    -- `j` comes after `i`
    have hle := last_le b h j
    exact ne_of_last_le hj (by omega) hbj

/-- Entry `l` leads to entry `i`. -/
theorem Indexed.erase_link (hindex : Indexed b size n head next) (hin : i < n) (hbi : b i = some h) {l : Nat}
    (hl : l < n) (hbl : b l = some h) (hlead : next l = i + 1) (hi : b' i = none) (hb : ∀ j ≠ i, b' j = b j)
    (hheads : ∀ k, head' k = head k) (hnext : next' l = next i) (hnexts : ∀ j < n, j ≠ i → j ≠ l → next' j = next j) :
    Indexed b' size n head' next' := by
  have hlast : last b h l = i + 1 := by
    rw [← hindex.next l hl h hbl]
    exact hlead
  have hil : i + 1 ≤ l := hlast ▸ last_le b h l
  refine hindex.erase hin hbi hi hb (fun k => ?_) fun j hj hji => ?_
  · rw [hheads k, if_neg]
    rintro ⟨rfl, hhead⟩
    rw [hindex.head k (hindex.bounded i hin k hbi)] at hhead
    exact ne_of_last_le hl (by omega) hbl
  · by_cases hjl : j = l
    · rw [hjl, hnext, if_pos ⟨hbl, hlead⟩]
    · rw [hnexts j hj hji hjl, if_neg]
      rintro ⟨hbj, hnextj⟩
      rw [hindex.next j hj h hbj] at hnextj
      -- of `j` and `l` the later one leads to the other
      rcases Nat.lt_or_gt_of_ne hjl with hlt | hgt
      · have hle := last_le b h j
        exact ne_of_last_le hlt (by omega) hbj
      · exact ne_of_last_le hgt (by omega) hbl

end ChainIndex
