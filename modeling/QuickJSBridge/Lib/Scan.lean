import Mathlib.Data.List.Basic

/-!
# Scanners and separators

A scanner reads a list from the left: `next st a s` is what it does in the state `st` at the symbol `a` with the
rest `s` before it, namely the new state and the number of symbols of `s` that belong to what it has read. It may
look ahead as far as it likes.

* `Stable`, `Found` — what a function that looks ahead says of a text does not change when a separator and
  more text follow the text's end;
* `upTo` — an item that is read to its own end, like a string to its closing quote;
* `Local` — the same as `Found` for the steps of a scanner;
* `run_append` — a text is then read as by itself up to its end, whatever comes after the separator;
* `run_sim` — two scanners that go through related states.
-/

namespace Scan

variable {α β γ τ τ' : Type*}

/-! ## Looking ahead -/

/-- The next symbol is there and satisfies `p`. -/
def headIs (p : α → Bool) (s : List α) : Bool := s.head?.any p

@[simp] theorem headIs_nil (p : α → Bool) : headIs p [] = false := rfl

@[simp] theorem headIs_cons (p : α → Bool) (a : α) (s : List α) : headIs p (a :: s) = p a := rfl

theorem length_pos_of_headIs {p : α → Bool} {s : List α} (h : headIs p s = true) : 0 < s.length := by
  cases s with
  | nil => cases h
  | cons a s => exact Nat.succ_pos _

/-- The next two symbols are there and satisfy `p` and `q`. -/
def headsAre (p q : α → Bool) (s : List α) : Bool := headIs p s && headIs q s.tail

/-- The number of symbols that satisfy `p` before the first one that does not. -/
def spanLen (p : α → Bool) (s : List α) : Nat := (s.takeWhile p).length

theorem spanLen_le (p : α → Bool) (s : List α) : spanLen p s ≤ s.length := (List.takeWhile_prefix p).length_le

/-- `f` says the same of a text when the separator follows. -/
def Stable (σ : α) (f : List α → β) : Prop := ∀ s t, f (s ++ σ :: t) = f s

/-- What `f` finds in a text it also finds when the separator follows. -/
def Found (σ : α) (f : List α → Option β) : Prop := ∀ s t x, f s = some x → f (s ++ σ :: t) = some x

/-- `f` counts symbols of its text. -/
def Bounded (f : List α → Option Nat) : Prop := ∀ s n, f s = some n → n ≤ s.length

section

variable {σ : α}

theorem stable_headIs {p : α → Bool} (hσ : p σ = false) : Stable σ (headIs p) := by
  intro s t
  cases s with
  | nil => exact hσ
  | cons a s => rfl

theorem stable_headsAre {p q : α → Bool} (hp : p σ = false) (hq : q σ = false) : Stable σ (headsAre p q) := by
  intro s t
  cases s with
  | nil => simp [headsAre, hp]
  | cons a s => simp only [headsAre, List.cons_append, headIs_cons, List.tail_cons, stable_headIs hq s t]

/-- A second function that reads on where a first one has stopped. -/
theorem Stable.drop {f : List α → β} (hf : Stable σ f) {n : Nat} {s : List α} (hn : n ≤ s.length)
    (t : List α) : f ((s ++ σ :: t).drop n) = f (s.drop n) := by
  rw [List.drop_append_of_le_length hn]
  exact hf (s.drop n) t

theorem stable_spanLen {p : α → Bool} (hσ : p σ = false) : Stable σ (spanLen p) := by
  intro s t
  induction s with
  | nil => simp [spanLen, hσ]
  | cons a s ih =>
    cases ha : p a with
    | false => simp [spanLen, ha]
    | true => simpa [spanLen, ha] using ih

/-- A word without the separator does not reach past it. -/
theorem stable_isPrefixOf [BEq α] [LawfulBEq α] {w : List α} (hσ : σ ∉ w) :
    Stable σ w.isPrefixOf := by
  intro s t
  induction w generalizing s with
  | nil => simp
  | cons a w ih =>
    have hne : a ≠ σ := fun h => hσ (h ▸ List.mem_cons_self)
    have hw : σ ∉ w := fun h => hσ (List.mem_cons_of_mem a h)
    cases s with
    | nil => simp [List.isPrefixOf, hne]
    | cons b s => simp only [List.cons_append, List.isPrefixOf, ih hw]

theorem find?_congr {p q : β → Bool} {l : List β} (h : ∀ b ∈ l, p b = q b) : l.find? p = l.find? q := by
  induction l with
  | nil => rfl
  | cons b l ih =>
    rw [List.find?_cons, List.find?_cons, h b List.mem_cons_self,
      ih fun c hc => h c (List.mem_cons_of_mem b hc)]

end

/-! ## Chains of conditions -/

section

variable {p : Prop} [Decidable p] {a b a' b' x : γ} {q : Prop}

/-- What holds in both branches. -/
theorem of_ite (h : (if p then a else b) = x) (ha : p → a = x → q) (hb : ¬ p → b = x → q) : q := by
  cases Decidable.em p with
  | inl hp => exact ha hp ((if_pos hp).symm.trans h)
  | inr hp => exact hb hp ((if_neg hp).symm.trans h)

/-- Two chains with the same conditions, compared branch by branch. -/
theorem ite_imp (h : (if p then a else b) = x) (ha : p → a = x → a' = x) (hb : ¬ p → b = x → b' = x) :
    (if p then a' else b') = x :=
  of_ite h (fun hp h => (if_pos hp).trans (ha hp h)) fun hp h => (if_neg hp).trans (hb hp h)

end

/-! ## Items with an end of their own -/

/-- What an item does at one of its symbols. -/
inductive Move (ι : Type*) where
  | fail
  -- the item ends with this symbol and `n - 1` more
  | close (n : Nat)
  | go (i : ι)

/-- The number of symbols up to the end of an item. An item that does not end within the text is an error. -/
def upTo {ι : Type*} (step : ι → α → List α → Move ι) : ι → List α → Option Nat
  | _, [] => none
  | i, a :: s =>
    match step i a s with
    | .fail => none
    | .close n => some n
    | .go i => (upTo step i s).map (· + 1)

section

variable {ι : Type*} {step : ι → α → List α → Move ι} {σ : α}

theorem found_upTo (hstep : ∀ i a s t, step i a s ≠ .fail → step i a (s ++ σ :: t) = step i a s) (i : ι) :
    Found σ (upTo step i) := by
  intro s t n h
  induction s generalizing i n with
  | nil => cases h
  | cons a s ih =>
    rw [upTo] at h
    cases hmove : step i a s with
    | fail => rw [hmove] at h; cases h
    | close m =>
      rw [hmove] at h
      rw [List.cons_append, upTo, hstep i a s t (by rw [hmove]; simp), hmove]
      exact h
    | go j =>
      rw [hmove] at h
      obtain ⟨m, hm, rfl⟩ := Option.map_eq_some_iff.mp h
      rw [List.cons_append, upTo, hstep i a s t (by rw [hmove]; simp), hmove]
      simp only [ih j m hm, Option.map_some]

theorem bounded_upTo (hclose : ∀ i a s n, step i a s = .close n → n ≤ s.length + 1) (i : ι) :
    Bounded (upTo step i) := by
  intro s n h
  induction s generalizing i n with
  | nil => cases h
  | cons a s ih =>
    rw [upTo] at h
    cases hmove : step i a s with
    | fail => rw [hmove] at h; cases h
    | close m =>
      rw [hmove] at h
      cases h
      exact hclose i a s n hmove
    | go j =>
      rw [hmove] at h
      obtain ⟨m, hm, rfl⟩ := Option.map_eq_some_iff.mp h
      exact Nat.succ_le_succ (ih j m hm)

end

/-! ## Scanners -/

/-- Reads the rest of a text after `k` more symbols of the item before. -/
def run (next : τ → α → List α → Option (τ × Nat)) : Nat → τ → List α → Option τ
  | _, st, [] => some st
  | k + 1, st, _ :: s => run next k st s
  | 0, st, a :: s =>
    match next st a s with
    | none => none
    | some (st', n) => run next n st' s

section

variable {next : τ → α → List α → Option (τ × Nat)}

@[simp] theorem run_nil (k : Nat) (st : τ) : run next k st [] = some st := by
  cases k <;> rfl

theorem run_zero_cons (st : τ) (a : α) (s : List α) :
    run next 0 st (a :: s) = (next st a s).bind fun x => run next x.2 x.1 s := by
  rw [run]
  cases next st a s <;> rfl

theorem run_cons_of_none {st : τ} {a : α} {s : List α} (h : next st a s = none) :
    run next 0 st (a :: s) = none := by
  rw [run_zero_cons, h]
  rfl

/-- The items of a scanner end with the text or before the separator, and they are read alike in both cases. -/
structure Local (σ : α) (next : τ → α → List α → Option (τ × Nat)) : Prop where
  bounded : ∀ {st a s st' n}, next st a s = some (st', n) → n ≤ s.length
  append : ∀ {st a s x} (t : List α), next st a s = some x → next st a (s ++ σ :: t) = some x

/-- Induction on the text, one item or one symbol of an item at a time. -/
theorem run_append {σ : α} (h : Local σ next) {k : Nat} {st st' : τ} {s : List α} (t : List α)
    (hk : k ≤ s.length) (hrun : run next k st s = some st') :
    run next k st (s ++ σ :: t) = run next 0 st' (σ :: t) := by
  induction s generalizing k st with
  | nil =>
    obtain rfl : k = 0 := Nat.le_zero.mp hk
    cases hrun
    rfl
  | cons a s ih =>
    cases k with
    | succ k => exact ih (Nat.le_of_succ_le_succ hk) hrun
    | zero =>
      rw [run_zero_cons] at hrun
      obtain ⟨x, hx, hrun⟩ := Option.bind_eq_some_iff.mp hrun
      rw [List.cons_append, run_zero_cons, h.append t hx]
      exact ih (h.bounded hx) hrun

/-- A scanner that follows another one step by step reads what the other one reads. -/
theorem run_sim {next' : τ' → α → List α → Option (τ' × Nat)} {R : τ → τ' → Prop}
    (hstep : ∀ {st st' a s x n}, R st st' → next st a s = some (x, n) →
      ∃ x', next' st' a s = some (x', n) ∧ R x x')
    {k : Nat} {st y : τ} {st' : τ'} {s : List α} (hR : R st st') (hrun : run next k st s = some y) :
    ∃ y', run next' k st' s = some y' ∧ R y y' := by
  induction s generalizing k st st' with
  | nil =>
    rw [run_nil] at hrun
    cases hrun
    exact ⟨st', run_nil k st', hR⟩
  | cons a s ih =>
    cases k with
    | succ k => exact ih hR hrun
    | zero =>
      rw [run_zero_cons] at hrun
      obtain ⟨⟨x, n⟩, hx, hrun⟩ := Option.bind_eq_some_iff.mp hrun
      obtain ⟨x', hx', hR'⟩ := hstep hR hx
      obtain ⟨y', hy', hRy⟩ := ih hR' hrun
      refine ⟨y', ?_, hRy⟩
      rw [run_zero_cons, hx']
      exact hy'

end

end Scan
