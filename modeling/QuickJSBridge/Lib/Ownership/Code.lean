import Mathlib.Algebra.Order.BigOperators.Group.List
import Mathlib.Algebra.Order.Pi
import Mathlib.Algebra.Order.Ring.Int

/-!
# Code that owns counted references

A runtime keeps cells with reference counts. Foreign code obtains references, copies and drops them,
gives some back to the runtime and leaves others to handles. Here is what one such code does to the
references it owns, as a list of instructions.

* `Instr`, `net` — what one instruction does, and what a whole code leaves over;
* `Solvent` — the code spends and uses only what it owns or borrows;
* `solvent_append`, `solvent_mono`, `solvent_flatMap`, `net_append` — a code is checked piece by piece;
* `each`, `amount` — an instruction on a reference that may be absent, as on a value that may be a
  scalar.
-/

namespace Ownership

variable {C : Type*}

/-! ## Instructions -/

/-- How many references to each cell. -/
abbrev Amount (C : Type*) := C → Int

inductive Instr (C : Type*) where
  -- an owned reference comes from the runtime
  | acquire (c : C)
  | dup (c : C)
  | drop (c : C)
  -- the runtime takes a reference over
  | give (c : C)
  -- a new handle takes a reference over
  | wrap (c : C)
  | read (c : C)
  -- through a pointer for which the code has no reference
  | deref (c : C)
  | derefDup (c : C)
  deriving DecidableEq

abbrev Code (C : Type*) := List (Instr C)

namespace Instr

/-- The instruction is within its means, for a code that owns `o` and borrows `B`. -/
def Allowed (B : List C) (o : Amount C) : Instr C → Prop
  | acquire _ | deref _ | derefDup _ => True
  | dup c | read c => 0 < o c ∨ c ∈ B
  | drop c | give c | wrap c => 0 < o c

theorem Allowed.mono {B : List C} {o o' : Amount C} (hle : o ≤ o') {i : Instr C}
    (h : i.Allowed B o) : i.Allowed B o' := by
  cases i with
  | acquire c | deref c | derefDup c => trivial
  | dup c | read c => exact Or.imp_left (fun hpos => hpos.trans_le (hle c)) h
  | drop c | give c | wrap c => exact lt_of_lt_of_le h (hle c)

variable [DecidableEq C]

/-- The change of what the code owns. -/
def delta : Instr C → Amount C
  | acquire c | dup c | derefDup c => Pi.single c 1
  | drop c | give c | wrap c => -Pi.single c 1
  | read _ | deref _ => 0

/-- The change of the counts. -/
def counted : Instr C → Amount C
  | acquire c | dup c | derefDup c => Pi.single c 1
  | drop c => -Pi.single c 1
  | give _ | wrap _ | read _ | deref _ => 0

/-- What the runtime takes over. -/
def given : Instr C → C → Nat
  | give c => Pi.single c 1
  | _ => 0

def wrapped? : Instr C → Option C
  | wrap c => some c
  | _ => none

/-- The cell that the instruction spends a reference to. -/
def spent? : Instr C → Option C
  | drop c | give c => some c
  | _ => none

/-- The cell that the instruction looks at. -/
def used? : Instr C → Option C
  | dup c | read c | deref c | derefDup c => some c
  | _ => none

/-- The cell that the instruction reaches without a reference of its own. -/
def foreign? : Instr C → Option C
  | deref c | derefDup c => some c
  | _ => none

/-- No reference appears or vanishes: what is counted is given, wrapped or owned. -/
theorem counted_eq (i : Instr C) (c : C) :
    i.counted c = i.given c + (if i.wrapped? = some c then 1 else 0 : Nat) + i.delta c := by
  cases i with
  | acquire d | dup d | derefDup d => simp [counted, given, wrapped?, delta]
  | drop d | read d | deref d => simp [counted, given, wrapped?, delta]
  | give d =>
    by_cases h : d = c
    · simp [counted, given, wrapped?, delta, h]
    · simp [counted, given, wrapped?, delta, Ne.symm h]
  | wrap d =>
    by_cases h : d = c
    · simp [counted, given, wrapped?, delta, h]
    · simp [counted, given, wrapped?, delta, h, Ne.symm h]

/-- An allowed instruction does not overdraw. -/
theorem Allowed.nonneg {B : List C} {o : Amount C} (ho : 0 ≤ o) {i : Instr C}
    (h : i.Allowed B o) : 0 ≤ o + i.delta := by
  intro c
  have hc : 0 ≤ o c := ho c
  cases i with
  | acquire d | dup d | derefDup d =>
    have hone : 0 ≤ (Pi.single d 1 : Amount C) c := by
      rw [Pi.single_apply]
      split <;> decide
    exact add_nonneg hc hone
  | read d | deref d => exact add_nonneg hc le_rfl
  | drop d | give d | wrap d =>
    have hpos : 0 < o d := h
    show 0 ≤ o c + -(Pi.single d 1 : Amount C) c
    rw [Pi.single_apply]
    split
    · rename_i hcd
      rw [hcd]
      omega
    · omega

end Instr

variable [DecidableEq C]

/-! ## Codes -/

/-- What the code leaves over. -/
def net (code : Code C) : Amount C := (code.map Instr.delta).sum

@[simp] theorem net_nil : net ([] : Code C) = 0 := rfl

theorem net_cons (i : Instr C) (code : Code C) : net (i :: code) = i.delta + net code :=
  List.sum_cons

@[simp] theorem net_append (a b : Code C) : net (a ++ b) = net a + net b := by
  simp [net]

theorem net_flatMap {β : Type*} (f : β → Code C) (l : List β) :
    net (l.flatMap f) = (l.map fun x => net (f x)).sum := by
  induction l with
  | nil => rfl
  | cons x l ih => rw [List.flatMap_cons, net_append, ih, List.map_cons, List.sum_cons]

/-- Started with `o`, and with the cells of `B` lent, the code spends and uses only what it has. -/
def Solvent (B : List C) : Amount C → Code C → Prop
  | _, [] => True
  | o, i :: code => i.Allowed B o ∧ Solvent B (o + i.delta) code

@[simp] theorem solvent_nil (B : List C) (o : Amount C) : Solvent B o [] := trivial

theorem solvent_append {B : List C} {o : Amount C} {a b : Code C} :
    Solvent B o (a ++ b) ↔ Solvent B o a ∧ Solvent B (o + net a) b := by
  induction a generalizing o with
  | nil => simp [Solvent]
  | cons i a ih =>
    show i.Allowed B o ∧ Solvent B (o + i.delta) (a ++ b) ↔
      (i.Allowed B o ∧ Solvent B (o + i.delta) a) ∧ Solvent B (o + net (i :: a)) b
    rw [ih, net_cons, ← add_assoc, and_assoc]

theorem solvent_mono {B : List C} {o o' : Amount C} {code : Code C} (hle : o ≤ o')
    (h : Solvent B o code) : Solvent B o' code := by
  induction code generalizing o o' with
  | nil => trivial
  | cons i code ih =>
    have hdelta : o + i.delta ≤ o' + i.delta := fun c => add_le_add (hle c) le_rfl
    exact ⟨h.1.mono hle, ih hdelta h.2⟩

/-- A loop whose body loses nothing is solvent if its body is. -/
theorem solvent_flatMap {β : Type*} {B : List C} {o : Amount C} {f : β → Code C} {l : List β}
    (hnet : ∀ x ∈ l, 0 ≤ net (f x)) (h : ∀ x ∈ l, Solvent B o (f x)) :
    Solvent B o (l.flatMap f) := by
  induction l with
  | nil => trivial
  | cons x l ih =>
    rw [List.flatMap_cons, solvent_append]
    have hrest : Solvent B o (l.flatMap f) := ih (fun y hy => hnet y (List.mem_cons_of_mem x hy))
      fun y hy => h y (List.mem_cons_of_mem x hy)
    exact ⟨h x List.mem_cons_self, solvent_mono (le_add_of_nonneg_right (hnet x List.mem_cons_self)) hrest⟩

/-- An entry's code, and the cells that its caller lends it. -/
structure Program (C : Type*) where
  borrowed : List C
  code : Code C

/-! ## References that may be absent -/

/-- The instruction on the cell of a reference, if there is one. -/
def each (f : C → Instr C) (r : Option C) : Code C := r.toList.map f

def amount (r : Option C) : Amount C := r.elim 0 (Pi.single · 1)

@[simp] theorem amount_none : amount (none : Option C) = 0 := rfl

theorem amount_nonneg (r : Option C) : 0 ≤ amount r := by
  cases r with
  | none => exact le_rfl
  | some c =>
    intro d
    show 0 ≤ (Pi.single c 1 : Amount C) d
    rw [Pi.single_apply]
    split <;> decide

theorem amount_le_zero_iff {r : Option C} : amount r ≤ 0 ↔ r = none := by
  cases r with
  | none => exact ⟨fun _ => rfl, fun _ => le_rfl⟩
  | some c =>
    refine ⟨fun h => ?_, fun h => by cases h⟩
    have hc : (Pi.single c 1 : Amount C) c ≤ 0 := h c
    rw [Pi.single_eq_same] at hc
    omega

theorem pos_of_amount_le {r : Option C} {o : Amount C} (h : amount r ≤ o) : ∀ c ∈ r, 0 < o c := by
  rintro c rfl
  have hc : (Pi.single c 1 : Amount C) c ≤ o c := h c
  rw [Pi.single_eq_same] at hc
  omega

theorem amount_le_amount_iff {r r' : Option C} : amount r ≤ amount r' ↔ r = none ∨ r = r' := by
  constructor
  · intro h
    cases r with
    | none => exact Or.inl rfl
    | some c =>
      have hc : 1 ≤ amount r' c := pos_of_amount_le h c rfl
      cases r' with
      | none => cases hc
      | some d =>
        have hd : 1 ≤ (Pi.single d 1 : Amount C) c := hc
        rw [Pi.single_apply] at hd
        split at hd
        · rename_i hcd
          exact Or.inr (congrArg some hcd)
        · exact absurd hd (by decide)
  · rintro (rfl | rfl)
    · exact amount_nonneg r'
    · exact le_rfl

section each

variable {B : List C} {o : Amount C} (r : Option C)

@[simp] theorem net_each_acquire : net (each .acquire r) = amount r := by
  cases r <;> simp [each, net, amount, Instr.delta]

@[simp] theorem net_each_dup : net (each .dup r) = amount r := by
  cases r <;> simp [each, net, amount, Instr.delta]

@[simp] theorem net_each_derefDup : net (each .derefDup r) = amount r := by
  cases r <;> simp [each, net, amount, Instr.delta]

@[simp] theorem net_each_drop : net (each .drop r) = -amount r := by
  cases r <;> simp [each, net, amount, Instr.delta]

@[simp] theorem net_each_give : net (each .give r) = -amount r := by
  cases r <;> simp [each, net, amount, Instr.delta]

@[simp] theorem net_each_wrap : net (each .wrap r) = -amount r := by
  cases r <;> simp [each, net, amount, Instr.delta]

@[simp] theorem net_each_read : net (each .read r) = 0 := by
  cases r <;> simp [each, net, Instr.delta]

@[simp] theorem net_each_deref : net (each .deref r) = 0 := by
  cases r <;> simp [each, net, Instr.delta]

theorem solvent_each {f : C → Instr C} (h : ∀ c ∈ r, (f c).Allowed B o) : Solvent B o (each f r) := by
  cases r with
  | none => trivial
  | some c => exact ⟨h c rfl, trivial⟩

@[simp] theorem solvent_acquire : Solvent B o (each .acquire r) := solvent_each r fun _ _ => trivial

@[simp] theorem solvent_deref : Solvent B o (each .deref r) := solvent_each r fun _ _ => trivial

@[simp] theorem solvent_derefDup : Solvent B o (each .derefDup r) := solvent_each r fun _ _ => trivial

variable {r}

theorem solvent_drop (h : amount r ≤ o) : Solvent B o (each .drop r) :=
  solvent_each r (pos_of_amount_le h)

theorem solvent_give (h : amount r ≤ o) : Solvent B o (each .give r) :=
  solvent_each r (pos_of_amount_le h)

theorem solvent_wrap (h : amount r ≤ o) : Solvent B o (each .wrap r) :=
  solvent_each r (pos_of_amount_le h)

theorem solvent_read (h : amount r ≤ o) : Solvent B o (each .read r) :=
  solvent_each r fun c hc => Or.inl (pos_of_amount_le h c hc)

theorem solvent_read_borrowed (h : ∀ c ∈ r, c ∈ B) : Solvent B o (each .read r) :=
  solvent_each r fun c hc => Or.inr (h c hc)

theorem solvent_dup_borrowed (h : ∀ c ∈ r, c ∈ B) : Solvent B o (each .dup r) :=
  solvent_each r fun c hc => Or.inr (h c hc)

end each

/-! ## Several references -/

def amounts (rs : List (Option C)) : Amount C := (rs.map amount).sum

theorem amounts_nonneg (rs : List (Option C)) : 0 ≤ amounts rs := by
  refine List.sum_nonneg fun o ho => ?_
  obtain ⟨r, _, rfl⟩ := List.mem_map.mp ho
  exact amount_nonneg r

theorem amount_le_amounts {r : Option C} {rs : List (Option C)} (h : r ∈ rs) :
    amount r ≤ amounts rs := by
  induction rs with
  | nil => cases h
  | cons r' rs ih =>
    show amount r ≤ amount r' + amounts rs
    rcases List.mem_cons.mp h with rfl | h
    · exact le_add_of_nonneg_right (amounts_nonneg rs)
    · exact (ih h).trans (le_add_of_nonneg_left (amount_nonneg r'))

theorem amounts_le_zero_iff {rs : List (Option C)} : amounts rs ≤ 0 ↔ ∀ r ∈ rs, r = none := by
  constructor
  · intro h r hr
    exact amount_le_zero_iff.mp ((amount_le_amounts hr).trans h)
  · intro h
    refine (List.sum_le_card_nsmul _ 0 fun o ho => ?_).trans_eq (nsmul_zero _)
    obtain ⟨r, hr, rfl⟩ := List.mem_map.mp ho
    exact amount_le_zero_iff.mpr (h r hr)

@[simp] theorem net_flatMap_read (rs : List (Option C)) : net (rs.flatMap (each .read)) = 0 := by
  rw [net_flatMap]
  simp

theorem solvent_flatMap_read {B : List C} {o : Amount C} {rs : List (Option C)} (h : amounts rs ≤ o) :
    Solvent B o (rs.flatMap (each .read)) := by
  refine solvent_flatMap (fun r _ => ?_) fun r hr => solvent_read ((amount_le_amounts hr).trans h)
  rw [net_each_read]

@[simp] theorem net_flatMap_drop (rs : List (Option C)) :
    net (rs.flatMap (each .drop)) = -amounts rs := by
  induction rs with
  | nil => rfl
  | cons r rs ih =>
    rw [List.flatMap_cons, net_append, net_each_drop, ih, ← neg_add]
    rfl

theorem solvent_flatMap_drop {B : List C} {o : Amount C} {rs : List (Option C)} (h : amounts rs ≤ o) :
    Solvent B o (rs.flatMap (each .drop)) := by
  induction rs generalizing o with
  | nil => trivial
  | cons r rs ih =>
    have hsplit : amount r + amounts rs ≤ o := h
    rw [List.flatMap_cons, solvent_append, net_each_drop, ← sub_eq_add_neg]
    exact ⟨solvent_drop ((le_add_of_nonneg_right (amounts_nonneg rs)).trans hsplit),
      ih (le_sub_iff_add_le'.mpr hsplit)⟩

omit [DecidableEq C] in
/-- Two amounts are nothing together iff each is. -/
theorem add_le_zero_iff {o o' : Amount C} (ho : 0 ≤ o) (ho' : 0 ≤ o') :
    o + o' ≤ 0 ↔ o ≤ 0 ∧ o' ≤ 0 :=
  ⟨fun h => ⟨(le_add_of_nonneg_right ho').trans h, (le_add_of_nonneg_left ho).trans h⟩,
    fun h => add_nonpos h.1 h.2⟩

end Ownership
