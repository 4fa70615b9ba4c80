import QuickJSBridge.Java.CanonicalNames

/-!
# Names that are resolved at all

`convertModuleName` reads the first character of a name, takes the last segment off the base for each leading
`..`, and deletes the last character of what it has built. None of the three is guarded by a test of its own.

* `Resolvable` — something is left of the name, and the base has the segments it climbs over;
* `Leaves` — something is left of both, for the last character to be deleted from;
* `returns_iff_resolvable` — the method returns for exactly these names.
-/

namespace QuickJSBridge.ModuleNames

/-! ## The condition -/

/-- The `StringBuilder` is not empty: it has the slash of an absolute base, a segment of the name, or a segment
of the base that is neither its last nor climbed over. -/
def Leaves (base name : Text) : Prop :=
  base.head? = some slash ∨ afterUps (split name) ≠ [] ∨
    leadingUps (split name) + 1 < (split base).length

instance (base name : Text) : Decidable (Leaves base name) := inferInstanceAs (Decidable (_ ∨ _ ∨ _))

/-- The name is null or empty; or something is left of it when a leading `./` is gone, and then it is absolute,
or the base is null, empty or a directory, or it climbs over no more segments than the base has and something
is left. -/
def Resolvable (base name : Option Text) : Prop :=
  name.getD [] = [] ∨
    read (name.getD []) ≠ [] ∧
      (Returned base (name.getD []) ∨ Directory base ∨
        leadingUps (split (read (name.getD []))) ≤ (split (read (base.getD []))).length ∧
          Leaves (read (base.getD [])) (read (name.getD [])))

instance (base name : Option Text) : Decidable (Resolvable base name) :=
  inferInstanceAs (Decidable (_ ∨ _ ∧ (_ ∨ _ ∨ _ ∧ _)))

/-- `convertModuleName` does not throw. -/
def Returns (base name : Option Text) : Prop := ∃ r, convertModuleName base name = .ok r

/-! ## Pieces -/

theorem kept_eq_nil_iff (base : Text) (ups : Nat) : kept base ups = [] ↔ (split base).length ≤ ups + 1 := by
  unfold kept
  rw [List.take_eq_nil_iff]
  constructor
  · rintro (hlen | hnil)
    · omega
    · rw [hnil]
      exact Nat.zero_le _
  · intro hle
    apply Or.inl
    omega

theorem pieces_file_ne_nil_iff {base : Option Text} {name : Text} (hret : ¬ Returned base name)
    (hdir : ¬ Directory base) :
    pieces base name ≠ [] ↔ Leaves (read (base.getD [])) (read name) := by
  rw [pieces, if_neg hret, if_neg hdir, Ne, List.append_eq_nil_iff, List.append_eq_nil_iff, kept_eq_nil_iff]
  unfold Leaves
  by_cases habs : (read (base.getD [])).head? = some slash
  · simp [habs]
  · rw [if_neg habs, eq_self, true_and, not_and_or, Nat.not_le, or_iff_right habs, or_comm]

theorem pieces_ne_nil {base : Option Text} {name : Text} (h : Returned base name ∨ Directory base) :
    pieces base name ≠ [] := by
  unfold pieces
  by_cases hret : Returned base name
  · rw [if_pos hret]
    exact segments_ne_nil _
  · rw [if_neg hret, if_pos (h.resolve_left hret)]
    exact List.append_ne_nil_of_right_ne_nil _ (segments_ne_nil _)

/-! ## Which names are resolved -/

theorem returns_iff_pieces {base : Option Text} {name : Text} (hne : name ≠ []) :
    Returns base (some name) ↔ ¬ Stuck base name ∧ pieces base name ≠ [] := by
  constructor
  · rintro ⟨r, hr⟩
    rw [← not_or]
    intro hbad
    obtain ⟨e, he⟩ := convertModuleName_error hne hbad
    rw [he] at hr
    cases hr
  · rintro ⟨hstuck, hpieces⟩
    exact ⟨_, convertModuleName_of_not_stuck hne hstuck hpieces⟩

theorem not_stuck_iff {base : Option Text} {name : Text} :
    ¬ Stuck base name ∧ pieces base name ≠ [] ↔
      read name ≠ [] ∧
        (Returned base name ∨ Directory base ∨
          leadingUps (split (read name)) ≤ (split (read (base.getD []))).length ∧
            Leaves (read (base.getD [])) (read name)) := by
  unfold Stuck
  by_cases hret : Returned base name
  · simp [hret, pieces_ne_nil (Or.inl hret)]
  · by_cases hdir : Directory base
    · simp [hdir, pieces_ne_nil (Or.inr hdir)]
    · rw [pieces_file_ne_nil_iff hret hdir]
      simp [hret, hdir, and_assoc]

/-- **Returning.** `convertModuleName` returns iff the name is resolvable against the base. -/
theorem returns_iff_resolvable (base name : Option Text) : Returns base name ↔ Resolvable base name := by
  match name with
  | none => exact iff_of_true ⟨none, rfl⟩ (Or.inl rfl)
  | some [] => exact iff_of_true ⟨some [], rfl⟩ (Or.inl rfl)
  | some (c :: cs) =>
    have hne : c :: cs ≠ [] := List.cons_ne_nil c cs
    rw [returns_iff_pieces hne, not_stuck_iff]
    exact (or_iff_right hne).symm

/-- Nothing is left of the name `./`, and `charAt(0)` throws. -/
theorem not_returns_current :
    ¬ ∀ base name : Option Text, Returns base name := by
  intro hall
  obtain ⟨r, hr⟩ := hall none (some (text ['.', '/']))
  have hthrows : convertModuleName none (some (text ['.', '/'])) = .error .stringIndexOutOfBounds := by decide
  rw [hthrows] at hr
  cases hr

-- `deleteCharAt` of an empty builder, and `remove` from an empty list
example : convertModuleName (some (text ['f'])) (some (text ['.', '.'])) = .error .stringIndexOutOfBounds ∧
    convertModuleName (some (text ['f'])) (some (text ['.', '.', '/', '.', '.'])) =
      .error .arrayIndexOutOfBounds := by decide

end QuickJSBridge.ModuleNames
