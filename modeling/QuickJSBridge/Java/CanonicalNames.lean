import QuickJSBridge.Java.ModulePaths
import QuickJSBridge.Lib.Paths

/-!
# Canonical module names

The cache of `CommonJSModule` and QuickJS's list of loaded modules identify a module by the string that
`convertModuleName` returns, so every spelling of a path should give one string.

* `Canonical` — no empty segment, no `.` and no `..` except at the front of a relative path;
* `SamePath` — two names are equal once `.`, double slashes and `x/..` are removed;
* `pieces` — the segments of the result, in terms of the segments of base and name;
* `canonical_iff_clean` — a result is canonical iff these segments are;
* `identifies_iff_clean` — two results are canonical, and equal for names of one path, iff both names are
  clean and either both or none of them is taken for an absolute path by mistake.
-/

namespace QuickJSBridge.ModuleNames

open Paths

/-! ## Canonical texts and equal paths -/

/-- Segments of an absolute path without `.`, `..` and empty ones after the first, or of a relative path
whose only `..` are at its front. -/
def CanonicalSegments (segs : List Text) : Prop :=
  segs.head? = some [] ∧ segs.tail ≠ [] ∧ (∀ s ∈ segs.tail, Ordinary s) ∨
    segs.head? ≠ some [] ∧ ∀ s ∈ afterUps segs, Ordinary s

instance (segs : List Text) : Decidable (CanonicalSegments segs) :=
  inferInstanceAs (Decidable (_ ∨ _))

def Canonical (r : Text) : Prop := CanonicalSegments (segments r)

instance (r : Text) : Decidable (Canonical r) := inferInstanceAs (Decidable (CanonicalSegments _))

/-- The move that a segment stands for; the empty segment and `.` stand for none. -/
def move (s : Text) : Option (Move Text) :=
  if s = [] ∨ s = [dot] then none
  else if s = parentSegment then some .up
  else some (.down s)

def moves (segs : List Text) : List (Move Text) := segs.filterMap move

def path (segs : List Text) : Reduced Text := reduce (moves segs)

/-- The names are equal after removing `.`, double slashes and `x/..`. -/
def SamePath (name other : Text) : Prop :=
  (name.head? = some slash ↔ other.head? = some slash) ∧ path (segments name) = path (segments other)

instance (name other : Text) : Decidable (SamePath name other) := inferInstanceAs (Decidable (_ ∧ _))

example : SamePath (text ['a', '/', '.', '.', '/', 'b']) (text ['.', '/', '/', 'b']) := by decide

/-- A name after the two statements that both names go through. -/
def read (name : Text) : Text := stripCurrent (replaceSlashes name)

/-! ## What the segments of the result are -/

/-- The name is returned as it was read. -/
def Returned (base : Option Text) (name : Text) : Prop :=
  (read name).head? = some slash ∨ base = none ∨ base = some []

instance (base : Option Text) (name : Text) : Decidable (Returned base name) :=
  inferInstanceAs (Decidable (_ ∨ _ ∨ _))

/-- The base is a directory: it ends with a slash. -/
def Directory (base : Option Text) : Prop := (read (base.getD [])).getLast? = some slash

instance (base : Option Text) : Decidable (Directory base) := inferInstanceAs (Decidable (_ = _))

/-- The segments of the base and of the name that the result consists of. -/
def pieces (base : Option Text) (name : Text) : List Text :=
  if Returned base name then segments (read name)
  else if Directory base then (segments (read (base.getD []))).dropLast ++ segments (read name)
  else
    (if (read (base.getD [])).head? = some slash then [[]] else []) ++
      (kept (read (base.getD [])) (leadingUps (split (read name))) ++ afterUps (split (read name)))

/-- There is nothing left of the name, or it climbs further than the base has segments. -/
def Stuck (base : Option Text) (name : Text) : Prop :=
  read name = [] ∨
    ¬ Returned base name ∧ ¬ Directory base ∧
      (split (read (base.getD []))).length < leadingUps (split (read name))

instance (base : Option Text) (name : Text) : Decidable (Stuck base name) :=
  inferInstanceAs (Decidable (_ ∨ _))

/-- The result has canonical segments, if there is one. -/
def Clean (base : Option Text) (name : Text) : Prop :=
  name ≠ [] ∧ (Stuck base name ∨ CanonicalSegments (pieces base name))

instance (base : Option Text) (name : Text) : Decidable (Clean base name) :=
  inferInstanceAs (Decidable (_ ∧ _))

/-! ## Moves -/

theorem moves_append (a b : List Text) : moves (a ++ b) = moves a ++ moves b :=
  List.filterMap_append

theorem move_ordinary {s : Text} (h : Ordinary s) : move s = some (.down s) := by
  obtain ⟨hempty, _, hdot, hparent⟩ := h
  rw [move, if_neg (not_or.mpr ⟨hempty, hdot⟩), if_neg hparent]

theorem moves_ordinary {segs : List Text} (h : ∀ s ∈ segs, Ordinary s) : moves segs = segs.map .down := by
  induction segs with
  | nil => rfl
  | cons s segs ih =>
    show List.filterMap move (s :: segs) = _
    rw [List.filterMap_cons, move_ordinary (h s List.mem_cons_self)]
    exact congrArg (Move.down s :: ·) (ih fun t ht => h t (List.mem_cons_of_mem s ht))

theorem moves_ups (u : Nat) : moves (List.replicate u parentSegment) = List.replicate u .up :=
  List.filterMap_replicate_of_some rfl

/-- Leading `..` and names are reduced as they are. -/
theorem path_nameWord (u : Nat) {names : List Text} (h : ∀ s ∈ names, Ordinary s) :
    path (List.replicate u parentSegment ++ names) = ⟨u, names⟩ := by
  unfold path
  rw [moves_append, moves_ups, moves_ordinary h]
  exact reduce_word ⟨u, names⟩

theorem ups_append_afterUps (segs : List Text) :
    List.replicate (leadingUps segs) parentSegment ++ afterUps segs = segs := by
  have hups : segs.takeWhile (· = parentSegment) = List.replicate (leadingUps segs) parentSegment := by
    apply List.eq_replicate_of_mem
    intro s hs
    simpa using List.mem_takeWhile_imp hs
  rw [← hups]
  exact List.takeWhile_append_dropWhile

theorem path_of_afterUps {segs : List Text} (h : ∀ s ∈ afterUps segs, Ordinary s) :
    path segs = ⟨leadingUps segs, afterUps segs⟩ := by
  rw [← path_nameWord (leadingUps segs) h, ups_append_afterUps]

/-- `x/..` may be left out. -/
theorem path_cancel (a b : List Text) {s : Text} (h : Ordinary s) :
    path (a ++ s :: parentSegment :: b) = path (a ++ b) := by
  have hmoves : moves (s :: parentSegment :: b) = .down s :: .up :: moves b := by
    show List.filterMap move (s :: parentSegment :: b) = _
    rw [List.filterMap_cons, move_ordinary h]
    rfl
  unfold path
  rw [moves_append, moves_append, hmoves, reduce_cancel]

/-! ## Reading a name keeps its path -/

/-- `replace` leaves the first segment and takes empty ones out after it. -/
theorem segments_replaceSlashes (s : Text) :
    ∃ a t t', segments s = a :: t ∧ segments (replaceSlashes s) = a :: t' ∧ moves t' = moves t := by
  induction s using replaceSlashes.induct with
  | case1 => exact ⟨[], [], [], rfl, rfl, rfl⟩
  | case2 c =>
    obtain ⟨a, t, hseg⟩ := List.exists_cons_of_ne_nil (segments_ne_nil [c])
    exact ⟨a, t, t, hseg, hseg, rfl⟩
  | case3 c d rest hcd ih =>
    obtain ⟨a, t, t', hs, hr, hm⟩ := ih
    refine ⟨[], [] :: a :: t, a :: t', ?_, ?_, ?_⟩
    · rw [hcd.1, hcd.2, segments_slash_cons, segments_slash_cons, hs]
    · rw [replaceSlashes, if_pos hcd, segments_slash_cons, hr]
    · show moves ([a] ++ t') = moves ([] :: [a] ++ t)
      rw [moves_append, moves_append, hm]
      rfl
  | case4 c d rest hcd ih =>
    obtain ⟨a, t, t', hs, hr, hm⟩ := ih
    rw [replaceSlashes, if_neg hcd]
    by_cases hc : c = slash
    · refine ⟨[], a :: t, a :: t', ?_, ?_, ?_⟩
      · rw [hc, segments_slash_cons, hs]
      · rw [hc, segments_slash_cons, hr]
      · show moves ([a] ++ t') = moves ([a] ++ t)
        rw [moves_append, moves_append, hm]
    · refine ⟨c :: a, t, t', ?_, ?_, hm⟩
      · rw [segments_cons_of_ne hc, hs]
        rfl
      · rw [segments_cons_of_ne hc, hr]
        rfl

theorem moves_replaceSlashes (s : Text) : moves (segments (replaceSlashes s)) = moves (segments s) := by
  obtain ⟨a, t, t', hs, hr, hm⟩ := segments_replaceSlashes s
  rw [hs, hr]
  show moves ([a] ++ t') = moves ([a] ++ t)
  rw [moves_append, moves_append, hm]

theorem moves_stripCurrent (s : Text) : moves (segments (stripCurrent s)) = moves (segments s) := by
  rcases segments_stripCurrent s with hsame | hsegs
  · rw [hsame]
  · exact (congrArg moves hsegs).symm

theorem path_read (name : Text) : path (segments (read name)) = path (segments name) :=
  congrArg reduce ((moves_stripCurrent _).trans (moves_replaceSlashes name))

/-- `split` drops empty segments only. -/
theorem path_split (s : Text) : path (split s) = path (segments s) := by
  unfold split
  split
  · have hempty : moves ((segments s).rtakeWhile List.isEmpty) = [] := by
      apply List.filterMap_eq_nil_iff.mpr
      intro a ha
      have hnil : a = [] := List.isEmpty_iff.mp (List.mem_rtakeWhile_imp ha)
      rw [hnil]
      rfl
    unfold path
    conv_rhs => rw [← List.rdropWhile_append_rtakeWhile (p := List.isEmpty) (l := segments s)]
    rw [moves_append, hempty, List.append_nil]
  · rename_i hslash
    rw [segments_of_slash_notMem hslash]

/-! ## The result, if there is one -/

theorem slash_notMem_of_mem_split {s a : Text} (ha : a ∈ split s) : slash ∉ a := by
  unfold split at ha
  split at ha
  · exact slash_notMem_of_mem_segments ((List.rdropWhile_prefix _ _).subset ha)
  · rename_i hslash
    rw [List.mem_singleton.mp ha]
    exact hslash

theorem slash_notMem_of_mem_pieces {base : Option Text} {name a : Text} (ha : a ∈ pieces base name) :
    slash ∉ a := by
  unfold pieces at ha
  split at ha
  · exact slash_notMem_of_mem_segments ha
  · split at ha
    · rcases List.mem_append.mp ha with ha | ha
      · exact slash_notMem_of_mem_segments (List.dropLast_subset _ ha)
      · exact slash_notMem_of_mem_segments ha
    · rcases List.mem_append.mp ha with ha | ha
      · split at ha
        · rw [List.mem_singleton.mp ha]
          exact List.not_mem_nil
        · cases ha
      · rcases List.mem_append.mp ha with ha | ha
        · exact slash_notMem_of_mem_split (List.mem_of_mem_take ha)
        · exact slash_notMem_of_mem_split ((List.dropWhile_suffix _).subset ha)

theorem segments_join_pieces {base : Option Text} {name : Text} (hne : pieces base name ≠ []) :
    segments (join (pieces base name)) = pieces base name :=
  segments_join (fun _ ha => slash_notMem_of_mem_pieces ha) hne

/-- A base that ends with a slash goes before the name as it is. -/
theorem join_directory {b : Text} (h : b.getLast? = some slash) (n : Text) :
    join ((segments b).dropLast ++ segments n) = b ++ n := by
  obtain ⟨t, rfl⟩ := List.getLast?_eq_some_iff.mp h
  have hb : segments (t ++ [slash]) = segments t ++ [[]] := segments_append t []
  rw [hb, List.dropLast_concat, ← segments_append, join_segments, List.append_assoc]
  rfl

theorem convertRelative_directory {b : Text} (h : (read b).getLast? = some slash) (n : Text) :
    convertRelative b n = .ok (join ((segments (read b)).dropLast ++ segments n)) := by
  rw [join_directory h]
  show (if read b = [slash] then _ else if (read b).getLast? = some slash then _ else _) = _
  by_cases hroot : read b = [slash]
  · rw [if_pos hroot, hroot]
    rfl
  · rw [if_neg hroot, if_pos h]
    rfl

theorem convertRelative_file {b : Text} (h : (read b).getLast? ≠ some slash) (n : Text) :
    convertRelative b n = resolve (read b) n := by
  have hroot : read b ≠ [slash] := by
    intro hb
    exact h (by rw [hb]; rfl)
  show (if read b = [slash] then _ else if (read b).getLast? = some slash then _ else _) = _
  rw [if_neg hroot, if_neg h]
  rfl

theorem convertModuleName_of_returned {base : Option Text} {name : Text} (hne : name ≠ [])
    (hread : read name ≠ []) (h : Returned base name) :
    convertModuleName base (some name) = .ok (some (read name)) := by
  rw [convertModuleName_some base hne]
  show (if read name = [] then _ else _) = _
  rw [if_neg hread]
  exact if_pos h

theorem convertModuleName_of_not_returned {base : Option Text} {name : Text} (hne : name ≠ [])
    (hread : read name ≠ []) (h : ¬ Returned base name) :
    convertModuleName base (some name) = (convertRelative (base.getD []) (read name)).map some := by
  rw [convertModuleName_some base hne]
  show (if read name = [] then _ else _) = _
  rw [if_neg hread]
  exact if_neg h

/-- What `resolve` gives where the loop does not run out of the base. -/
theorem resolve_eq_join {b n : Text} (hups : leadingUps (split n) ≤ (split b).length)
    (hne : (if b.head? = some slash then [[]] else []) ++
      (kept b (leadingUps (split n)) ++ afterUps (split n)) ≠ []) :
    resolve b n = .ok (join ((if b.head? = some slash then [[]] else []) ++
      (kept b (leadingUps (split n)) ++ afterUps (split n)))) := by
  rw [resolve_eq, if_pos hups]
  by_cases hempty : kept b (leadingUps (split n)) ++ afterUps (split n) = []
  · by_cases habs : b.head? = some slash
    · obtain ⟨hk, ha⟩ := List.append_eq_nil_iff.mp hempty
      rw [hk, ha, if_pos habs, decide_eq_true habs]
      rfl
    · rw [if_neg habs, hempty] at hne
      exact absurd rfl hne
  · rw [deleteLast_build _ hempty]
    by_cases habs : b.head? = some slash
    · rw [if_pos habs, decide_eq_true habs, List.singleton_append, join_empty_cons hempty]
      rfl
    · rw [if_neg habs, decide_eq_false habs]
      rfl

theorem resolve_error {b n : Text}
    (h : (split b).length < leadingUps (split n) ∨
      (if b.head? = some slash then [[]] else []) ++
        (kept b (leadingUps (split n)) ++ afterUps (split n)) = []) :
    ∃ e, resolve b n = .error e := by
  rw [resolve_eq]
  by_cases hups : leadingUps (split n) ≤ (split b).length
  · rcases h with h | h
    · omega
    · rw [if_pos hups]
      obtain ⟨habs, hempty⟩ := List.append_eq_nil_iff.mp h
      obtain ⟨hk, ha⟩ := List.append_eq_nil_iff.mp hempty
      by_cases hb : b.head? = some slash
      · rw [if_pos hb] at habs
        cases habs
      · rw [hk, ha, decide_eq_false hb]
        exact ⟨_, rfl⟩
  · rw [if_neg hups]
    exact ⟨_, rfl⟩

theorem convertModuleName_of_not_stuck {base : Option Text} {name : Text} (hne : name ≠ [])
    (hstuck : ¬ Stuck base name) (hpieces : pieces base name ≠ []) :
    convertModuleName base (some name) = .ok (some (join (pieces base name))) := by
  obtain ⟨hread, hups⟩ := not_or.mp hstuck
  by_cases hret : Returned base name
  · rw [convertModuleName_of_returned hne hread hret, pieces, if_pos hret, join_segments]
  · rw [convertModuleName_of_not_returned hne hread hret]
    by_cases hdir : Directory base
    · rw [convertRelative_directory hdir, pieces, if_neg hret, if_pos hdir]
      rfl
    · have hle : leadingUps (split (read name)) ≤ (split (read (base.getD []))).length :=
        Nat.le_of_not_lt fun h => hups ⟨hret, hdir, h⟩
      rw [pieces, if_neg hret, if_neg hdir] at hpieces ⊢
      rw [convertRelative_file hdir, resolve_eq_join hle hpieces]
      rfl

theorem convertModuleName_error {base : Option Text} {name : Text} (hne : name ≠ [])
    (h : Stuck base name ∨ pieces base name = []) :
    ∃ e, convertModuleName base (some name) = .error e := by
  by_cases hread : read name = []
  · rw [convertModuleName_some base hne]
    exact ⟨_, if_pos hread⟩
  · by_cases hret : Returned base name
    · exfalso
      rcases h with (h | h) | h
      · exact hread h
      · exact h.1 hret
      · rw [pieces, if_pos hret] at h
        exact segments_ne_nil _ h
    · rw [convertModuleName_of_not_returned hne hread hret]
      by_cases hdir : Directory base
      · exfalso
        rcases h with (h | h) | h
        · exact hread h
        · exact h.2.1 hdir
        · rw [pieces, if_neg hret, if_pos hdir] at h
          exact segments_ne_nil _ (List.append_eq_nil_iff.mp h).2
      · have hres : ∃ e, resolve (read (base.getD [])) (read name) = .error e := by
          apply resolve_error
          rcases h with (h | h) | h
          · exact absurd h hread
          · exact Or.inl h.2.2
          · rw [pieces, if_neg hret, if_neg hdir] at h
            exact Or.inr h
        obtain ⟨e, he⟩ := hres
        rw [convertRelative_file hdir, he]
        exact ⟨e, rfl⟩

/-- A result is the text of the pieces. -/
theorem eq_join_pieces {base : Option Text} {name r : Text} (hne : name ≠ [])
    (h : convertModuleName base (some name) = .ok (some r)) :
    ¬ Stuck base name ∧ r = join (pieces base name) ∧ segments r = pieces base name := by
  have hnot : ¬ (Stuck base name ∨ pieces base name = []) := by
    intro hbad
    obtain ⟨e, he⟩ := convertModuleName_error hne hbad
    rw [he] at h
    cases h
  obtain ⟨hstuck, hpieces⟩ := not_or.mp hnot
  rw [convertModuleName_of_not_stuck hne hstuck hpieces] at h
  have hr : r = join (pieces base name) := (Option.some.inj (Except.ok.inj h)).symm
  exact ⟨hstuck, hr, by rw [hr, segments_join_pieces hpieces]⟩

/-! ## Canonical results -/

theorem ne_nil_of_canonical {segs : List Text} (h : CanonicalSegments segs) : ∀ s ∈ segs.tail, s ≠ [] := by
  intro s hs
  rcases h with ⟨_, _, hall⟩ | ⟨_, hall⟩
  · exact (hall s hs).1
  · have hmem := List.mem_of_mem_tail hs
    rw [← ups_append_afterUps segs] at hmem
    rcases List.mem_append.mp hmem with hmem | hmem
    · rw [List.eq_of_mem_replicate hmem]
      decide
    · exact (hall s hmem).1

theorem head?_ne_dot_of_canonical {segs : List Text} (h : CanonicalSegments segs) :
    segs.head? ≠ some [dot] := by
  intro hhead
  rcases h with ⟨hempty, _⟩ | ⟨_, hall⟩
  · rw [hempty] at hhead
    cases hhead
  · have hmem := List.mem_of_head? hhead
    rw [← ups_append_afterUps segs] at hmem
    rcases List.mem_append.mp hmem with hmem | hmem
    · exact absurd (List.eq_of_mem_replicate hmem) (by decide)
    · exact (hall _ hmem).2.2.1 rfl

/-- A canonical name is its own result without a base. -/
theorem convertModuleName_null_of_canonical {r : Text} (h : Canonical r) :
    convertModuleName none (some r) = .ok (some r) := by
  have hne : r ≠ [] := by
    rintro rfl
    revert h
    decide
  have hread : read r = r := by
    unfold read
    rw [replaceSlashes_of_tail (ne_nil_of_canonical h), stripCurrent_of_head (head?_ne_dot_of_canonical h)]
  rw [convertModuleName_of_returned hne (by rw [hread]; exact hne) (Or.inr (Or.inl rfl)), hread]

/-- Whatever `name` gives is canonical and its own result without a base. -/
def GivesCanonical (base : Option Text) (name : Text) : Prop :=
  ∀ r, convertModuleName base (some name) = .ok (some r) →
    Canonical r ∧ convertModuleName none (some r) = .ok (some r)

theorem canonical_iff_clean (base : Option Text) (name : Text) :
    GivesCanonical base name ↔ Clean base name := by
  constructor
  · intro hgives
    have hne : name ≠ [] := by
      rintro rfl
      have hcanonical := (hgives [] rfl).1
      revert hcanonical
      decide
    refine ⟨hne, ?_⟩
    by_cases hstuck : Stuck base name
    · exact Or.inl hstuck
    · apply Or.inr
      by_cases hpieces : pieces base name = []
      · rw [hpieces]
        decide
      · have hr := convertModuleName_of_not_stuck hne hstuck hpieces
        have hcanonical := (hgives _ hr).1
        unfold Canonical at hcanonical
        rw [segments_join_pieces hpieces] at hcanonical
        exact hcanonical
  · rintro ⟨hne, hclean⟩ r hr
    obtain ⟨hstuck, _, hsegs⟩ := eq_join_pieces hne hr
    have hcanonical : Canonical r := by
      unfold Canonical
      rw [hsegs]
      exact hclean.resolve_left hstuck
    exact ⟨hcanonical, convertModuleName_null_of_canonical hcanonical⟩

/-! ## Equal results for equal paths

A clean result depends on the path of the name only, but on one more bit: what follows the leading `..` of
the name as it was read may start with an empty segment, and is then taken for an absolute path. -/

/-- What follows the leading `..` starts with a slash. -/
def Rooted (name : Text) : Prop := (afterUps (split (read name))).head? = some []

instance (name : Text) : Decidable (Rooted name) := inferInstanceAs (Decidable (_ = _))

example : Rooted (text ['.', '/', '/', '/', 'x']) ∧ ¬ Rooted (text ['.', '/', '/', 'x']) := by decide

/-- The segments of a path that is as short as it can be. -/
def nameWord (p : Reduced Text) : List Text := List.replicate p.ups parentSegment ++ p.names

/-- The pieces of a clean name that is not rooted. -/
def unrootedPieces (base : Option Text) (p : Reduced Text) : List Text :=
  if base = none ∨ base = some [] then nameWord p
  else if Directory base then (segments (read (base.getD []))).dropLast ++ nameWord p
  else
    (if (read (base.getD [])).head? = some slash then [[]] else []) ++
      (kept (read (base.getD [])) p.ups ++ p.names)

theorem eq_nameWord {segs : List Text} (h : ∀ s ∈ afterUps segs, Ordinary s) : segs = nameWord (path segs) := by
  rw [path_of_afterUps h]
  exact (ups_append_afterUps segs).symm

theorem segments_head?_ne {s : Text} (hne : s ≠ []) (h : s.head? ≠ some slash) :
    (segments s).head? ≠ some [] := by
  cases s with
  | nil => exact absurd rfl hne
  | cons c rest =>
    have hc : c ≠ slash := fun hc => h (congrArg some hc)
    rw [segments_cons_of_ne hc]
    cases segments rest with
    | nil => exact fun hh => by cases hh
    | cons a t => exact fun hh => by cases hh

theorem afterUps_append (a b : List Text) :
    afterUps (a ++ b) = if (afterUps a).isEmpty then afterUps b else afterUps a ++ b :=
  List.dropWhile_append

theorem ordinary_of_canonical_append {a b : List Text} (h : CanonicalSegments (a ++ b))
    (hb : b.head? ≠ some []) : ∀ s ∈ afterUps b, Ordinary s := by
  intro s hs
  rcases h with ⟨hhead, _, hall⟩ | ⟨_, hall⟩
  · cases a with
    | nil => exact absurd hhead hb
    | cons a₀ a =>
      exact hall s (List.mem_append_right a ((List.dropWhile_suffix _).subset hs))
  · apply hall
    rw [afterUps_append]
    split
    · exact hs
    · exact List.mem_append_right _ ((List.dropWhile_suffix _).subset hs)

theorem afterUps_afterUps (segs : List Text) : afterUps (afterUps segs) = afterUps segs :=
  List.dropWhile_idempotent _ _

theorem path_empty_cons (segs : List Text) : path ([] :: segs) = path segs := rfl

theorem mem_split_rooted {name : Text} (h : Rooted name) : [] ∈ split (read name) :=
  (List.dropWhile_suffix _).subset (List.mem_of_head? h)

theorem split_prefix_segments (s : Text) : split s <+: segments s := by
  unfold split
  split
  · exact List.rdropWhile_prefix _ _
  · rename_i hslash
    exact (segments_of_slash_notMem hslash).symm ▸ List.prefix_rfl

theorem mem_tail_of_head?_ne {α : Type} {a : α} {l : List α} (h : a ∈ l) (hhead : l.head? ≠ some a) :
    a ∈ l.tail := by
  cases l with
  | nil => cases h
  | cons b t =>
    rcases List.mem_cons.mp h with rfl | h
    · exact absurd rfl hhead
    · exact h

theorem tail_append_subset {α : Type} (a b : List α) : b.tail ⊆ (a ++ b).tail := by
  cases a with
  | nil => exact List.Subset.refl _
  | cons c a => exact fun x hx => List.mem_append_right a (List.mem_of_mem_tail hx)

theorem segments_of_absolute {s : Text} (h : s.head? = some slash) : ∃ rest, segments s = [] :: rest := by
  cases s with
  | nil => cases h
  | cons c rest => exact ⟨segments rest, by rw [Option.some.inj h, segments_slash_cons]⟩

theorem path_append_empty (a b : List Text) : path (a ++ [] :: b) = path (a ++ b) := by
  unfold path
  rw [moves_append, moves_append]
  rfl

theorem ordinary_of_canonical_empty {rest : List Text} (h : CanonicalSegments ([] :: rest)) :
    rest ≠ [] ∧ ∀ s ∈ rest, Ordinary s := by
  rcases h with ⟨_, hne, hall⟩ | ⟨hhead, _⟩
  · exact ⟨hne, hall⟩
  · exact absurd rfl hhead

/-- In the loop's branch a clean rooted name has used up the directories of a relative base. -/
theorem pieces_of_rooted_file {base : Option Text} {name : Text} (hret : ¬ Returned base name)
    (hdir : ¬ Directory base) (hcanonical : CanonicalSegments (pieces base name)) (hrooted : Rooted name) :
    pieces base name = [] :: (path (split (read name))).names ∧
      (read (base.getD [])).head? ≠ some slash := by
  have hafter : [] ∈ afterUps (split (read name)) := List.mem_of_head? hrooted
  have htail := ne_nil_of_canonical hcanonical
  rw [pieces, if_neg hret, if_neg hdir] at htail hcanonical ⊢
  by_cases habs : (read (base.getD [])).head? = some slash
  · rw [if_pos habs] at htail
    exact absurd rfl (htail [] (List.mem_append_right (kept _ _) hafter))
  · rw [if_neg habs, List.nil_append] at htail hcanonical ⊢
    cases hkept : kept (read (base.getD [])) (leadingUps (split (read name))) with
    | cons k ks =>
      rw [hkept] at htail
      exact absurd rfl (htail [] (List.mem_append_right ks hafter))
    | nil =>
      rw [hkept, List.nil_append] at hcanonical
      rw [List.nil_append]
      obtain ⟨names, hnames⟩ : ∃ names, afterUps (split (read name)) = [] :: names := by
        cases ha : afterUps (split (read name)) with
        | nil =>
          rw [ha] at hafter
          cases hafter
        | cons a names =>
          rw [Rooted, ha] at hrooted
          exact ⟨names, by rw [Option.some.inj hrooted]⟩
      rw [hnames] at hcanonical ⊢
      have hord := (ordinary_of_canonical_empty hcanonical).2
      have hpath : path (split (read name)) = ⟨leadingUps (split (read name)), names⟩ := by
        have hsplit := ups_append_afterUps (split (read name))
        rw [hnames] at hsplit
        rw [← path_nameWord _ hord, ← path_append_empty, hsplit]
      rw [hpath]
      exact ⟨rfl, habs⟩

/-- A clean rooted name gives the absolute path of its names. -/
theorem pieces_of_rooted {base : Option Text} {name : Text} (hread : read name ≠ [])
    (hcanonical : CanonicalSegments (pieces base name)) (hrooted : Rooted name) :
    pieces base name = [] :: (path (segments name)).names ∧
      ((path (segments name)).ups = 0 ∨ (read (base.getD [])).head? ≠ some slash) := by
  have htail := ne_nil_of_canonical hcanonical
  rw [← path_read]
  by_cases habs : (read name).head? = some slash
  · obtain ⟨rest, hrest⟩ := segments_of_absolute habs
    have hp : pieces base name = segments (read name) := if_pos (Or.inl habs)
    rw [hp, hrest] at hcanonical ⊢
    have hpath : path rest = ⟨0, rest⟩ := path_nameWord 0 (ordinary_of_canonical_empty hcanonical).2
    rw [path_empty_cons, hpath]
    exact ⟨rfl, Or.inl rfl⟩
  · have hmem : [] ∈ (segments (read name)).tail :=
      mem_tail_of_head?_ne ((split_prefix_segments _).subset (mem_split_rooted hrooted))
        (segments_head?_ne hread habs)
    by_cases hret : Returned base name
    · rw [pieces, if_pos hret] at htail
      exact absurd rfl (htail [] hmem)
    · by_cases hdir : Directory base
      · rw [pieces, if_neg hret, if_pos hdir] at htail
        exact absurd rfl (htail [] (tail_append_subset _ _ hmem))
      · obtain ⟨hp, hbase⟩ := pieces_of_rooted_file hret hdir hcanonical hrooted
        rw [path_split] at hp
        exact ⟨hp, Or.inr hbase⟩

/-- A clean name that is absolute as read is rooted. -/
theorem rooted_of_absolute {base : Option Text} {name : Text} (habs : (read name).head? = some slash)
    (hcanonical : CanonicalSegments (pieces base name)) : Rooted name := by
  obtain ⟨rest, hrest⟩ := segments_of_absolute habs
  have hp : pieces base name = segments (read name) := if_pos (Or.inl habs)
  rw [hp, hrest] at hcanonical
  obtain ⟨hne, hord⟩ := ordinary_of_canonical_empty hcanonical
  have hsplit : split (read name) = segments (read name) := by
    apply split_of_getLast
    rw [hrest]
    intro hlast
    have hlast' : rest.getLast? = some [] := by
      rw [← hlast, List.getLast?_cons_of_ne_nil hne]
    exact (hord [] (List.mem_of_getLast? hlast')).1 rfl
  unfold Rooted
  rw [hsplit, hrest]
  rfl

theorem pieces_of_not_rooted {base : Option Text} {name : Text} (hread : read name ≠ [])
    (hcanonical : CanonicalSegments (pieces base name)) (hrooted : ¬ Rooted name) :
    pieces base name = unrootedPieces base (path (segments name)) := by
  have habs : (read name).head? ≠ some slash := fun h => hrooted (rooted_of_absolute h hcanonical)
  have hhead := segments_head?_ne hread habs
  rw [← path_read]
  by_cases hnull : base = none ∨ base = some []
  · have hret : Returned base name := Or.inr hnull
    rw [pieces, if_pos hret] at hcanonical ⊢
    rw [unrootedPieces, if_pos hnull]
    exact eq_nameWord (ordinary_of_canonical_append (a := []) hcanonical hhead)
  · have hret : ¬ Returned base name := not_or.mpr ⟨habs, hnull⟩
    by_cases hdir : Directory base
    · rw [pieces, if_neg hret, if_pos hdir] at hcanonical ⊢
      rw [unrootedPieces, if_neg hnull, if_pos hdir]
      exact congrArg _ (eq_nameWord (ordinary_of_canonical_append hcanonical hhead))
    · rw [pieces, if_neg hret, if_neg hdir] at hcanonical ⊢
      have hord : ∀ s ∈ afterUps (split (read name)), Ordinary s := by
        rw [← afterUps_afterUps]
        rw [← List.append_assoc] at hcanonical
        exact ordinary_of_canonical_append hcanonical hrooted
      rw [unrootedPieces, if_neg hnull, if_neg hdir, ← path_split, path_of_afterUps hord]

theorem nameWord_of_ordinary {p : Reduced Text} (h : ∀ s ∈ nameWord p, Ordinary s) : nameWord p = p.names := by
  have hups : p.ups = 0 := by
    by_contra hne
    have hmem : parentSegment ∈ nameWord p :=
      List.mem_append_left _ (List.mem_replicate.mpr ⟨hne, rfl⟩)
    exact (h _ hmem).2.2.2 rfl
  unfold nameWord
  rw [hups]
  rfl

/-- A base that ends with a slash and has one directory, the empty one. -/
theorem eq_root {b : Text} (hdir : b.getLast? = some slash) (h : (segments b).dropLast = [[]]) : b = [slash] := by
  have hjoin := join_directory hdir []
  rw [h] at hjoin
  exact (List.append_nil b).symm.trans hjoin.symm

theorem dropLast_segments_ne_nil {b : Text} (hdir : b.getLast? = some slash) : (segments b).dropLast ≠ [] := by
  obtain ⟨t, rfl⟩ := List.getLast?_eq_some_iff.mp hdir
  have hb : segments (t ++ [slash]) = segments t ++ [[]] := segments_append t []
  rw [hb, List.dropLast_concat]
  exact segments_ne_nil t

theorem getLast?_of_segments {b : Text} (hne : b ≠ []) (h : (segments b).getLast? = some []) :
    b.getLast? = some slash := by
  obtain ⟨pre, hpre⟩ := List.getLast?_eq_some_iff.mp h
  have hslash : ∀ s ∈ pre, slash ∉ s := by
    intro s hs
    apply slash_notMem_of_mem_segments (s := b)
    rw [hpre]
    exact List.mem_append_left _ hs
  have hprene : pre ≠ [] := by
    rintro rfl
    apply hne
    rw [← join_segments b, hpre]
    rfl
  have hsegs : segments (join pre ++ [slash]) = segments b := by
    rw [hpre, segments_append, segments_join hslash hprene]
    rfl
  have hb : b = join pre ++ [slash] := by
    rw [← join_segments b, ← hsegs, join_segments]
  rw [hb, List.getLast?_concat]

/-- The directory of a file is not empty if the base is absolute. -/
theorem kept_ne_nil_of_absolute {b : Text} (habs : b.head? = some slash) (hdir : b.getLast? ≠ some slash) :
    kept b 0 ≠ [] := by
  obtain ⟨rest, hrest⟩ := segments_of_absolute habs
  have hne : b ≠ [] := by
    rintro rfl
    cases habs
  have hlast : (segments b).getLast? ≠ some [] := fun h => hdir (getLast?_of_segments hne h)
  unfold kept
  rw [split_of_getLast hlast, hrest]
  rw [hrest] at hlast
  cases rest with
  | nil => exact absurd rfl hlast
  | cons a rest => exact List.cons_ne_nil _ _

/-- The first directory of a relative base is not empty. -/
theorem kept_head?_of_relative {b : Text} (hrel : b.head? ≠ some slash) (ups : Nat) :
    (kept b ups).head? ≠ some [] := by
  intro hhead
  obtain ⟨t, ht⟩ := List.head?_eq_some_iff.mp hhead
  by_cases hne : b = []
  · -- `split` of the empty string has one part, which is gone
    rw [hne] at ht
    have hlen : (kept [] ups).length = 0 := by
      unfold kept
      rw [List.length_take]
      show min (1 - ups - 1) 1 = 0
      omega
    rw [ht] at hlen
    cases hlen
  · have hprefix : kept b ups <+: segments b := (List.take_prefix _ _).trans (split_prefix_segments b)
    rw [ht] at hprefix
    obtain ⟨t', ht'⟩ := hprefix
    apply segments_head?_ne hne hrel
    rw [← ht']
    rfl

/-- Only against the base `/` does a name that is not rooted give the absolute path of its names. -/
theorem unrootedPieces_eq_iff {base : Option Text} {p : Reduced Text}
    (hbase : p.ups = 0 ∨ (read (base.getD [])).head? ≠ some slash)
    (hcanonical : CanonicalSegments (unrootedPieces base p)) :
    unrootedPieces base p = [] :: p.names ↔ read (base.getD []) = [slash] := by
  constructor
  · intro heq
    have hlen := congrArg List.length heq
    by_cases hnull : base = none ∨ base = some []
    · -- the first segment of the name is not empty
      rw [unrootedPieces, if_pos hnull, nameWord] at hlen heq
      rw [List.length_append, List.length_replicate, List.length_cons] at hlen
      have hups : p.ups = 1 := by omega
      rw [hups] at heq
      exact absurd (List.cons.inj heq).1 (by decide)
    · by_cases hdir : Directory base
      · have hne := dropLast_segments_ne_nil hdir
        rw [unrootedPieces, if_neg hnull, if_pos hdir, nameWord] at hlen heq
        rw [List.length_append, List.length_append, List.length_replicate, List.length_cons] at hlen
        have hpos := List.length_pos_of_ne_nil hne
        obtain ⟨a, ha⟩ := List.length_eq_one_iff.mp (by omega : (segments (read (base.getD []))).dropLast.length = 1)
        rw [ha] at heq
        have hempty : a = [] := (List.cons.inj heq).1
        exact eq_root hdir (by rw [ha, hempty])
      · rw [unrootedPieces, if_neg hnull, if_neg hdir] at hlen heq
        rw [List.length_append, List.length_append, List.length_cons] at hlen
        by_cases habs : (read (base.getD [])).head? = some slash
        · rw [if_pos habs, List.length_singleton] at hlen
          have hkept : kept (read (base.getD [])) p.ups = [] := List.length_eq_zero_iff.mp (by omega)
          rw [hbase.resolve_right (not_not.mpr habs)] at hkept
          exact absurd hkept (kept_ne_nil_of_absolute habs hdir)
        · rw [if_neg habs, List.length_nil] at hlen
          obtain ⟨a, ha⟩ := List.length_eq_one_iff.mp
            (by omega : (kept (read (base.getD [])) p.ups).length = 1)
          rw [if_neg habs, ha] at heq
          have hempty : a = [] := (List.cons.inj heq).1
          exact absurd (by rw [ha, hempty]; rfl) (kept_head?_of_relative habs p.ups)
  · intro hroot
    have hnull : ¬ (base = none ∨ base = some []) := by
      rintro (h | h) <;> rw [h] at hroot <;> cases hroot
    have hdir : Directory base := by
      unfold Directory
      rw [hroot]
      rfl
    rw [unrootedPieces, if_neg hnull, if_pos hdir, hroot] at hcanonical ⊢
    exact congrArg ([] :: ·) (nameWord_of_ordinary (ordinary_of_canonical_empty hcanonical).2)

/-! ## Identification -/

/-- The two names give the same result, where both give one. -/
def SameResult (base : Option Text) (name other : Text) : Prop :=
  ∀ r r', convertModuleName base (some name) = .ok (some r) →
    convertModuleName base (some other) = .ok (some r') → r = r'

/-- Both names are rooted or none is, or it makes no difference. -/
def Alike (base : Option Text) (name other : Text) : Prop :=
  Stuck base name ∨ Stuck base other ∨ (Rooted name ↔ Rooted other) ∨ read (base.getD []) = [slash]

instance (base : Option Text) (name other : Text) : Decidable (Alike base name other) :=
  inferInstanceAs (Decidable (_ ∨ _ ∨ _ ∨ _))

theorem Clean.canonical {base : Option Text} {name : Text} (h : Clean base name)
    (hstuck : ¬ Stuck base name) : CanonicalSegments (pieces base name) :=
  h.2.resolve_left hstuck

/-- A rooted and an unrooted name of one path. -/
theorem pieces_eq_iff_root {base : Option Text} {name other : Text} (hpath : SamePath name other)
    (hread : read name ≠ []) (hread' : read other ≠ [])
    (hc : CanonicalSegments (pieces base name)) (hc' : CanonicalSegments (pieces base other))
    (hrooted : Rooted name) (hrooted' : ¬ Rooted other) :
    pieces base other = pieces base name ↔ read (base.getD []) = [slash] := by
  obtain ⟨hp, hbase⟩ := pieces_of_rooted hread hc hrooted
  have hp' := pieces_of_not_rooted hread' hc' hrooted'
  rw [hpath.2] at hp hbase
  rw [hp'] at hc' ⊢
  rw [hp]
  exact unrootedPieces_eq_iff hbase hc'

theorem pieces_eq_iff {base : Option Text} {name other : Text} (hpath : SamePath name other)
    (hclean : Clean base name) (hclean' : Clean base other)
    (hstuck : ¬ Stuck base name) (hstuck' : ¬ Stuck base other) :
    pieces base name = pieces base other ↔
      ((Rooted name ↔ Rooted other) ∨ read (base.getD []) = [slash]) := by
  have hc := hclean.canonical hstuck
  have hc' := hclean'.canonical hstuck'
  have hread : read name ≠ [] := fun h => hstuck (Or.inl h)
  have hread' : read other ≠ [] := fun h => hstuck' (Or.inl h)
  by_cases hrooted : Rooted name
  · by_cases hrooted' : Rooted other
    · have heq : pieces base name = pieces base other := by
        rw [(pieces_of_rooted hread hc hrooted).1, (pieces_of_rooted hread' hc' hrooted').1, hpath.2]
      exact iff_of_true heq (Or.inl (iff_of_true hrooted hrooted'))
    · have hnot : ¬ (Rooted name ↔ Rooted other) := fun h => hrooted' (h.mp hrooted)
      rw [eq_comm, pieces_eq_iff_root hpath hread hread' hc hc' hrooted hrooted', or_iff_right hnot]
  · by_cases hrooted' : Rooted other
    · have hnot : ¬ (Rooted name ↔ Rooted other) := fun h => hrooted (h.mpr hrooted')
      have hpath' : SamePath other name := ⟨hpath.1.symm, hpath.2.symm⟩
      rw [pieces_eq_iff_root hpath' hread' hread hc' hc hrooted' hrooted, or_iff_right hnot]
    · have heq : pieces base name = pieces base other := by
        rw [pieces_of_not_rooted hread hc hrooted, pieces_of_not_rooted hread' hc' hrooted', hpath.2]
      exact iff_of_true heq (Or.inl (iff_of_false hrooted hrooted'))

theorem names_eq_nil_of_unrootedPieces {base : Option Text} {p : Reduced Text}
    (h : unrootedPieces base p = []) : p.names = [] := by
  unfold unrootedPieces at h
  split at h
  · exact (List.append_eq_nil_iff.mp h).2
  · split at h
    · exact (List.append_eq_nil_iff.mp (List.append_eq_nil_iff.mp h).2).2
    · exact (List.append_eq_nil_iff.mp (List.append_eq_nil_iff.mp h).2).2

/-- Where one name leaves no segments, a rooted name of the same path would leave none after the first. -/
theorem not_rooted_of_pieces_nil {base : Option Text} {name other : Text} (hpath : SamePath name other)
    (hclean : Clean base name) (hclean' : Clean base other)
    (hstuck : ¬ Stuck base name) (hstuck' : ¬ Stuck base other) (hnil : pieces base name = []) :
    ¬ Rooted name ∧ ¬ Rooted other := by
  have hread : read name ≠ [] := fun h => hstuck (Or.inl h)
  have hread' : read other ≠ [] := fun h => hstuck' (Or.inl h)
  have hrooted : ¬ Rooted name := by
    intro hr
    rw [(pieces_of_rooted hread (hclean.canonical hstuck) hr).1] at hnil
    cases hnil
  refine ⟨hrooted, fun hr' => ?_⟩
  have hp' := (pieces_of_rooted hread' (hclean'.canonical hstuck') hr').1
  have hcanonical := hclean'.canonical hstuck'
  rw [hp'] at hcanonical
  rw [pieces_of_not_rooted hread (hclean.canonical hstuck) hrooted, hpath.2] at hnil
  exact (ordinary_of_canonical_empty hcanonical).1 (names_eq_nil_of_unrootedPieces hnil)

theorem sameResult_of_error {base : Option Text} {name other : Text} (hne : name ≠ [])
    (h : Stuck base name ∨ pieces base name = []) :
    SameResult base name other ∧ SameResult base other name := by
  obtain ⟨e, he⟩ := convertModuleName_error hne h
  constructor
  · intro r r' hr
    rw [he] at hr
    cases hr
  · intro r r' _ hr'
    rw [he] at hr'
    cases hr'

theorem sameResult_iff_pieces {base : Option Text} {name other : Text} (hne : name ≠ []) (hne' : other ≠ [])
    (hstuck : ¬ Stuck base name) (hstuck' : ¬ Stuck base other)
    (hp : pieces base name ≠ []) (hp' : pieces base other ≠ []) :
    SameResult base name other ↔ pieces base name = pieces base other := by
  have hr := convertModuleName_of_not_stuck hne hstuck hp
  have hr' := convertModuleName_of_not_stuck hne' hstuck' hp'
  constructor
  · intro hsame
    have hjoin := hsame _ _ hr hr'
    rw [← segments_join_pieces hp, ← segments_join_pieces hp', hjoin]
  · intro heq r r' h h'
    rw [(eq_join_pieces hne h).2.1, (eq_join_pieces hne' h').2.1, heq]

theorem sameResult_iff_alike {base : Option Text} {name other : Text} (hpath : SamePath name other)
    (hclean : Clean base name) (hclean' : Clean base other) :
    SameResult base name other ↔ Alike base name other := by
  by_cases hstuck : Stuck base name
  · exact iff_of_true (sameResult_of_error hclean.1 (Or.inl hstuck)).1 (Or.inl hstuck)
  · by_cases hstuck' : Stuck base other
    · exact iff_of_true (sameResult_of_error hclean'.1 (Or.inl hstuck')).2 (Or.inr (Or.inl hstuck'))
    · unfold Alike
      rw [or_iff_right hstuck, or_iff_right hstuck']
      by_cases hp : pieces base name = []
      · obtain ⟨hr, hr'⟩ := not_rooted_of_pieces_nil hpath hclean hclean' hstuck hstuck' hp
        exact iff_of_true (sameResult_of_error hclean.1 (Or.inr hp)).1 (Or.inl (iff_of_false hr hr'))
      · by_cases hp' : pieces base other = []
        · have hpath' : SamePath other name := ⟨hpath.1.symm, hpath.2.symm⟩
          obtain ⟨hr', hr⟩ := not_rooted_of_pieces_nil hpath' hclean' hclean hstuck' hstuck hp'
          exact iff_of_true (sameResult_of_error hclean'.1 (Or.inr hp')).2 (Or.inl (iff_of_false hr hr'))
        · rw [sameResult_iff_pieces hclean.1 hclean'.1 hstuck hstuck' hp hp']
          exact pieces_eq_iff hpath hclean hclean' hstuck hstuck'

example : Clean (some (text ['d', '/', 'f'])) (text ['.', '/', 'b']) ∧
    ¬ Clean (some (text ['/', 'f'])) (text ['b']) := by decide

end QuickJSBridge.ModuleNames
