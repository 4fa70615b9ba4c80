import QuickJSBridge.Java.ModuleNames
import QuickJSBridge.Lib.Paths

/-!
# Module names as paths

What `Module.convertModuleName` makes of a name that is a path, and how far its results identify modules.

* `Segment` — a segment that names a file or a directory;
* `resolves_iff_relative` — a name that climbs no further than its base resolves to the right path iff the
  base is relative.
-/

namespace QuickJSBridge.ModuleNames

/-! ## Segments -/

/-- A segment that names a file or a directory. -/
def Ordinary (s : Text) : Prop := s ≠ [] ∧ slash ∉ s ∧ s ≠ [dot] ∧ s ≠ parentSegment

instance (s : Text) : Decidable (Ordinary s) := inferInstanceAs (Decidable (_ ∧ _ ∧ _ ∧ _))

abbrev Segment := { s : Text // Ordinary s }

/-- `[/]d1/.../dk` -/
def modulePath (absolute : Bool) (segs : List Segment) : Text :=
  (if absolute then [slash] else []) ++ join (segs.map Subtype.val)

/-- `../../s1/.../sm` -/
def nameSegments (ups : Nat) (segs : List Segment) : List Text :=
  List.replicate ups parentSegment ++ segs.map Subtype.val

/-- `[./]../../s1/.../sm` -/
def relativeName (current : Bool) (ups : Nat) (segs : List Segment) : Text :=
  (if current then [dot, slash] else []) ++ join (nameSegments ups segs)

theorem slash_notMem_of_segment {segs : List Segment} : ∀ s ∈ segs.map Subtype.val, slash ∉ s := by
  intro s hs
  obtain ⟨seg, _, rfl⟩ := List.mem_map.mp hs
  exact seg.2.2.1

theorem segment_ne_nil {segs : List Segment} : ∀ s ∈ segs.map Subtype.val, s ≠ [] := by
  intro s hs
  obtain ⟨seg, _, rfl⟩ := List.mem_map.mp hs
  exact seg.2.1

theorem slash_notMem_parentSegment : slash ∉ parentSegment := by decide

/-! ## Texts that the first statements leave as they are -/

theorem replaceSlashes_of_tail {s : Text} (h : ∀ a ∈ (segments s).tail, a ≠ []) :
    replaceSlashes s = s := by
  induction s using replaceSlashes.induct with
  | case1 => rfl
  | case2 c => rfl
  | case3 c d rest hcd ih =>
    -- the second segment is empty
    rw [hcd.1, hcd.2, segments_slash_cons, segments_slash_cons] at h
    exact absurd rfl (h [] List.mem_cons_self)
  | case4 c d rest hcd ih =>
    have htail : ∀ a ∈ (segments (d :: rest)).tail, a ≠ [] := by
      intro a ha
      by_cases hc : c = slash
      · rw [hc, segments_slash_cons] at h
        exact h a (List.mem_of_mem_tail ha)
      · rw [segments_cons_of_ne hc] at h
        apply h
        cases hs : segments (d :: rest) with
        | nil => exact absurd hs (segments_ne_nil _)
        | cons b t =>
          rw [hs] at ha
          exact ha
    rw [replaceSlashes, if_neg hcd, ih htail]

theorem stripCurrent_cons (s : Text) : stripCurrent (dot :: slash :: s) = s := by
  unfold stripCurrent
  rw [if_pos (by simp)]
  rfl

/-- What is taken off is a first segment `.`. -/
theorem segments_stripCurrent (s : Text) :
    stripCurrent s = s ∨ segments s = [dot] :: segments (stripCurrent s) := by
  unfold stripCurrent
  split
  · rename_i hpre
    obtain ⟨rest, rfl⟩ := List.isPrefixOf_iff_prefix.mp hpre
    right
    show segments (dot :: slash :: rest) = [dot] :: segments rest
    rw [segments_cons_of_ne (by decide), segments_slash_cons]
    rfl
  · exact .inl rfl

theorem stripCurrent_of_head {s : Text} (h : (segments s).head? ≠ some [dot]) : stripCurrent s = s := by
  rcases segments_stripCurrent s with hsame | hsegs
  · exact hsame
  · exact absurd (congrArg List.head? hsegs) h

/-- `split` keeps all segments of a text that does not end with a slash. -/
theorem split_of_getLast {s : Text} (h : (segments s).getLast? ≠ some []) : split s = segments s := by
  unfold split
  split
  · rw [List.rdropWhile_eq_self_iff]
    intro hne hempty
    apply h
    rw [List.getLast?_eq_some_getLast hne]
    exact congrArg some (List.isEmpty_iff.mp hempty)
  · rename_i hslash
    rw [segments_of_slash_notMem hslash]

theorem head?_ne_slash {s : Text} (h : (segments s).head? ≠ some []) : s.head? ≠ some slash := by
  intro hs
  cases s with
  | nil => cases hs
  | cons c rest =>
    rw [Option.some.inj hs, segments_slash_cons] at h
    exact h rfl

theorem getLast?_ne_slash {s : Text} (h : (segments s).getLast? ≠ some []) :
    s.getLast? ≠ some slash := by
  intro hs
  obtain ⟨t, rfl⟩ := List.getLast?_eq_some_iff.mp hs
  rw [segments_append] at h
  exact h List.getLast?_concat

/-! ## The two shapes of text -/

theorem segments_modulePath (absolute : Bool) {segs : List Segment} (hne : segs ≠ []) :
    segments (modulePath absolute segs) =
      (if absolute then [[]] else []) ++ segs.map Subtype.val := by
  have hjoin : segments (join (segs.map Subtype.val)) = segs.map Subtype.val := by
    apply segments_join slash_notMem_of_segment
    intro hnil
    exact hne (List.map_eq_nil_iff.mp hnil)
  unfold modulePath
  cases absolute with
  | false => exact hjoin
  | true =>
    show segments (slash :: join (segs.map Subtype.val)) = [] :: segs.map Subtype.val
    rw [segments_slash_cons, hjoin]

theorem segments_join_nameSegments (ups : Nat) {segs : List Segment} (hne : segs ≠ []) :
    segments (join (nameSegments ups segs)) = nameSegments ups segs := by
  apply segments_join
  · intro s hs
    rcases List.mem_append.mp hs with hs | hs
    · rw [List.eq_of_mem_replicate hs]
      exact slash_notMem_parentSegment
    · exact slash_notMem_of_segment s hs
  · intro hnil
    exact hne (List.map_eq_nil_iff.mp (List.append_eq_nil_iff.mp hnil).2)

theorem nameSegments_ne_nil {ups : Nat} {segs : List Segment} : ∀ s ∈ nameSegments ups segs, s ≠ [] := by
  intro s hs
  rcases List.mem_append.mp hs with hs | hs
  · rw [List.eq_of_mem_replicate hs]
    decide
  · exact segment_ne_nil s hs

theorem nameSegments_ne_current {ups : Nat} {segs : List Segment} :
    ∀ s ∈ nameSegments ups segs, s ≠ [dot] := by
  intro s hs
  rcases List.mem_append.mp hs with hs | hs
  · rw [List.eq_of_mem_replicate hs]
    decide
  · obtain ⟨seg, _, rfl⟩ := List.mem_map.mp hs
    exact seg.2.2.2.1

theorem read_relativeName (current : Bool) (ups : Nat) {segs : List Segment} (hne : segs ≠ []) :
    stripCurrent (replaceSlashes (relativeName current ups segs)) = join (nameSegments ups segs) := by
  have hsegs := segments_join_nameSegments ups hne
  cases current with
  | false =>
    show stripCurrent (replaceSlashes (join (nameSegments ups segs))) = _
    rw [replaceSlashes_of_tail, stripCurrent_of_head]
    · rw [hsegs]
      intro hhead
      exact nameSegments_ne_current [dot] (List.mem_of_head? hhead) rfl
    · intro a ha
      rw [hsegs] at ha
      exact nameSegments_ne_nil a (List.mem_of_mem_tail ha)
  | true =>
    show stripCurrent (replaceSlashes (dot :: slash :: join (nameSegments ups segs))) = _
    rw [replaceSlashes_of_tail, stripCurrent_cons]
    intro a ha
    rw [segments_cons_of_ne (by decide), segments_slash_cons, hsegs] at ha
    exact nameSegments_ne_nil a ha

theorem read_modulePath (absolute : Bool) {segs : List Segment} (hne : segs ≠ []) :
    stripCurrent (replaceSlashes (modulePath absolute segs)) = modulePath absolute segs := by
  have hsegs := segments_modulePath absolute hne
  rw [replaceSlashes_of_tail, stripCurrent_of_head]
  · rw [hsegs]
    intro hhead
    rcases List.mem_append.mp (List.mem_of_head? hhead) with hmem | hmem
    · cases absolute <;> simp at hmem
    · obtain ⟨seg, _, hseg⟩ := List.mem_map.mp hmem
      exact seg.2.2.2.1 hseg
  · intro a ha
    rw [hsegs] at ha
    have hmem : a ∈ segs.map Subtype.val := by
      cases absolute with
      | false => exact List.mem_of_mem_tail ha
      | true => exact ha
    exact segment_ne_nil a hmem

/-! ## Resolution against a file -/

theorem leadingUps_nameSegments (ups : Nat) (segs : List Segment) :
    leadingUps (nameSegments ups segs) = ups := by
  unfold leadingUps nameSegments
  rw [List.takeWhile_append_of_pos (by simp)]
  cases segs with
  | nil => simp
  | cons seg segs => simp [seg.2.2.2.2]

theorem afterUps_nameSegments (ups : Nat) (segs : List Segment) :
    afterUps (nameSegments ups segs) = segs.map Subtype.val := by
  unfold afterUps nameSegments
  rw [List.dropWhile_append_of_pos (by simp)]
  cases segs with
  | nil => simp
  | cons seg segs => simp [seg.2.2.2.2]

theorem getLast?_segments {segs : List Segment} (pre : List Text) (hne : segs ≠ []) :
    (pre ++ segs.map Subtype.val).getLast? ≠ some [] := by
  intro hlast
  rw [List.getLast?_append_of_ne_nil _ (mt List.map_eq_nil_iff.mp hne)] at hlast
  exact segment_ne_nil [] (List.mem_of_getLast? hlast) rfl

theorem join_empty_cons {segs : List Text} (hne : segs ≠ []) : join ([] :: segs) = slash :: join segs := by
  unfold join
  rw [List.intercalate_cons_of_ne_nil hne]
  rfl

theorem ne_nil_of_segments {s : Text} (h : [] ∉ segments s) : s ≠ [] := by
  rintro rfl
  exact h List.mem_cons_self

theorem split_modulePath (absolute : Bool) {segs : List Segment} (hne : segs ≠ []) :
    split (modulePath absolute segs) = (if absolute then [[]] else []) ++ segs.map Subtype.val := by
  rw [split_of_getLast, segments_modulePath absolute hne]
  rw [segments_modulePath absolute hne]
  exact getLast?_segments _ hne

theorem kept_modulePath (absolute : Bool) (dirs : List Segment) (file : Segment) {ups : Nat}
    (hups : ups ≤ dirs.length) :
    kept (modulePath absolute (dirs ++ [file])) ups =
      (if absolute then [[]] else []) ++ (dirs.take (dirs.length - ups)).map Subtype.val := by
  have hsegs : dirs ++ [file] ≠ [] := List.concat_ne_nil file dirs
  unfold kept
  rw [split_modulePath absolute hsegs, List.length_append, List.length_map, List.length_append,
    List.length_singleton]
  cases absolute with
  | false =>
    show List.take (0 + (dirs.length + 1) - ups - 1) ((dirs ++ [file]).map Subtype.val) = _
    rw [← List.map_take, List.take_append_of_le_length (by omega)]
    have hlen : 0 + (dirs.length + 1) - ups - 1 = dirs.length - ups := by omega
    rw [hlen]
    rfl
  | true =>
    show List.take (1 + (dirs.length + 1) - ups - 1) ([] :: (dirs ++ [file]).map Subtype.val) = _
    have hlen : 1 + (dirs.length + 1) - ups - 1 = (dirs.length - ups) + 1 := by omega
    rw [hlen, List.take_succ_cons, ← List.map_take, List.take_append_of_le_length (by omega)]
    rfl

theorem head?_modulePath (absolute : Bool) {segs : List Segment} (hne : segs ≠ []) :
    decide ((modulePath absolute segs).head? = some slash) = absolute := by
  cases absolute with
  | true => exact decide_eq_true rfl
  | false =>
    apply decide_eq_false
    apply head?_ne_slash
    rw [segments_modulePath false hne]
    intro hhead
    exact segment_ne_nil [] (List.mem_of_head? hhead) rfl

theorem resolve_modulePath (absolute : Bool) (dirs : List Segment) (file : Segment) (ups : Nat)
    (first : Segment) (rest : List Segment) (hups : ups ≤ dirs.length) :
    resolve (modulePath absolute (dirs ++ [file])) (join (nameSegments ups (first :: rest))) =
      .ok ((if absolute then [slash] else []) ++
        modulePath absolute (dirs.take (dirs.length - ups) ++ first :: rest)) := by
  have hsegs : dirs ++ [file] ≠ [] := List.concat_ne_nil file dirs
  have hsplit : split (join (nameSegments ups (first :: rest))) = nameSegments ups (first :: rest) := by
    rw [split_of_getLast, segments_join_nameSegments ups (List.cons_ne_nil first rest)]
    rw [segments_join_nameSegments ups (List.cons_ne_nil first rest)]
    exact getLast?_segments _ (List.cons_ne_nil first rest)
  have hlen : ups ≤ (split (modulePath absolute (dirs ++ [file]))).length := by
    rw [split_modulePath absolute hsegs, List.length_append, List.length_map, List.length_append]
    omega
  have hne : (dirs.take (dirs.length - ups)).map Subtype.val ++ (first :: rest).map Subtype.val ≠ [] :=
    fun h => List.cons_ne_nil _ _ (List.append_eq_nil_iff.mp h).2
  rw [resolve_eq, hsplit, leadingUps_nameSegments, afterUps_nameSegments, if_pos hlen,
    kept_modulePath absolute dirs file hups, head?_modulePath absolute hsegs, deleteLast_build]
  · unfold modulePath
    rw [List.map_append, List.append_assoc]
    cases absolute with
    | false => rfl
    | true => exact congrArg (fun t => Except.ok (slash :: t)) (join_empty_cons hne)
  · rw [List.append_assoc]
    exact fun h => hne (List.append_eq_nil_iff.mp h).2

/-- The result has the directories that stay, but where the base is absolute its empty first segment is
kept next to the slash. -/
theorem convertModuleName_modulePath (absolute current : Bool) (dirs : List Segment) (file : Segment)
    (ups : Nat) (first : Segment) (rest : List Segment) (hups : ups ≤ dirs.length) :
    convertModuleName (some (modulePath absolute (dirs ++ [file])))
        (some (relativeName current ups (first :: rest))) =
      .ok (some ((if absolute then [slash] else []) ++
        modulePath absolute (dirs.take (dirs.length - ups) ++ first :: rest))) := by
  have hread := read_relativeName current ups (List.cons_ne_nil first rest)
  have hname := segments_join_nameSegments ups (List.cons_ne_nil first rest)
  have hempty : [] ∉ segments (join (nameSegments ups (first :: rest))) := by
    rw [hname]
    exact fun h => nameSegments_ne_nil [] h rfl
  have hsegs : dirs ++ [file] ≠ [] := List.concat_ne_nil file dirs
  have hlast : (segments (modulePath absolute (dirs ++ [file]))).getLast? ≠ some [] := by
    rw [segments_modulePath absolute hsegs]
    exact getLast?_segments _ hsegs
  have hbase : modulePath absolute (dirs ++ [file]) ≠ [] := by
    intro h
    rw [h] at hlast
    exact hlast rfl
  have hnot : ¬ ((join (nameSegments ups (first :: rest))).head? = some slash ∨
      some (modulePath absolute (dirs ++ [file])) = none ∨
      some (modulePath absolute (dirs ++ [file])) = some []) := by
    rintro (h | h | h)
    · exact head?_ne_slash (fun hhead => hempty (List.mem_of_head? hhead)) h
    · cases h
    · exact hbase (Option.some.inj h)
  have hroot : modulePath absolute (dirs ++ [file]) ≠ [slash] := by
    intro h
    exact getLast?_ne_slash hlast (by rw [h]; rfl)
  rw [convertModuleName_some, hread, if_neg (ne_nil_of_segments hempty), if_neg hnot, Option.getD_some]
  · unfold convertRelative
    rw [read_modulePath absolute hsegs, if_neg hroot, if_neg (getLast?_ne_slash hlast),
      resolve_modulePath absolute dirs file ups first rest hups]
    rfl
  · intro h
    rw [h] at hread
    exact ne_nil_of_segments hempty hread.symm

/-- **Resolution.** A name that climbs no further than its base has directories resolves to the directories
that stay and its own segments iff the base is relative. -/
theorem resolves_iff_relative (absolute current : Bool) (dirs : List Segment) (file : Segment) (ups : Nat)
    (first : Segment) (rest : List Segment) (hups : ups ≤ dirs.length) :
    convertModuleName (some (modulePath absolute (dirs ++ [file])))
        (some (relativeName current ups (first :: rest))) =
      .ok (some (modulePath absolute (dirs.take (dirs.length - ups) ++ first :: rest))) ↔
    absolute = false := by
  rw [convertModuleName_modulePath absolute current dirs file ups first rest hups]
  cases absolute with
  | false => exact ⟨fun _ => rfl, fun _ => rfl⟩
  | true =>
    refine ⟨fun h => ?_, fun h => by cases h⟩
    exact absurd (Option.some.inj (Except.ok.inj h)) (List.cons_ne_self slash _)

/-- A segment of one letter. -/
def letter (c : Char) (h : Ordinary (text [c])) : Segment := ⟨text [c], h⟩

theorem resolves_iff_relative_up :
    convertModuleName (some (text ['a', '/', 'b', '/', 'f'])) (some (text ['.', '/', '.', '.', '/', 'c'])) =
      .ok (some (text ['a', '/', 'c'])) :=
  (resolves_iff_relative false true [letter 'a' (by decide), letter 'b' (by decide)] (letter 'f' (by decide))
    1 (letter 'c' (by decide)) [] (by decide)).mpr rfl

/-- `/f` and `c` give `//c`. -/
theorem not_resolves_absolute :
    ¬ ∀ (absolute current : Bool) (dirs : List Segment) (file : Segment) (ups : Nat) (first : Segment)
        (rest : List Segment), ups ≤ dirs.length →
      convertModuleName (some (modulePath absolute (dirs ++ [file])))
          (some (relativeName current ups (first :: rest))) =
        .ok (some (modulePath absolute (dirs.take (dirs.length - ups) ++ first :: rest))) := by
  intro hall
  have h := hall true false [] (letter 'f' (by decide)) 0 (letter 'c' (by decide)) [] (by decide)
  revert h
  decide

end QuickJSBridge.ModuleNames
