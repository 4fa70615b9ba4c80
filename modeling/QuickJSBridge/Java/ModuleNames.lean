import Mathlib.Data.List.DropRight
import QuickJSBridge.Engine.Strings

/-!
# Module names

`Module.convertModuleName` resolves the name of a required or imported module against the name of the module
that asks for it. Both module loaders use it, and `CommonJSModule` once more, without a base, for the name
that it records a module under.

* `replaceSlashes`, `stripCurrent`, `split` — the `String` methods it calls, on its arguments;
* `climb` — its loop over the leading `..` of the name;
* `convertModuleName` — the method, with the exceptions of `charAt`, `List.remove` and `deleteCharAt`;
* `convertModuleName_some`, `resolve_eq` — what it computes, in terms of the segments of both names.
-/

namespace QuickJSBridge.ModuleNames

def slash : UInt16 := 0x2f

def dot : UInt16 := 0x2e

/-- `..` -/
def parentSegment : Text := [dot, dot]

inductive JavaError where
  -- of `charAt` and `deleteCharAt`
  | stringIndexOutOfBounds
  -- of `remove`
  | arrayIndexOutOfBounds
  deriving DecidableEq

/-! ## The methods of `String` -/

/-- `replace("//", "/")`: one pass from the left. -/
def replaceSlashes : Text → Text
  | [] => []
  | [c] => [c]
  | c :: d :: rest =>
    if c = slash ∧ d = slash then slash :: replaceSlashes rest else c :: replaceSlashes (d :: rest)

/-- `if (s.startsWith("./")) s = s.substring(2)` -/
def stripCurrent (s : Text) : Text :=
  if [dot, slash].isPrefixOf s then s.drop 2 else s

/-- The parts between the slashes, empty ones included. -/
def segments : Text → List Text
  | [] => [[]]
  | c :: rest =>
    if c = slash then [] :: segments rest
    else
      match segments rest with
      | [] => [[c]]
      | s :: ss => (c :: s) :: ss

/-- `split("/")`: without the empty strings at the end; a string without a slash is kept as it is. -/
def split (s : Text) : List Text :=
  if slash ∈ s then (segments s).rdropWhile List.isEmpty else [s]

theorem segments_ne_nil (s : Text) : segments s ≠ [] := by
  cases s with
  | nil => exact List.cons_ne_nil _ _
  | cons c rest =>
    rw [segments]
    split
    · exact List.cons_ne_nil _ _
    · split <;> exact List.cons_ne_nil _ _

theorem segments_slash_cons (s : Text) : segments (slash :: s) = [] :: segments s := by
  rw [segments, if_pos rfl]

theorem segments_cons_of_ne {c : UInt16} (hc : c ≠ slash) (s : Text) :
    segments (c :: s) = (segments s).modifyHead (c :: ·) := by
  rw [segments, if_neg hc]
  cases hs : segments s with
  | nil => exact absurd hs (segments_ne_nil s)
  | cons a t => rfl

theorem segments_eq_splitOn (s : Text) : segments s = s.splitOn slash := by
  induction s with
  | nil => exact (List.splitOn_nil slash).symm
  | cons c rest ih =>
    rw [List.splitOn_cons_eq_if_modifyHead, ← ih]
    by_cases hc : c = slash
    · rw [hc, segments_slash_cons, beq_self_eq_true, if_pos rfl]
    · have hbeq : (c == slash) = false := beq_false_of_ne hc
      rw [segments_cons_of_ne hc, hbeq, if_neg Bool.false_ne_true]

/-- The text with the given segments. -/
def join (segs : List Text) : Text := [slash].intercalate segs

theorem join_segments (s : Text) : join (segments s) = s := by
  rw [segments_eq_splitOn]
  exact List.intercalate_splitOn slash

theorem segments_join {segs : List Text} (hslash : ∀ s ∈ segs, slash ∉ s) (hne : segs ≠ []) :
    segments (join segs) = segs := by
  rw [segments_eq_splitOn]
  exact List.splitOn_intercalate slash hslash hne

theorem segments_append (s t : Text) : segments (s ++ slash :: t) = segments s ++ segments t := by
  rw [segments_eq_splitOn, segments_eq_splitOn, segments_eq_splitOn]
  exact List.splitOn_append_cons_self s t

theorem segments_of_slash_notMem {s : Text} (h : slash ∉ s) : segments s = [s] := by
  rw [segments_eq_splitOn]
  exact List.splitOn_eq_singleton h

theorem slash_notMem_of_mem_segments {s a : Text} (ha : a ∈ segments s) : slash ∉ a := by
  induction s generalizing a with
  | nil =>
    rw [List.mem_singleton.mp ha]
    exact List.not_mem_nil
  | cons c rest ih =>
    by_cases hc : c = slash
    · rw [hc, segments_slash_cons] at ha
      rcases List.mem_cons.mp ha with rfl | ha
      · exact List.not_mem_nil
      · exact ih ha
    · rw [segments_cons_of_ne hc] at ha
      cases hrest : segments rest with
      | nil => exact absurd hrest (segments_ne_nil rest)
      | cons b t =>
        rw [hrest] at ha ih
        rcases List.mem_cons.mp ha with rfl | ha
        · intro hmem
          rcases List.mem_cons.mp hmem with h | h
          · exact hc h.symm
          · exact ih List.mem_cons_self h
        · exact ih (List.mem_cons_of_mem b ha)

/-! ## The resolution -/

/-- `while (!pathStack.isEmpty())`: the stacks after the loop, `pathStack` first. -/
def climb : List Text → List Text → Except JavaError (List Text × List Text)
  | [], parentStack => .ok ([], parentStack)
  | tmp :: pathStack, parentStack =>
    if tmp = parentSegment then
      if parentStack = [] then .error .arrayIndexOutOfBounds
      else climb pathStack parentStack.dropLast
    else .ok (tmp :: pathStack, parentStack)

/-- The `StringBuilder` before `deleteCharAt`. -/
def build (absolute : Bool) (parentStack pathStack : List Text) : Text :=
  (if absolute then [slash] else []) ++ (parentStack ++ pathStack).flatMap fun it => it ++ [slash]

/-- `builder.deleteCharAt(builder.length() - 1)` -/
def deleteLast (builder : Text) : Except JavaError Text :=
  if builder = [] then .error .stringIndexOutOfBounds else .ok builder.dropLast

/-- From `moduleBaseName.split("/")` on. -/
def resolve (moduleBaseName moduleName : Text) : Except JavaError Text := do
  let (pathStack, parentStack) ← climb (split moduleName) (split moduleBaseName)
  deleteLast (build (moduleBaseName.head? = some slash) parentStack.dropLast pathStack)

/-- A name that is neither null nor empty, relative to a base that is not either. -/
def convertRelative (moduleBaseName moduleName : Text) : Except JavaError Text :=
  let moduleBaseName := stripCurrent (replaceSlashes moduleBaseName)
  if moduleBaseName = [slash] then .ok (slash :: moduleName)
  else if moduleBaseName.getLast? = some slash then .ok (moduleBaseName ++ moduleName)
  else resolve moduleBaseName moduleName

/-- `Module.convertModuleName`; `none` is null. -/
def convertModuleName (moduleBaseName moduleName : Option Text) : Except JavaError (Option Text) :=
  match moduleName with
  | none => .ok none
  | some [] => .ok (some [])
  | some name =>
    match stripCurrent (replaceSlashes name) with
    | [] => .error .stringIndexOutOfBounds
    | c :: rest =>
      if c = slash then .ok (some (c :: rest))
      else
        match moduleBaseName with
        | none | some [] => .ok (some (c :: rest))
        | some base => (convertRelative base (c :: rest)).map some

/-! ## What it computes -/

/-- The number of leading `..` of a name. -/
def leadingUps (segs : List Text) : Nat := (segs.takeWhile (· = parentSegment)).length

/-- The name without them. -/
def afterUps (segs : List Text) : List Text := segs.dropWhile (· = parentSegment)

theorem climb_eq (pathStack parentStack : List Text) :
    climb pathStack parentStack =
      if leadingUps pathStack ≤ parentStack.length then
        .ok (afterUps pathStack, parentStack.take (parentStack.length - leadingUps pathStack))
      else .error .arrayIndexOutOfBounds := by
  induction pathStack generalizing parentStack with
  | nil =>
    have hups : leadingUps [] = 0 := rfl
    rw [climb, hups, if_pos (Nat.zero_le _), Nat.sub_zero, List.take_length]
    rfl
  | cons tmp pathStack ih =>
    rw [climb]
    by_cases htmp : tmp = parentSegment
    · have hups : leadingUps (tmp :: pathStack) = leadingUps pathStack + 1 := by
        simp [leadingUps, htmp]
      have hafter : afterUps (tmp :: pathStack) = afterUps pathStack := by
        simp [afterUps, htmp]
      rw [if_pos htmp, hups, hafter]
      by_cases hparent : parentStack = []
      · have hlen : ¬ leadingUps pathStack + 1 ≤ parentStack.length := by
          rw [hparent]
          exact Nat.not_succ_le_zero _
        rw [if_pos hparent, if_neg hlen]
      · have hlen : 0 < parentStack.length := List.length_pos_of_ne_nil hparent
        rw [if_neg hparent, ih, List.length_dropLast]
        by_cases hle : leadingUps pathStack + 1 ≤ parentStack.length
        · have hsub : parentStack.length - 1 - leadingUps pathStack =
              parentStack.length - (leadingUps pathStack + 1) := by omega
          rw [if_pos (by omega), if_pos hle, List.dropLast_eq_take, List.take_take, hsub,
            Nat.min_eq_left (by omega)]
        · rw [if_neg (by omega), if_neg hle]
    · have hups : leadingUps (tmp :: pathStack) = 0 := by
        simp [leadingUps, htmp]
      have hafter : afterUps (tmp :: pathStack) = tmp :: pathStack := by
        simp [afterUps, htmp]
      rw [if_neg htmp, hups, hafter, if_pos (Nat.zero_le _), Nat.sub_zero, List.take_length]

theorem flatMap_slash_of_ne_nil {segs : List Text} (hne : segs ≠ []) :
    segs.flatMap (fun it => it ++ [slash]) = join segs ++ [slash] := by
  induction segs with
  | nil => exact absurd rfl hne
  | cons a segs ih =>
    by_cases hsegs : segs = []
    · rw [hsegs]
      simp [join]
    · rw [List.flatMap_cons, ih hsegs, join, join, List.intercalate_cons_of_ne_nil hsegs,
        List.append_assoc (a ++ [slash])]

/-- What is left of the directory of the base, one more segment gone for each leading `..`. -/
def kept (moduleBaseName : Text) (ups : Nat) : List Text :=
  (split moduleBaseName).take ((split moduleBaseName).length - ups - 1)

theorem resolve_eq (moduleBaseName moduleName : Text) :
    resolve moduleBaseName moduleName =
      if leadingUps (split moduleName) ≤ (split moduleBaseName).length then
        deleteLast (build (moduleBaseName.head? = some slash)
          (kept moduleBaseName (leadingUps (split moduleName))) (afterUps (split moduleName)))
      else .error .arrayIndexOutOfBounds := by
  unfold resolve
  rw [climb_eq]
  by_cases hle : leadingUps (split moduleName) ≤ (split moduleBaseName).length
  · rw [if_pos hle, if_pos hle]
    show deleteLast (build _ (List.dropLast _) _) = _
    rw [List.dropLast_eq_take, List.take_take, List.length_take, kept,
      Nat.min_eq_left (Nat.sub_le _ _), Nat.min_eq_left (Nat.sub_le _ _)]
  · rw [if_neg hle, if_neg hle]
    rfl

theorem deleteLast_build {parentStack pathStack : List Text} (absolute : Bool)
    (hne : parentStack ++ pathStack ≠ []) :
    deleteLast (build absolute parentStack pathStack) =
      .ok ((if absolute then [slash] else []) ++ join (parentStack ++ pathStack)) := by
  unfold build
  rw [flatMap_slash_of_ne_nil hne, ← List.append_assoc, deleteLast, if_neg (by simp), List.dropLast_concat]

theorem convertModuleName_some (moduleBaseName : Option Text) {name : Text} (hne : name ≠ []) :
    convertModuleName moduleBaseName (some name) =
      if stripCurrent (replaceSlashes name) = [] then .error .stringIndexOutOfBounds
      else if (stripCurrent (replaceSlashes name)).head? = some slash ∨ moduleBaseName = none ∨
          moduleBaseName = some [] then
        .ok (some (stripCurrent (replaceSlashes name)))
      else (convertRelative (moduleBaseName.getD []) (stripCurrent (replaceSlashes name))).map some := by
  cases name with
  | nil => exact absurd rfl hne
  | cons d ds =>
    unfold convertModuleName
    dsimp only
    generalize stripCurrent (replaceSlashes (d :: ds)) = read
    cases read with
    | nil => rfl
    | cons c rest =>
      by_cases hc : c = slash
      · simp [hc]
      · match moduleBaseName with
        | none => simp [hc]
        | some [] => simp [hc]
        | some (b :: bs) => simp [hc]

/-- The code units of a string literal without supplementary characters. -/
def text (s : List Char) : Text := s.map fun c => UInt16.ofNat c.toNat

example : convertModuleName (some (text ['a', '/', 'b'])) (some (text ['.', '/', 'c'])) =
    .ok (some (text ['a', '/', 'c'])) := by decide

end QuickJSBridge.ModuleNames
