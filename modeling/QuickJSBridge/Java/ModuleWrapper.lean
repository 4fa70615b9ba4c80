import Mathlib
import QuickJSBridge.Engine.Separation

/-!
# The module wrapper and the text of a module

`executeModuleScript` puts the text of a module into `MODULE_SCRIPT_WRAPPER` and evaluates the result as a script.
The wrapper writes a space on both sides of the text, and no line feed.

* `wrapper_eq` — the wrapped text: head, space, source, space, tail;
* `run_tail`, `run_tail_of_comment` — the tail is read as its tokens, or it is part of a line comment;
* `tokens_wrapper` — the tokens of the wrapped text;
* `tokens_wrapper_iff` — they are those of the three parts exactly if the source ends outside a line comment
  and does not begin with `#!`;
* `tokens_wrapper_of_lineFeed` — as for every source whose last line is ended.
-/

namespace QuickJSBridge.ModuleWrapper

open Scan Lexer

/-! ## The wrapped text -/

/-- `String.replace`, after `skip` more units of an occurrence. -/
def replace (target replacement : Text) : Nat → Text → Text
  | _, [] => []
  | skip + 1, _ :: s => replace target replacement skip s
  | 0, c :: s =>
    if target.isPrefixOf (c :: s) then replacement ++ replace target replacement (target.length - 1) s
    else c :: replace target replacement 0 s

def moduleScriptWrapper : Text :=
  asciis "(function () \x7bvar module = \x7b exports: \x7b\x7d, children: [] \x7d; #CODE ; return module;\x7d)();"

/-- The script that `executeModuleScript` evaluates for the text `source`. -/
def wrapper (source : Text) : Text := replace (asciis "#CODE") source 0 moduleScriptWrapper

def headText : Text := asciis "(function () \x7bvar module = \x7b exports: \x7b\x7d, children: [] \x7d;"

def tailText : Text := asciis "; return module;\x7d)();"

theorem wrapper_eq (source : Text) : wrapper source = headText ++ space :: (source ++ space :: tailText) := by
  cbv

/-! ## The tokens of the wrapper -/

def word (kind : Kind) (s : String) : Token := ⟨kind, asciis s⟩

def headTokens : List Token :=
  [word .punctuator "(", word .ident "function", word .punctuator "(", word .punctuator ")", word .punctuator "\x7b",
    word .ident "var", word .ident "module", word .punctuator "=", word .punctuator "\x7b", word .ident "exports",
    word .punctuator ":", word .punctuator "\x7b", word .punctuator "\x7d", word .punctuator ",",
    word .ident "children", word .punctuator ":", word .punctuator "[", word .punctuator "]", word .punctuator "\x7d",
    word .punctuator ";"]

def tailTokens : List Token :=
  [word .punctuator ";", word .ident "return", word .ident "module", word .punctuator ";", word .punctuator "\x7d",
    word .punctuator ")", word .punctuator "(", word .punctuator ")", word .punctuator ";"]

/-- The head as the parser has met it when the text of the module begins. -/
def headLexemes : List Lexeme := headTokens.map fun token => ⟨token, false⟩

/-- The lexer after the head: inside the body of the function. -/
def afterHead : State := ⟨headLexemes, [.plain], false, false, false⟩

theorem run_headText (U : Unicode) (P : Parser) : run (next U P) 0 .start headText = some afterHead := by
  cbv

theorem run_tailText (U : Unicode) (P : Parser) (gotLf newLine : Bool) :
    (run (next U P) 0 ⟨[], [], gotLf, newLine, false⟩ tailText).map State.tokens = some tailTokens := by
  cbv

/-! ## Between the parts -/

section

variable {U : Unicode} {P : Parser} {s : State}

/-- A unit of a line comment leaves the lexer as it is. -/
theorem next_comment (hs : s.comment = true) {c : UInt16} (hc : isNewLine c = false) (r : Text) :
    next U P s c r = some (s, 0) := by
  simp only [isNewLine, Bool.or_eq_false_iff, beq_eq_false_iff_ne] at hc
  obtain ⟨⟨hlf, hcr⟩, hsep⟩ := hc
  have hitem : commentItem c = .comment := by simp [commentItem, hsep]
  have htake : s.take (c :: r.take 0) .comment = s := by
    obtain ⟨lexemes, braces, gotLf, newLine, comment⟩ := s
    cases hs
    rfl
  rw [next, classify, if_neg hcr, if_neg hlf, if_pos hs, hitem, Option.map_some, htake]

theorem next_space (r : Text) : next U P s space r = some (s, 0) := by
  cases hs : s.comment with
  | true => exact next_comment hs (by decide) r
  | false =>
    obtain ⟨lexemes, braces, gotLf, newLine, comment⟩ := s
    cases hs
    rfl

theorem run_space (t : Text) : run (next U P) 0 s (space :: t) = run (next U P) 0 s t := by
  rw [run_zero_cons, next_space]
  rfl

/-- The rest of a line inside a line comment. -/
theorem run_comment (hs : s.comment = true) {t : Text} (ht : t.any isNewLine = false) :
    run (next U P) 0 s t = some s := by
  induction t with
  | nil => rfl
  | cons c t ih =>
    rw [List.any_cons, Bool.or_eq_false_iff] at ht
    rw [run_zero_cons, next_comment hs ht.1]
    exact ih ht.2

theorem run_tail_of_comment (hs : s.comment = true) : run (next U P) 0 s tailText = some s :=
  run_comment hs (by decide +kernel)

/-- The tail after a text that leaves no template and no comment open. -/
theorem run_tail (hclosed : s.Closed) (hcomment : s.comment = false) :
    ∃ x, run (next U P) 0 s tailText = some x ∧ x.tokens = s.tokens ++ tailTokens := by
  have hfollows : Follows s.lexemes ⟨[], [], s.gotLf, s.newLine, false⟩ s :=
    ⟨(List.append_nil _).symm, ⟨s.braces.length, hclosed.braces_eq⟩, rfl, rfl, hcomment⟩
  obtain ⟨y, hy, htokens⟩ := Option.map_eq_some_iff.mp (run_tailText U (P.after s.lexemes) s.gotLf s.newLine)
  obtain ⟨x, hx, hxy⟩ := hfollows.run hy
  refine ⟨x, hx, ?_⟩
  rw [State.tokens, hxy.lexemes, List.map_append, ← htokens]
  rfl

end

/-! ## The wrapped text as a script -/

/-- The text begins with the characters that `skip_shebang` looks for. -/
def isShebang (s : Text) : Bool := (asciis "#!").isPrefixOf s

theorem skipShebang_of_not {s : Text} (h : isShebang s = false) : skipShebang s = s := by
  rw [isShebang] at h
  rw [skipShebang, h]
  rfl

section

variable {U : Unicode} {P : Parser} {source : Text} {s : State}

/-- The source is read where the head has ended, and the tail where the source has. -/
theorem read_wrapper (U : Unicode) (P : Parser) (source : Text) :
    readScript U P (wrapper source) = run (next U P) 0 afterHead (source ++ space :: tailText) := by
  have hskip : skipShebang (headText ++ space :: (source ++ space :: tailText)) =
      headText ++ space :: (source ++ space :: tailText) := rfl
  rw [readScript, wrapper_eq, hskip, run_append (local_next U P) _ (Nat.zero_le _) (run_headText U P), run_space]

theorem follows_afterHead : Follows headLexemes .start afterHead :=
  ⟨rfl, ⟨1, rfl⟩, rfl, rfl, rfl⟩

/-- A source that is no script with a first line `#!` goes through the states that it goes through by itself. -/
theorem read_wrapper_of_read (hread : readScript U (P.after headLexemes) source = some s)
    (hshebang : isShebang source = false) :
    ∃ x, Follows headLexemes s x ∧ readScript U P (wrapper source) = run (next U P) 0 x tailText := by
  rw [readScript, skipShebang_of_not hshebang] at hread
  obtain ⟨x, hx, hfollows⟩ := follows_afterHead.run hread
  refine ⟨x, hfollows, ?_⟩
  rw [read_wrapper, run_append (local_next U P) _ (Nat.zero_le _) hx, run_space]

theorem tokens_of_follows {x : State} (h : Follows headLexemes s x) : x.tokens = headTokens ++ s.tokens := by
  rw [State.tokens, h.lexemes, List.map_append]
  rfl

theorem tokens_wrapper (hread : readScript U (P.after headLexemes) source = some s) (hclosed : s.Closed)
    (hshebang : isShebang source = false) (hcomment : s.comment = false) :
    tokens U P (wrapper source) = some (headTokens ++ s.tokens ++ tailTokens) := by
  obtain ⟨x, hx, heq⟩ := read_wrapper_of_read hread hshebang
  obtain ⟨y, hy, htokens⟩ := run_tail (U := U) (P := P) (hx.closed hclosed) (hx.comment.trans hcomment)
  rw [tokens, heq, hy, Option.map_some, htokens, tokens_of_follows hx]

/-- A line comment at the end of the source takes the whole tail. -/
theorem tokens_wrapper_of_comment (hread : readScript U (P.after headLexemes) source = some s)
    (hshebang : isShebang source = false) (hcomment : s.comment = true) :
    tokens U P (wrapper source) = some (headTokens ++ s.tokens) := by
  obtain ⟨x, hx, heq⟩ := read_wrapper_of_read hread hshebang
  rw [tokens, heq, run_tail_of_comment (hx.comment.trans hcomment), Option.map_some, tokens_of_follows hx]

/-- Behind the head, `#!` is a private name without a name. -/
theorem tokens_wrapper_of_shebang (hshebang : isShebang source = true) : tokens U P (wrapper source) = none := by
  obtain ⟨rest, rfl⟩ := List.isPrefixOf_iff_prefix.mp hshebang
  have hnext : next U P afterHead (ascii '#') (ascii '!' :: (rest ++ space :: tailText)) = none := rfl
  have hrun : run (next U P) 0 afterHead (asciis "#!" ++ rest ++ space :: tailText) = none := by
    rw [List.append_assoc]
    exact run_cons_of_none hnext
  rw [tokens, read_wrapper, hrun]
  rfl

/-- For a source that is closed by itself, the wrapped text consists of the tokens of the head, of the source and of
the tail exactly if the source does not begin with `#!` and does not end inside a line comment. -/
theorem tokens_wrapper_iff (hread : readScript U (P.after headLexemes) source = some s) (hclosed : s.Closed) :
    tokens U P (wrapper source) = some (headTokens ++ s.tokens ++ tailTokens) ↔
      isShebang source = false ∧ s.comment = false := by
  constructor
  · intro h
    cases hshebang : isShebang source with
    | true =>
      rw [tokens_wrapper_of_shebang hshebang] at h
      cases h
    | false =>
      refine ⟨rfl, ?_⟩
      cases hcomment : s.comment with
      | false => rfl
      | true =>
        rw [tokens_wrapper_of_comment hread hshebang hcomment] at h
        have htail : tailTokens = [] := by simpa using h
        cases htail
  · intro h
    exact tokens_wrapper hread hclosed h.1 h.2

/-- No character beyond ASCII, no slash that could begin a regular expression, and no strict code. -/
def plainUnicode : Unicode := ⟨fun _ => false, fun _ => false⟩

def plainParser : Parser := ⟨fun _ => false, fun _ => false⟩

/-- The tokens of `exports.a = 1`. -/
def assignment : List Token :=
  [word .ident "exports", word .punctuator ".", word .ident "a", word .punctuator "=", word .number "1"]

theorem tokens_wrapper_iff_assignment :
    tokens plainUnicode plainParser (wrapper (asciis "exports.a = 1")) =
      some (headTokens ++ assignment ++ tailTokens) := by
  have hread : readScript plainUnicode (plainParser.after headLexemes) (asciis "exports.a = 1") =
      some ⟨assignment.map (⟨·, false⟩), [], false, false, false⟩ := by decide +kernel
  exact (tokens_wrapper_iff hread (by decide)).mpr ⟨by decide +kernel, rfl⟩

/-- A last line like the reference to a source map that a bundler writes. -/
theorem not_tokens_wrapper : ¬ ∀ (U : Unicode) (P : Parser) (source : Text) (s : State),
    readScript U (P.after headLexemes) source = some s → s.Closed →
      tokens U P (wrapper source) = some (headTokens ++ s.tokens ++ tailTokens) := by
  intro h
  have hread : readScript plainUnicode (plainParser.after headLexemes) (asciis "exports.a = 1 //# a.map") =
      some ⟨assignment.map (⟨·, false⟩), [], false, false, true⟩ := by decide +kernel
  have htokens := h plainUnicode plainParser _ _ hread (by decide)
  rw [tokens_wrapper_of_comment hread (by decide +kernel) rfl] at htokens
  exact absurd htokens (by decide +kernel)

/-- Only a unit of a line comment leaves a comment open, and it is an item by itself. -/
theorem comment_of_next {c : UInt16} {r : Text} {x : State} {n : Nat} (h : next U P s c r = some (x, n)) :
    n = 0 ∨ x.comment = false := by
  obtain ⟨y, hy, heq⟩ := Option.map_eq_some_iff.mp h
  cases heq
  have hzero : ∀ {item : Item} {q : Prop}, some (item, 0) = some y → y.2 = 0 ∨ q := by
    intro item q h
    cases h
    exact Or.inl rfl
  rw [classify] at hy
  -- a carriage return with its line feed
  refine of_ite hy (fun _ h => ?_) fun _ h => ?_
  · cases h
    exact Or.inr rfl
  refine of_ite h (fun _ h => hzero h) fun _ h => ?_
  refine of_ite h (fun _ h => hzero h) fun hcomment h => ?_
  have hcomment : s.comment = false := Bool.eq_false_iff.mpr hcomment
  refine of_ite h (fun _ h => hzero h) fun _ h => ?_
  refine of_ite h (fun _ h => hzero h) fun _ h => ?_
  -- a block comment
  refine of_ite h (fun _ h => ?_) fun _ h => ?_
  · obtain ⟨m, -, rfl⟩ := Option.map_eq_some_iff.mp h
    exact Or.inr hcomment
  refine of_ite h (fun _ h => hzero h) fun _ h => ?_
  refine of_ite h (fun _ h => hzero h) fun _ h => ?_
  refine of_ite h (fun _ h => hzero h) fun _ h => ?_
  obtain ⟨z, -, rfl⟩ := Option.map_eq_some_iff.mp h
  exact Or.inr hcomment

/-- Induction on the text, one item or one unit of an item at a time: the line feed is an item, or it belongs to one
that is no line comment. -/
theorem comment_of_run_lineFeed {text : Text} {k : Nat} {x : State} (hk : k = 0 ∨ s.comment = false)
    (h : run (next U P) k s (text ++ [lineFeed]) = some x) : x.comment = false := by
  induction text generalizing k s with
  | nil =>
    cases k with
    | zero =>
      have hlf : next U P s lineFeed [] = some (s.take [lineFeed] .newLine, 0) := rfl
      rw [List.nil_append, run_zero_cons, hlf] at h
      cases h
      rfl
    | succ k =>
      rw [List.nil_append, run, run_nil] at h
      cases h
      exact hk.resolve_left (Nat.succ_ne_zero k)
  | cons c text ih =>
    cases k with
    | zero =>
      rw [List.cons_append, run_zero_cons] at h
      obtain ⟨y, hy, h⟩ := Option.bind_eq_some_iff.mp h
      exact ih (comment_of_next hy) h
    | succ k => exact ih (Or.inr (hk.resolve_left (Nat.succ_ne_zero k))) h

theorem tokens_wrapper_of_lineFeed (hread : readScript U (P.after headLexemes) (source ++ [lineFeed]) = some s)
    (hclosed : s.Closed) (hshebang : isShebang (source ++ [lineFeed]) = false) :
    tokens U P (wrapper (source ++ [lineFeed])) = some (headTokens ++ s.tokens ++ tailTokens) := by
  have hrun := hread
  rw [readScript, skipShebang_of_not hshebang] at hrun
  exact tokens_wrapper hread hclosed hshebang (comment_of_run_lineFeed (Or.inl rfl) hrun)

end

end QuickJSBridge.ModuleWrapper
