import QuickJSBridge.Lib.Scan
import QuickJSBridge.Engine.Strings

/-!
# Reading source text into tokens

`next_token` of `quickjs.c`, for a script: the text arrives as Modified UTF-8, so every code unit of the Java
string is one character of the source, and U+0000 is an invalid sequence (`unicodeFromUtf8_modifiedOctets`). What
the parser tells the lexer is a parameter: whether a `/` begins a regular expression and whether the code is
strict. Braces of a template are matched here, as `js_parse_template` does.

* `token` — the token that begins with a character, by the scanners of strings, templates, regular expressions,
  identifiers, numbers and punctuators;
* `next` — one step: a blank, a line terminator, a unit of a line comment, a block comment or a token;
* `readScript` — the state at the end of a script, with the tokens so far, the open braces and whether the text ends
  inside a line comment.
-/

namespace QuickJSBridge.Lexer

open Scan CodeUnits

/-- A character of the source as a code unit. -/
def ascii (c : Char) : UInt16 := UInt16.ofNat c.toNat

def asciis (s : String) : Text := s.toList.map ascii

/-- The separator of the results below. -/
def space : UInt16 := ascii ' '

/-- Each unit of the text is one character of the source. Only U+0000, which is two octets, is an error. -/
theorem unicodeFromUtf8_modifiedOctets (c : UInt16) (rest : List Nat) :
    unicodeFromUtf8 (modifiedOctets c ++ rest) = if c.toNat = 0 then none else some (c.toNat, rest) := by
  cases hc : decide (c.toNat = 0) with
  | true =>
    have hc := of_decide_eq_true hc
    simp [modifiedOctets, unicodeFromUtf8, continuations, readContinuations, utf8FirstCode, utf8MinCode, isCont, hc]
  | false =>
    have hc := of_decide_eq_false hc
    rw [modifiedOctets_eq_unitOctets hc, unicodeFromUtf8_unitOctets, if_neg hc]

/-! ## Characters -/

def lineFeed : UInt16 := ascii '\n'

def carriageReturn : UInt16 := ascii '\r'

def backslash : UInt16 := ascii '\\'

def backquote : UInt16 := ascii '\x60'

def openBrace : UInt16 := ascii '\x7b'

def closeBrace : UInt16 := ascii '\x7d'

/-- `CP_LS` and `CP_PS` -/
def isSeparator (c : UInt16) : Bool := c == 0x2028 || c == 0x2029

def isNewLine (c : UInt16) : Bool := c == lineFeed || c == carriageReturn || isSeparator c

/-- What `next_token` skips one by one: its four cases below 128, and `lre_is_space` for the rest. -/
def isBlank (c : UInt16) : Bool :=
  c == 0x09 || c == 0x0b || c == 0x0c || c == 0x20 || c == 0xa0 || c == 0x1680 || (0x2000 ≤ c && c ≤ 0x200a) ||
    c == 0x202f || c == 0x205f || c == 0x3000 || c == 0xfeff

def isDigit (c : UInt16) : Bool := ascii '0' ≤ c && c ≤ ascii '9'

def isOctal (c : UInt16) : Bool := ascii '0' ≤ c && c ≤ ascii '7'

def toDigit (c : UInt16) : Nat :=
  if isDigit c then c.toNat - (ascii '0').toNat
  else if ascii 'A' ≤ c ∧ c ≤ ascii 'Z' then c.toNat - (ascii 'A').toNat + 10
  else if ascii 'a' ≤ c ∧ c ≤ ascii 'z' then c.toNat - (ascii 'a').toNat + 10
  else 36

/-- `from_hex` -/
def fromHex (c : UInt16) : Option Nat := if toDigit c < 16 then some (toDigit c) else none

/-- `lre_is_id_start` and `lre_is_id_continue`, the tables of `libunicode.c`. -/
structure Unicode where
  isIdStart : Nat → Bool
  isIdContinue : Nat → Bool

/-- `lre_js_is_ident_first`: `$`, `A-Z`, `_`, `a-z` below 128. -/
def identFirst (U : Unicode) (c : Nat) : Bool :=
  if c < 32 then false
  else if c < 64 then Nat.testBit 0x00000010 (c % 32)
  else if c < 96 then Nat.testBit 0x87FFFFFE (c % 32)
  else if c < 128 then Nat.testBit 0x07FFFFFE (c % 32)
  else U.isIdStart c

/-- `lre_js_is_ident_next`: the digits too. -/
def identNext (U : Unicode) (c : Nat) : Bool :=
  if c < 32 then false
  else if c < 64 then Nat.testBit 0x03FF0010 (c % 32)
  else if c < 96 then Nat.testBit 0x87FFFFFE (c % 32)
  else if c < 128 then Nat.testBit 0x07FFFFFE (c % 32)
  else U.isIdContinue c || c == 0x200c || c == 0x200d

/-! ## Escapes -/

/-- The answer of `lre_parse_escape` on the text after a backslash. -/
inductive Escape where
  -- a character and the number of units that write it
  | char (value len : Nat)
  -- -1
  | malformed
  -- -2
  | unknown
  deriving DecidableEq

/-- The value of `n` hexadecimal digits. -/
def hexValue : Nat → Nat → Text → Option Nat
  | 0, v, _ => some v
  | _ + 1, _, [] => none
  | n + 1, v, c :: r => (fromHex c).bind fun h => hexValue n (v * 16 + h) r

/-- The hexadecimal digits after an opening brace: their value and the number of units, the closing brace included. -/
def bracedValue : Nat → Text → Option (Nat × Nat)
  | _, [] => none
  | v, c :: r =>
    (fromHex c).bind fun h =>
      if 0x10ffff < v * 16 + h then none
      else if headIs (· == closeBrace) r then some (v * 16 + h, 2)
      else (bracedValue (v * 16 + h) r).map fun x => (x.1, x.2 + 1)

/-- A legacy octal escape that begins with the digit `c`: its value and its length. -/
def octalEscape (c : UInt16) (r : Text) : Nat × Nat :=
  if headIs isOctal r then
    if 32 ≤ toDigit c * 8 + (r.head?.map toDigit).getD 0 then (toDigit c * 8 + (r.head?.map toDigit).getD 0, 2)
    else if headIs isOctal r.tail then
      ((toDigit c * 8 + (r.head?.map toDigit).getD 0) * 8 + (r.tail.head?.map toDigit).getD 0, 3)
    else (toDigit c * 8 + (r.head?.map toDigit).getD 0, 2)
  else (toDigit c, 1)

/-- The escapes of one letter. -/
def controlEscape (c : UInt16) : Option Nat :=
  if c = ascii 'b' then some 0x08
  else if c = ascii 'f' then some 0x0c
  else if c = ascii 'n' then some 0x0a
  else if c = ascii 'r' then some 0x0d
  else if c = ascii 't' then some 0x09
  else if c = ascii 'v' then some 0x0b
  else none

/-- The escapes by hexadecimal digits, `digits` of them or any number in braces, after the letter. -/
def hexEscape (digits : Nat) : Text → Escape
  | [] => .malformed
  | c :: r =>
    if c = openBrace then
      match bracedValue 0 r with
      | some (v, n) => .char v (n + 2)
      | none => .malformed
    else
      match hexValue digits 0 (c :: r) with
      | some v => .char v (digits + 1)
      | none => .malformed

/-- `lre_parse_escape` with `allow_utf16 = 1` -/
def parseEscape : Text → Escape
  | [] => .unknown
  | c :: r =>
    match controlEscape c with
    | some v => .char v 1
    | none =>
      if c = ascii 'x' then hexEscape 2 r
      else if c = ascii 'u' then hexEscape 4 r
      else if isOctal c then .char (octalEscape c r).1 (octalEscape c r).2
      else .unknown

/-! ## The parts of a text that make one token

Each function counts the units of a token after its first one. -/

/-- `js_parse_string` after a backslash: the units of the escape. -/
def stringEscape (strict : Bool) : Text → Option Nat
  | [] => none
  | c :: r =>
    if c = 0 then none
    else if c = ascii '\'' ∨ c = ascii '"' ∨ c = backslash then some 1
    else if c = carriageReturn then some (if headIs (· == lineFeed) r then 2 else 1)
    else if c = lineFeed then some 1
    else if isDigit c && strict then
      if c == ascii '0' && !headIs isDigit r then some 1 else none
    else if 0x80 ≤ c then some 1
    else
      match parseEscape (c :: r) with
      | .malformed => none
      | .unknown => some 1
      | .char _ n => some n

/-- `js_parse_string` at one unit, after `skip` more units of an escape. -/
def stringStep (strict : Bool) (sep : UInt16) : Nat → UInt16 → Text → Move Nat
  | skip + 1, _, _ => .go skip
  | 0, c, r =>
    if c = lineFeed ∨ c = carriageReturn ∨ c = 0 then .fail
    else if c = sep then .close 1
    else if c = backslash then
      match stringEscape strict r with
      | some n => .go n
      | none => .fail
    else .go 0

/-- A string after the opening quote `sep`. -/
def stringLen (strict : Bool) (sep : UInt16) (r : Text) : Option Nat := upTo (stringStep strict sep) 0 r

/-- `js_parse_template_part` at one unit, which a backslash may stand before. The part ends with the closing quote
or an opening brace after a dollar sign. -/
def templateStep (escaped : Bool) (c : UInt16) (r : Text) : Move Bool :=
  if c = 0 then .fail
  else if escaped then .go false
  else if c = backquote then .close 1
  else if c = ascii '$' ∧ headIs (· == openBrace) r then .close 2
  else if c = backslash then .go true
  else .go false

def templateLen (r : Text) : Option Nat := upTo templateStep false r

/-- The loop of `js_parse_regexp`. -/
structure RegexpState where
  inClass : Bool
  escaped : Bool

def regexpStep (s : RegexpState) (c : UInt16) (_ : Text) : Move RegexpState :=
  if isNewLine c ∨ c = 0 then .fail
  else if s.escaped then .go ⟨s.inClass, false⟩
  else if c = ascii '/' then if s.inClass then .go s else .close 1
  else if c = ascii '[' then .go ⟨true, false⟩
  else if c = ascii ']' then .go ⟨false, false⟩
  else if c = backslash then .go ⟨s.inClass, true⟩
  else .go s

def blockStep (_ : Unit) (c : UInt16) (r : Text) : Move Unit :=
  if c = ascii '*' ∧ headIs (· == ascii '/') r then .close 2 else .go ()

/-- The units after the opening of a block comment. -/
def blockLen (r : Text) : Option Nat := upTo blockStep () r

/-- The flags of a regular expression. -/
def flagsLen (U : Unicode) (r : Text) : Option Nat :=
  let n := spanLen (fun c => identNext U c.toNat) r
  if headIs (· == 0) (r.drop n) then none else some n

/-- `js_parse_regexp` -/
def regexpLen (U : Unicode) (r : Text) : Option Nat :=
  (upTo regexpStep ⟨false, false⟩ r).bind fun n => (flagsLen U (r.drop n)).map (n + ·)

/-- An escape inside an identifier, after the backslash: the character and the units. -/
def unicodeEscape (r : Text) : Option (Nat × Nat) :=
  if headIs (· == ascii 'u') r then
    match parseEscape r with
    | .char v n => some (v, n)
    | _ => none
  else none

/-- `parse_ident`, after `skip` more units of an escape. -/
def identLen (U : Unicode) : Nat → Text → Nat
  | _, [] => 0
  | skip + 1, _ :: r => identLen U skip r + 1
  | 0, c :: r =>
    if c = backslash then
      match unicodeEscape r with
      | some (v, n) => if identNext U v then identLen U n r + 1 else 0
      | none => 0
    else if identNext U c.toNat then identLen U 0 r + 1
    else 0

/-- An identifier that begins with the escape after a backslash. Without a valid one the backslash is a token. -/
def identFrom (U : Unicode) (r : Text) : Option Nat :=
  (unicodeEscape r).bind fun x => if identFirst U x.1 then some (identLen U x.2 r) else none

/-- A private name, after the number sign. -/
def privateLen (U : Unicode) : Text → Option Nat
  | [] => none
  | c :: r =>
    if c = backslash then (identFrom U r).map (· + 1)
    else if identFirst U c.toNat then some (identLen U 0 r + 1)
    else none

/-! ## Numbers

`js_atof2` with the flags of `next_token`. The texts here begin with the number's first unit. -/

def isX (c : UInt16) : Bool := c == ascii 'x' || c == ascii 'X'

def isO (c : UInt16) : Bool := c == ascii 'o' || c == ascii 'O'

def isB (c : UInt16) : Bool := c == ascii 'b' || c == ascii 'B'

def isSign (c : UInt16) : Bool := c == ascii '+' || c == ascii '-'

structure Base where
  -- the units before the digits
  skip : Nat
  radix : Nat
  hasLegacyOctal : Bool
  radix_le : radix ≤ 16

/-- The prefix of a number. `none` is a prefix without a digit after it. -/
def baseOf : Text → Option Base
  | [] => some ⟨0, 10, false, by decide⟩
  | c :: s =>
    if c = ascii '0' then
      if headIs isX s then
        if headsAre isX (toDigit · < 16) s then some ⟨2, 16, false, by decide⟩ else none
      else if headIs isO s then
        if headsAre isO (toDigit · < 8) s then some ⟨2, 8, false, by decide⟩ else none
      else if headIs isB s then
        if headsAre isB (toDigit · < 2) s then some ⟨2, 2, false, by decide⟩ else none
      else if headIs isDigit s then
        if headIs isDigit (s.drop (spanLen isOctal s)) then some ⟨0, 10, true, by decide⟩
        else some ⟨1, 8, true, by decide⟩
      else some ⟨0, 10, false, by decide⟩
    else some ⟨0, 10, false, by decide⟩

/-- Underscores separate digits, except in a legacy octal number. -/
def Base.isSep (b : Base) (c : UInt16) : Bool := c == ascii '_' && !b.hasLegacyOctal

/-- Digits, and separators before a digit. -/
def digitsLen (b : Base) (radix : Nat) : Text → Nat
  | [] => 0
  | c :: s =>
    if toDigit c < radix || (b.isSep c && headIs (toDigit · < radix) s) then digitsLen b radix s + 1 else 0

/-- The digits before the point. A separator does not follow a first zero. -/
def integerLen (b : Base) : Text → Nat
  | [] => 0
  | c :: s =>
    if b.radix = 10 ∧ c = ascii '0' ∧ headIs b.isSep s then 1 else digitsLen b b.radix (c :: s)

/-- The point and the digits after it; `digits` says that there are some before it. -/
def fractionLen (b : Base) (digits : Bool) : Text → Option Nat
  | [] => some 0
  | c :: s =>
    if c = ascii '.' ∧ (digits ∨ headIs (toDigit · < b.radix) s) then
      if headIs b.isSep s then none else some (digitsLen b b.radix s + 1)
    else some 0

/-- The exponent with its sign, and whether there is one. Without a digit it is not part of the number. -/
def exponentLen (b : Base) : Text → Nat × Bool
  | [] => (0, false)
  | c :: s =>
    if (c = ascii 'e' ∨ c = ascii 'E') ∧ b.radix = 10 ∨ (c = ascii 'p' ∨ c = ascii 'P') ∧ b.radix ≠ 10 then
      if headIs isDigit s then (digitsLen b 10 s + 1, true)
      else if headsAre isSign isDigit s then (digitsLen b 10 s.tail + 2, true)
      else (0, true)
    else (0, false)

/-- The suffix of a number: `n` for a big integer. The operations that `l` and `m` need are not installed. -/
def suffixLen (b : Base) (isFloat : Bool) (s : Text) : Option Nat :=
  if headIs (· == ascii 'n') s then if b.hasLegacyOctal || isFloat then none else some 1
  else if headIs (fun c => c == ascii 'l' || c == ascii 'm') s then none
  else if isFloat && b.radix != 10 then none
  else some 0

/-- The digits, point and exponent: their units, and whether there is a point or an exponent. -/
def mantissaLen (b : Base) (s : Text) : Option (Nat × Bool) :=
  (fractionLen b (integerLen b s != 0) (s.drop (integerLen b s))).bind fun fraction =>
    let n := integerLen b s + fraction
    let exponent := exponentLen b (s.drop n)
    if n = 0 then none else some (n + exponent.1, fraction != 0 || exponent.2)

/-- `js_atof2` after the prefix of the number. -/
def atof (b : Base) (s : Text) : Option Nat :=
  (mantissaLen b s).bind fun x => (suffixLen b x.2 (s.drop x.1)).map (x.1 + ·)

/-- A number literal, its first unit included. No character of an identifier may follow it. -/
def numberLen (U : Unicode) (strict : Bool) (s : Text) : Option Nat :=
  if strict && headsAre (· == ascii '0') isDigit s then none
  else
    (baseOf s).bind fun b =>
      (atof b (s.drop b.skip)).bind fun n =>
        if headIs (fun c => identNext U c.toNat) (s.drop (b.skip + n)) then none else some (b.skip + n)

/-! ## Punctuators -/

/-- The punctuators of more than one character, the longest first. -/
def punctuators : List Text :=
  [">>>=", "...", "**=", "<<=", ">>>", ">>=", "===", "!==", "&&=", "^^=", "||=", "??=", "*=", "**", "%=", "+=", "++",
    "-=", "--", "<=", "<<", ">=", ">>", "==", "=>", "!=", "&=", "&&", "^=", "^^", "|=", "||", "??", "?.",
    "/="].map asciis

def punctuatorLen (c : UInt16) (r : Text) : Nat :=
  -- `a?.5:b` is a conditional
  if c == ascii '?' && headsAre (· == ascii '.') isDigit r then 0
  else ((punctuators.find? fun w => w.isPrefixOf (c :: r)).map fun w => w.length - 1).getD 0

/-! ## Tokens and the state of the lexer -/

inductive Kind where
  | ident
  | privateName
  | number
  | string
  | template
  | regexp
  | punctuator
  deriving DecidableEq

/-- A token with the text that writes it. -/
structure Token where
  kind : Kind
  text : Text
  deriving DecidableEq

/-- A token as the parser meets it: `got_lf` says whether a line terminator stands before it. -/
structure Lexeme where
  token : Token
  gotLf : Bool
  deriving DecidableEq

/-- What an open brace belongs to. -/
inductive Brace where
  | plain
  | template
  deriving DecidableEq

/-- What the lexer is told by the parser, from the tokens read so far. -/
structure Parser where
  -- an expression may begin here, so that a slash begins a regular expression
  regexpAllowed : List Lexeme → Bool
  -- `JS_MODE_STRICT`
  strict : List Lexeme → Bool

structure State where
  lexemes : List Lexeme
  braces : List Brace
  gotLf : Bool
  -- `line_num` is another one than that of the last token's start
  newLine : Bool
  -- the last unit is part of a comment that ends with the line
  comment : Bool
  deriving DecidableEq

/-- The state at the start of a text. -/
def State.start : State := ⟨[], [], false, false, false⟩

/-- What the lexer has before it. -/
inductive Item where
  | blank
  | newLine
  -- a unit of a line comment
  | comment
  -- U+2028 or U+2029 in a line comment: it ends the comment and is no line terminator itself
  | commentEnd
  | block
  | token (kind : Kind)

/-- The token of `next_token` that begins with `c`. -/
def token (U : Unicode) (P : Parser) (s : State) (c : UInt16) (r : Text) : Option (Kind × Nat) :=
  if c = ascii '\'' ∨ c = ascii '"' then (stringLen (P.strict s.lexemes) c r).map (Kind.string, ·)
  else if c = backquote ∨ c = closeBrace ∧ s.braces.head? = some .template then
    (templateLen r).map (Kind.template, ·)
  else if c = backslash then
    some (((identFrom U r).map (Kind.ident, ·)).getD (Kind.punctuator, 0))
  else if c = ascii '#' then (privateLen U r).map (Kind.privateName, ·)
  else if isDigit c ∨ c = ascii '.' ∧ headIs isDigit r then
    (numberLen U (P.strict s.lexemes) (c :: r)).map fun n => (Kind.number, n - 1)
  else if identFirst U c.toNat then some (Kind.ident, identLen U 0 r)
  else if c = ascii '/' ∧ P.regexpAllowed s.lexemes then (regexpLen U r).map (Kind.regexp, ·)
  else if c ≠ 0 ∧ c < 0x80 then some (Kind.punctuator, punctuatorLen c r)
  else none

/-- A carriage return takes the line feed that follows. -/
def lineFeedLen (r : Text) : Nat := if headIs (· == lineFeed) r then 1 else 0

/-- A unit of a line comment that is neither a line feed nor a carriage return. -/
def commentItem (c : UInt16) : Item := if isSeparator c then .commentEnd else .comment

/-- What begins with `c`, and how many more units belong to it. -/
def classify (U : Unicode) (P : Parser) (s : State) (c : UInt16) (r : Text) : Option (Item × Nat) :=
  if c = carriageReturn then some (.newLine, lineFeedLen r)
  else if c = lineFeed then some (.newLine, 0)
  else if s.comment then some (commentItem c, 0)
  else if isSeparator c then some (.newLine, 0)
  else if isBlank c then some (.blank, 0)
  else if c == ascii '/' && headIs (· == ascii '*') r then (blockLen r.tail).map fun n => (.block, n + 1)
  else if c == ascii '/' && headIs (· == ascii '/') r then some (.comment, 0)
  -- HTML comments, in scripts
  else if c == ascii '<' && (asciis "!--").isPrefixOf r then some (.comment, 0)
  else if c == ascii '-' && (asciis "->").isPrefixOf r && s.newLine then some (.comment, 0)
  else (token U P s c r).map fun x => (.token x.1, x.2)

/-- The braces that are open after a token. -/
def bracesAfter (braces : List Brace) : Token → List Brace
  | ⟨.template, text⟩ =>
    let outer := if text.head? = some closeBrace then braces.tail else braces
    if text.getLast? = some openBrace then .template :: outer else outer
  | ⟨.punctuator, text⟩ =>
    if text = [openBrace] then .plain :: braces
    else if text = [closeBrace] then braces.tail
    else braces
  | _ => braces

/-- The state after an item with the units `text`. -/
def State.take (s : State) (text : Text) : Item → State
  | .blank => s
  | .newLine => { s with gotLf := true, newLine := true, comment := false }
  | .comment => { s with comment := true }
  | .commentEnd => { s with comment := false }
  | .block =>
    -- all four line terminators count for semicolon insertion, only a line feed for `line_num`
    { s with gotLf := s.gotLf || text.any isNewLine, newLine := s.newLine || text.any (· == lineFeed) }
  | .token kind =>
    { lexemes := s.lexemes ++ [⟨⟨kind, text⟩, s.gotLf⟩]
      braces := bracesAfter s.braces ⟨kind, text⟩
      gotLf := false
      newLine := text.any fun c => c == lineFeed || c == carriageReturn
      comment := s.comment }

/-- One step of the lexer. -/
def next (U : Unicode) (P : Parser) (s : State) (c : UInt16) (r : Text) : Option (State × Nat) :=
  (classify U P s c r).map fun x => (s.take (c :: r.take x.2) x.1, x.2)

/-- `skip_shebang`: a first line that begins with `#!`. The U+2028 or U+2029 that ends it is skipped as well. -/
def skipShebang (s : Text) : Text :=
  if (asciis "#!").isPrefixOf s then
    let rest := s.dropWhile fun c => !isNewLine c
    if headIs isSeparator rest then rest.tail else rest
  else s

/-- The lexer at the end of a script. `none` is a syntax error of the lexer. -/
def readScript (U : Unicode) (P : Parser) (s : Text) : Option State := run (next U P) 0 .start (skipShebang s)

def State.tokens (s : State) : List Token := s.lexemes.map Lexeme.token

/-- The tokens of a script. -/
def tokens (U : Unicode) (P : Parser) (s : Text) : Option (List Token) := (readScript U P s).map State.tokens

/-- Every template is closed: strings, regular expressions and block comments that are not have no reading. -/
def State.Closed (s : State) : Prop := Brace.template ∉ s.braces

instance (s : State) : Decidable s.Closed := inferInstanceAs (Decidable (_ ∉ _))

end QuickJSBridge.Lexer
