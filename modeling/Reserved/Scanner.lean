import Reserved.Scanner.Keywords
import Reserved.Text.Identifier
import Reserved.Text.Lines

/-!
# The scanner

Splits a text into tokens: words, numbers, punctuation, and a token of its own for every
character that begins nothing. Blanks and comments stand between tokens; a comment runs
from `//` to the end of its line. Positions are counted in bytes.
-/

namespace Reserved

structure Token where
  kind : TokenKind
  /-- Bytes before the token. -/
  start : Nat
  /-- Bytes of the token. -/
  length : Nat
  deriving DecidableEq, Repr

/-- The text of a token, unless an end of it falls inside a character. -/
def Token.lexeme? (t : Token) (src : List Char) : Option (List Char) :=
  Utf8.slice? t.start t.length src

/-- The texts of tokens that stand in the order of their starts. The text is walked through
once: `rest` is what follows its first `done` bytes. -/
def lexemesFrom (src : List Char) (done : Nat) (rest : List Char) :
    List Token → List (Option (List Char))
  | [] => []
  | t :: ts =>
    if done ≤ t.start then
      match Utf8.dropBytes? (t.start - done) rest with
      | some here => Utf8.takeBytes? t.length here :: lexemesFrom src t.start here ts
      | none => none :: lexemesFrom src done rest ts
    else t.lexeme? src :: lexemesFrom src done rest ts

/-- The texts of tokens. -/
def lexemes (src : List Char) (ts : List Token) : List (Option (List Char)) :=
  lexemesFrom src 0 src ts

theorem lexemesFrom_eq_map (src : List Char) (ts : List Token) {done : Nat} {rest : List Char}
    (h : Utf8.dropBytes? done src = some rest) :
    lexemesFrom src done rest ts = ts.map fun t => t.lexeme? src := by
  induction ts generalizing done rest with
  | nil => rfl
  | cons t ts ih =>
    rw [lexemesFrom, List.map_cons]
    split
    · next hle =>
      have hdrop := Utf8.dropBytes?_add (t.start - done) h
      rw [Nat.add_sub_cancel' hle] at hdrop
      split
      · next here hhere =>
        rw [ih (hdrop.trans hhere), Token.lexeme?, Utf8.slice?, hdrop, hhere]
        rfl
      · next hnone =>
        rw [ih h, Token.lexeme?, Utf8.slice?, hdrop, hnone]
        rfl
    · rw [ih h]

/-- Walking through once finds the same texts as looking up each token. -/
theorem lexemes_eq_map (src : List Char) (ts : List Token) :
    lexemes src ts = ts.map fun t => t.lexeme? src :=
  lexemesFrom_eq_map src ts (by cases src <;> rfl)

namespace Scanner

/-- What the scanner takes for white space. -/
def isSpace (c : Char) : Bool :=
  c == ' ' || c == '\t' || c == '\n' || c == '\x0c' || c == '\r'

def isDigit (c : Char) : Bool :=
  '0' ≤ c && c ≤ '9'

/-- The kind of a punctuation character. -/
def punctuation? : Char → Option TokenKind
  | '(' => some .lparen
  | ')' => some .rparen
  | ',' => some .comma
  | ';' => some .semi
  | '+' => some .plus
  | '-' => some .minus
  | '*' => some .star
  | '/' => some .slash
  | '<' => some .lt
  | '>' => some .gt
  | '=' => some .assign
  | _ => none

/-- What stands at the front of a text that is not empty. -/
inductive Item
  /-- White space or a comment of so many characters. -/
  | gap (length : Nat)
  /-- A lexeme and its kind. -/
  | lexeme (text : List Char) (kind : TokenKind)

/-- The number at the front of a text: digits, and a point with digits after it. A point
that no digit follows is not part of it. -/
def numberText (cs : List Char) : List Char :=
  let whole := cs.takeWhile isDigit
  match cs.dropWhile isDigit with
  | '.' :: d :: rest =>
    if isDigit d then whole ++ '.' :: (d :: rest).takeWhile isDigit else whole
  | _ => whole

/-- The item that begins with `c` and continues into `rest`. -/
def item (c : Char) (rest : List Char) : Item :=
  if isSpace c then .gap 1
  else if c = '/' ∧ rest.head? = some '/' then
    .gap ((c :: rest).takeWhile (· ≠ '\n')).length
  else if isWordStart c then
    let word := (c :: rest).takeWhile isWordPart
    .lexeme word (classify (Utf8.encode word))
  else if isDigit c then .lexeme (numberText (c :: rest)) .num
  else
    match punctuation? c with
    | some kind => .lexeme [c] kind
    | none => .lexeme [c] .invalid

/-- The tokens of a text that begins at byte `start` and whose first `skip` characters
belong to an item already found. -/
def scan : Nat → Nat → List Char → List Token
  | _, start, [] => [⟨.eof, start, 0⟩]
  | skip + 1, start, c :: rest => scan skip (start + Utf8.width c) rest
  | 0, start, c :: rest =>
    match item c rest with
    | .gap length => scan (length - 1) (start + Utf8.width c) rest
    | .lexeme text kind =>
      ⟨kind, start, Utf8.size text⟩ :: scan (text.length - 1) (start + Utf8.width c) rest

end Scanner

/-- The tokens of a text, the last of which marks its end. -/
def lex (src : List Char) : List Token :=
  Scanner.scan 0 0 src

end Reserved
