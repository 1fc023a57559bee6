/-!
# Token kinds

The kinds a scanner gives to lexemes. A keyword file may name any of them but the
sentinel `ident`, which is what every lookup answers for a word that is not a keyword.
-/

namespace Reserved

inductive TokenKind
  | ident
  | num
  | defWord
  | externWord
  | ifWord
  | thenWord
  | elseWord
  | forWord
  | inWord
  | whileWord
  | returnWord
  | letWord
  | trueWord
  | falseWord
  | lparen
  | rparen
  | comma
  | semi
  | plus
  | minus
  | star
  | slash
  | lt
  | gt
  | assign
  | eof
  | invalid
  deriving DecidableEq, Repr, Inhabited

namespace TokenKind

/-- Every kind, in declaration order. -/
def all : List TokenKind :=
  [ident, num, defWord, externWord, ifWord, thenWord, elseWord, forWord, inWord, whileWord,
    returnWord, letWord, trueWord, falseWord, lparen, rparen, comma, semi, plus, minus, star,
    slash, lt, gt, assign, eof, invalid]

/-- The name of a kind, as keyword files, tables and messages write it. -/
def name : TokenKind → String
  | ident => "Ident"
  | num => "Num"
  | defWord => "Def"
  | externWord => "Extern"
  | ifWord => "If"
  | thenWord => "Then"
  | elseWord => "Else"
  | forWord => "For"
  | inWord => "In"
  | whileWord => "While"
  | returnWord => "Return"
  | letWord => "Let"
  | trueWord => "True"
  | falseWord => "False"
  | lparen => "LParen"
  | rparen => "RParen"
  | comma => "Comma"
  | semi => "Semi"
  | plus => "Plus"
  | minus => "Minus"
  | star => "Star"
  | slash => "Slash"
  | lt => "Lt"
  | gt => "Gt"
  | assign => "Assign"
  | eof => "Eof"
  | invalid => "Invalid"

/-- The number of a kind: kinds are numbered from one in declaration order. -/
def number (k : TokenKind) : Nat :=
  k.ctorIdx + 1

/-- The kind with this very name. -/
def ofName? (name : String) : Option TokenKind :=
  all.find? fun k => k.name == name

/-- What a lookup answers for anything that is not a keyword. -/
def sentinel : TokenKind := ident

instance : ToString TokenKind := ⟨name⟩

theorem name_injective {a b : TokenKind} (h : a.name = b.name) : a = b := by
  revert h
  cases a <;> cases b <;> decide

theorem ofName?_name (k : TokenKind) : ofName? k.name = some k := by
  cases k <;> decide

end TokenKind

end Reserved
