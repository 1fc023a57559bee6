import Reserved.TokenKind
import Reserved.Text.Quoted
import Reserved.Text.Utf8
import Reserved.Files.Error

/-!
# What is wrong with a keyword file
-/

namespace Reserved

/-- Why a keyword file gives no text. -/
inductive ReadFault
  | file (e : FileError)
  | notUtf8 (f : Utf8.Fault)
  deriving DecidableEq, Repr

def ReadFault.message : ReadFault → String
  | file e => e.message
  | notUtf8 f => f.message

inductive SpecError
  | read (path : String) (fault : ReadFault)
  | malformed (line : Nat) (text : String)
  | illegalKeyword (line : Nat) (keyword : String)
  | unknownTokenKind (line : Nat) (name : String)
  | sentinelKind (line : Nat) (keyword : String) (kind : TokenKind)
  | duplicate (line : Nat) (firstLine : Nat) (keyword : String)
  | empty
  deriving DecidableEq, Repr

namespace SpecError

def message : SpecError → String
  | read path fault => s!"failed to read keyword spec {path}: {fault.message}"
  | malformed line text =>
    s!"line {line}: expected `<keyword>, <TokenKind>`, got {quote text}"
  | illegalKeyword line keyword => s!"line {line}: {quote keyword} is not a valid identifier"
  | unknownTokenKind line name => s!"line {line}: unknown token kind `{name}`"
  | sentinelKind line keyword kind =>
    s!"line {line}: keyword {quote keyword} maps to the identifier sentinel `{kind.name}`"
  | duplicate line firstLine keyword =>
    s!"line {line}: duplicate keyword {quote keyword} (first defined on line {firstLine})"
  | empty => "keyword spec defines no keywords"

/-- The error an error was raised for, if there is one. -/
def source? : SpecError → Option String
  | read _ fault => some fault.message
  | _ => none

end SpecError

end Reserved
