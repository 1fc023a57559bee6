import Reserved.Text.Hidden
import Reserved.Text.Numeral

/-!
# Quoted text

Text in double quotes, written so that every character can be told apart: the quote, the
backslash and four controls have escapes of one letter, and a character without a shape is
shown by its number.
-/

namespace Reserved

/-- A character as it stands between quotes. -/
def escapeChar (c : Char) : List Char :=
  if c = '\x00' then ['\\', '0']
  else if c = '\t' then ['\\', 't']
  else if c = '\n' then ['\\', 'n']
  else if c = '\r' then ['\\', 'r']
  else if c = '"' then ['\\', '"']
  else if c = '\\' then ['\\', '\\']
  else if isHidden c then "\\u\x7b".toList ++ Nat.toDigits 16 c.toNat ++ ['}']
  else [c]

def quote (s : String) : String :=
  String.ofList ('"' :: s.toList.flatMap escapeChar ++ ['"'])

/-- A character as it stands in the name of a program that is shown: here the single quote is
escaped too, and controls are shown by two digits. -/
def escapeProgramChar (c : Char) : List Char :=
  if c = '\'' then ['\\', '\'']
  else if (c.toNat < 0x20 ∨ c.toNat = 0x7F) ∧ c ∉ ['\x00', '\t', '\n', '\r'] then
    ['\\', 'x', Nat.digitChar (c.toNat / 16), Nat.digitChar (c.toNat % 16)]
  else escapeChar c

/-- The name of a program, quoted. -/
def quoteProgram (s : String) : String :=
  String.ofList ('"' :: s.toList.flatMap escapeProgramChar ++ ['"'])

end Reserved
