/-!
# Numerals

Unsigned numbers as digits in some base, with a sign if it is a plus. A numeral is read
from left to right, and the first digit that is none or that makes the number too large
decides what is wrong with it.
-/

namespace Reserved

namespace Numeral

inductive Error
  | empty
  | invalidDigit
  | tooLarge
  deriving DecidableEq, Repr

def Error.message : Error → String
  | .empty => "cannot parse integer from empty string"
  | .invalidDigit => "invalid digit found in string"
  | .tooLarge => "number too large to fit in target type"

/-- The value of a digit in any base up to sixteen. -/
def digit? (base : Nat) (c : Char) : Option Nat :=
  let value? :=
    if '0' ≤ c ∧ c ≤ '9' then some (c.toNat - '0'.toNat)
    else if 'a' ≤ c ∧ c ≤ 'f' then some (c.toNat - 'a'.toNat + 10)
    else if 'A' ≤ c ∧ c ≤ 'F' then some (c.toNat - 'A'.toNat + 10)
    else none
  value?.filter (· < base)

/-- Reads digits on top of what has been read before them. -/
def readDigits (base limit : Nat) (soFar : Nat) : List Char → Except Error Nat
  | [] => .ok soFar
  | c :: rest =>
    match digit? base c with
    | none => .error .invalidDigit
    | some d =>
      let n := soFar * base + d
      if limit ≤ n then .error .tooLarge else readDigits base limit n rest

/-- The number below `limit` that a numeral stands for. -/
def read (base limit : Nat) (cs : List Char) : Except Error Nat :=
  match cs with
  | [] => .error .empty
  | ['+'] => .error .invalidDigit
  | '+' :: digits => readDigits base limit 0 digits
  | digits => readDigits base limit 0 digits

end Numeral

/-- A number in hexadecimal digits, without leading zeros. -/
def hex (n : Nat) : String :=
  String.ofList ('0' :: 'x' :: Nat.toDigits 16 n)

/-- A word in sixteen hexadecimal digits. -/
def hexWord (n : UInt64) : String :=
  let digits := Nat.toDigits 16 n.toNat
  String.ofList ('0' :: 'x' :: List.replicate (16 - digits.length) '0' ++ digits)

end Reserved
