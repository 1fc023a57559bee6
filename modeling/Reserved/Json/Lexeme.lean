import Reserved.Json.Error
import Reserved.Decimal.Shortest
import Reserved.Text.Utf8

/-!
# The lexemes of JSON

Readers for blanks, words, strings and numbers. A reader takes a value off the front of a
byte sequence and answers it with what is left.

An integer is kept whole while it fits 64 bits. What does not fit, or has a fraction or an
exponent, is a floating-point number.
-/

namespace Reserved.Json

/-- Takes a value off the front of the input. -/
abbrev Reader (α : Type) := List UInt8 → Except Error (α × List UInt8)

def isBlank (b : UInt8) : Bool :=
  b == ' '.toUInt8 || b == '\n'.toUInt8 || b == '\t'.toUInt8 || b == '\r'.toUInt8

def skipBlanks (cs : List UInt8) : List UInt8 :=
  cs.dropWhile isBlank

/-- The bytes of `word`, which must stand next. -/
def expectWord (word : List Char) (cs : List UInt8) : Except Error (List UInt8) :=
  match word, cs with
  | [], cs => .ok cs
  | _ :: _, [] => .error .endInValue
  | c :: word, b :: rest => if b = c.toUInt8 then expectWord word rest else .error .expectedWord

/-! ## Strings -/

def hexDigit? (b : UInt8) : Option Nat :=
  if '0'.toUInt8 ≤ b ∧ b ≤ '9'.toUInt8 then some (b.toNat - 48)
  else if 'a'.toUInt8 ≤ b ∧ b ≤ 'f'.toUInt8 then some (b.toNat - 87)
  else if 'A'.toUInt8 ≤ b ∧ b ≤ 'F'.toUInt8 then some (b.toNat - 55)
  else none

/-- The number that the first four bytes spell as hexadecimal digits. -/
def hexUnit : List UInt8 → Except Error Nat
  | a :: b :: c :: d :: _ =>
    match hexDigit? a, hexDigit? b, hexDigit? c, hexDigit? d with
    | some a, some b, some c, some d => .ok (((a * 16 + b) * 16 + c) * 16 + d)
    | _, _, _, _ => .error .invalidEscape
  | _ => .error .endInString

/-- The byte an escape of one letter stands for. -/
def shortEscape? (b : UInt8) : Option UInt8 :=
  if b = '"'.toUInt8 then some 0x22
  else if b = '\\'.toUInt8 then some 0x5C
  else if b = '/'.toUInt8 then some 0x2F
  else if b = 'b'.toUInt8 then some 0x08
  else if b = 'f'.toUInt8 then some 0x0C
  else if b = 'n'.toUInt8 then some 0x0A
  else if b = 'r'.toUInt8 then some 0x0D
  else if b = 't'.toUInt8 then some 0x09
  else none

/-- The second half of a pair of escapes, for the code point of which `high` is the first. -/
def lowHalf (high : Nat) : List UInt8 → Except Error Nat
  | [] => .error .endInString
  | [b] => if b = '\\'.toUInt8 then .error .endInString else .error .unpairedEscape
  | b :: u :: rest =>
    if b = '\\'.toUInt8 ∧ u = 'u'.toUInt8 then
      match hexUnit rest with
      | .error e => .error e
      | .ok low =>
        if 0xDC00 ≤ low ∧ low ≤ 0xDFFF then
          .ok (0x10000 + (high - 0xD800) * 0x400 + (low - 0xDC00))
        else .error .loneSurrogate
    else .error .unpairedEscape

/-- The code point after `\u`, and how many bytes spell it: one unit of UTF-16, or two that
form a pair. -/
def codePoint (cs : List UInt8) : Except Error (Nat × Nat) :=
  match hexUnit cs with
  | .error e => .error e
  | .ok n =>
    if 0xDC00 ≤ n ∧ n ≤ 0xDFFF then .error .loneSurrogate
    else if 0xD800 ≤ n ∧ n ≤ 0xDBFF then (lowHalf n (cs.drop 4)).map fun c => (c, 10)
    else .ok (n, 4)

/-- The bytes an escape stands for, and how many bytes spell it after its backslash. -/
def escape : List UInt8 → Except Error (List UInt8 × Nat)
  | [] => .error .endInString
  | b :: rest =>
    if b = 'u'.toUInt8 then
      (codePoint rest).map fun (c, taken) => (Utf8.encodeChar (Char.ofNat c), taken + 1)
    else
      match shortEscape? b with
      | some out => .ok ([out], 1)
      | none => .error .invalidEscape

/-- The bytes of a string up to its closing quote. The first `skip` bytes of the input
belong to an escape already read. -/
def stringBytes : Nat → List UInt8 → Except Error (List UInt8 × List UInt8)
  | _, [] => .error .endInString
  | skip + 1, _ :: rest => stringBytes skip rest
  | 0, b :: rest =>
    if b = '"'.toUInt8 then .ok ([], rest)
    else if b = '\\'.toUInt8 then
      match escape rest with
      | .error e => .error e
      | .ok (out, taken) => (stringBytes taken rest).map fun (bytes, left) => (out ++ bytes, left)
    else if b < 0x20 then .error .controlCharacter
    else (stringBytes 0 rest).map fun (bytes, left) => (b :: bytes, left)

/-- A string, read after its opening quote. -/
def stringBody : Reader String := fun cs => do
  let (bytes, rest) ← stringBytes 0 cs
  match Utf8.decode bytes with
  | .ok text => return (String.ofList text, rest)
  | .error _ => throw .invalidCodePoint

/-- Passes over a string that nobody asked for, read after its opening quote. Escapes must
have their form, but need not spell anything. -/
def skipString : List UInt8 → Except Error (List UInt8)
  | [] => .error .endInString
  | b :: rest =>
    if b = '"'.toUInt8 then .ok rest
    else if b = '\\'.toUInt8 then
      match rest with
      | [] => .error .endInString
      | e :: rest =>
        if e = 'u'.toUInt8 then
          match rest with
          | a :: b :: c :: d :: rest =>
            if [a, b, c, d].all fun x => (hexDigit? x).isSome then skipString rest
            else .error .invalidEscape
          | _ => .error .endInString
        else if (shortEscape? e).isSome then skipString rest
        else .error .invalidEscape
    else if b < 0x20 then .error .controlCharacter
    else skipString rest

/-! ## Numbers -/

inductive Number
  | integer (n : Int)
  | float (text : String)
  deriving DecidableEq, Repr

def isDigit (b : UInt8) : Bool :=
  '0'.toUInt8 ≤ b && b ≤ '9'.toUInt8

def digitValue (b : UInt8) : Nat :=
  b.toNat - 48

/-- Takes digits into a significand as long as it fits 64 bits, and tells how many of them
were taken. -/
def absorb (significand : Nat) : List UInt8 → Nat × Nat
  | [] => (significand, 0)
  | d :: rest =>
    let n := significand * 10 + digitValue d
    if n < UInt64.size then
      let (s, taken) := absorb n rest
      (s, taken + 1)
    else (significand, 0)

/-- The number digits spell. -/
def digitsValue (ds : List UInt8) : Nat :=
  ds.foldl (fun n d => n * 10 + digitValue d) 0

def tenTo (n : Nat) : Float :=
  Float.ofScientific 1 false n

/-- `f / 10 ^ n`, in steps that have a power of ten each. -/
def scaleDown (n : Nat) (f : Float) : Float :=
  if n ≤ 308 then f / tenTo n
  else if f == 0 then f
  else scaleDown (n - 308) (f / tenTo 308)
termination_by n

/-- A floating-point number by its sign, significand and exponent, as text. -/
def floatText (negative : Bool) (significand : Nat) (exponent : Int) : Except Error String :=
  let f := significand.toUInt64.toFloat
  let signed := fun f : Float => renderFloat (if negative then -f else f)
  if exponent < 0 then .ok (signed (scaleDown exponent.natAbs f))
  else if exponent ≤ 308 then
    let g := f * tenTo exponent.natAbs
    if g.isInf then .error .numberOutOfRange else .ok (signed g)
  else if significand = 0 then .ok (signed f)
  else .error .numberOutOfRange

/-- The rest of a number, read after the mark of its exponent. -/
def exponentPart (negative : Bool) (significand : Nat) (exponent : Int) : Reader Number :=
  fun cs =>
    let (down, cs) :=
      match cs with
      | b :: rest =>
        if b = '+'.toUInt8 then (false, rest)
        else if b = '-'.toUInt8 then (true, rest)
        else (false, cs)
      | [] => (false, cs)
    let digits := cs.takeWhile isDigit
    let rest := cs.dropWhile isDigit
    let n := digitsValue digits
    if cs.isEmpty then .error .endInValue
    else if digits.isEmpty then .error .invalidNumber
    else if Nat.pow 2 31 ≤ n then
      if significand ≠ 0 ∧ !down then .error .numberOutOfRange
      else .ok (.float (if negative then "-0.0" else "0.0"), rest)
    else do
      let text ← floatText negative significand (if down then exponent - n else exponent + n)
      return (.float text, rest)

/-- The rest of a number of which the whole part and perhaps a fraction have been read. -/
def afterDigits (negative : Bool) (significand : Nat) (exponent : Int) : Reader Number
  | [] => do return (.float (← floatText negative significand exponent), [])
  | b :: rest =>
    if b = 'e'.toUInt8 ∨ b = 'E'.toUInt8 then exponentPart negative significand exponent rest
    else do return (.float (← floatText negative significand exponent), b :: rest)

/-- The rest of a number, read after its point. -/
def fractionPart (negative : Bool) (significand : Nat) (exponent : Int) : Reader Number :=
  fun cs =>
    let digits := cs.takeWhile isDigit
    if digits.isEmpty then .error (if cs.isEmpty then .endInValue else .invalidNumber)
    else
      let (significand, taken) := absorb significand digits
      afterDigits negative significand (exponent - taken) (cs.dropWhile isDigit)

/-- An integer without point and exponent. Zero with a minus and what 64 bits with a sign
cannot hold are floating-point numbers. -/
def wholeNumber (negative : Bool) (n : Nat) : Except Error Number :=
  if !negative then .ok (.integer n)
  else if n = 0 ∨ Nat.pow 2 63 < n then (floatText true n 0).map .float
  else .ok (.integer (-n))

/-- A number, read after its sign. -/
def number (negative : Bool) : Reader Number := fun cs =>
  let digits := cs.takeWhile isDigit
  let rest := cs.dropWhile isDigit
  if cs.isEmpty then .error .endInValue
  else if digits.isEmpty ∨ (digits.head? = some '0'.toUInt8 ∧ 1 < digits.length) then
    .error .invalidNumber
  else
    let (significand, taken) := absorb 0 digits
    let dropped : Int := digits.length - taken
    match rest with
    | [] => do
      if dropped = 0 then return (← wholeNumber negative significand, [])
      else afterDigits negative significand dropped []
    | b :: after =>
      if b = '.'.toUInt8 then fractionPart negative significand dropped after
      else if b = 'e'.toUInt8 ∨ b = 'E'.toUInt8 then
        exponentPart negative significand dropped after
      else do
        if dropped = 0 then return (← wholeNumber negative significand, rest)
        else afterDigits negative significand dropped rest

/-- Passes over digits; there must be one. -/
def skipDigits (cs : List UInt8) : Except Error (List UInt8) :=
  if (cs.takeWhile isDigit).isEmpty then .error .invalidNumber else .ok (cs.dropWhile isDigit)

/-- Passes over the exponent of a number, if it has one. -/
def skipExponent (cs : List UInt8) : Except Error (List UInt8) :=
  match cs with
  | b :: rest =>
    if b = 'e'.toUInt8 ∨ b = 'E'.toUInt8 then
      match rest with
      | s :: after =>
        if s = '+'.toUInt8 ∨ s = '-'.toUInt8 then skipDigits after else skipDigits rest
      | [] => skipDigits rest
    else .ok cs
  | [] => .ok cs

/-- Passes over a number that nobody asked for, read after its sign. It may be of any size. -/
def skipNumber (cs : List UInt8) : Except Error (List UInt8) :=
  let digits := cs.takeWhile isDigit
  if digits.isEmpty ∨ (digits.head? = some '0'.toUInt8 ∧ 1 < digits.length) then
    .error .invalidNumber
  else
    match cs.dropWhile isDigit with
    | b :: rest =>
      if b = '.'.toUInt8 then do skipExponent (← skipDigits rest)
      else skipExponent (b :: rest)
    | [] => .ok []

end Reserved.Json
