import Reserved.Text.Quoted

/-!
# What is wrong with a JSON text

A JSON text is read from front to back, and the first thing that is wrong with it is
reported, be it the grammar or a value of another type than the place wants.
-/

namespace Reserved.Json

/-- A value that stands where another is wanted. -/
inductive Found
  | null
  | boolean (b : Bool)
  | integer (n : Int)
  /-- A number with a fraction or an exponent, or beyond 64 bits, by its text. -/
  | float (text : String)
  | string (s : String)
  | sequence
  | map
  deriving DecidableEq, Repr

def Found.describe : Found → String
  | null => "null"
  | boolean b => s!"boolean `{b}`"
  | integer n => s!"integer `{n}`"
  | float text => s!"floating point `{text}`"
  | string s => s!"string {quote s}"
  | sequence => "sequence"
  | map => "map"

inductive Error
  | endInValue
  | endInObject
  | endInList
  | endInString
  | expectedValue
  | expectedWord
  | expectedColon
  | expectedCommaOrBrace
  | expectedCommaOrBracket
  | trailingComma
  | trailingCharacters
  | keyNotString
  | invalidNumber
  | numberOutOfRange
  | invalidEscape
  | unpairedEscape
  | loneSurrogate
  | invalidCodePoint
  | controlCharacter
  | missingField (name : String)
  | duplicateField (name : String)
  | unknownVariant (name : String) (known : List String)
  | invalidLength (length : Nat) (wanted : String)
  | invalidType (found : Found) (wanted : String)
  /-- An integer outside the range of the place it stands in. -/
  | invalidValue (n : Int) (wanted : String)
  deriving DecidableEq, Repr

def Error.message : Error → String
  | endInValue => "EOF while parsing a value"
  | endInObject => "EOF while parsing an object"
  | endInList => "EOF while parsing a list"
  | endInString => "EOF while parsing a string"
  | expectedValue => "expected value"
  | expectedWord => "expected ident"
  | expectedColon => "expected `:`"
  | expectedCommaOrBrace => "expected `,` or `\x7d`"
  | expectedCommaOrBracket => "expected `,` or `]`"
  | trailingComma => "trailing comma"
  | trailingCharacters => "trailing characters"
  | keyNotString => "key must be a string"
  | invalidNumber => "invalid number"
  | numberOutOfRange => "number out of range"
  | invalidEscape => "invalid escape"
  | unpairedEscape => "unexpected end of hex escape"
  | loneSurrogate => "lone leading surrogate in hex escape"
  | invalidCodePoint => "invalid unicode code point"
  | controlCharacter =>
    "control character (\\u0000-\\u001F) found while parsing a string"
  | missingField name => s!"missing field `{name}`"
  | duplicateField name => s!"duplicate field `{name}`"
  | unknownVariant name known =>
    let options := ", ".intercalate (known.map fun k => s!"`{k}`")
    s!"unknown variant `{name}`, expected one of {options}"
  | invalidLength length wanted => s!"invalid length {length}, expected {wanted}"
  | invalidType found wanted => s!"invalid type: {found.describe}, expected {wanted}"
  | invalidValue n wanted => s!"invalid value: integer `{n}`, expected {wanted}"

end Reserved.Json
