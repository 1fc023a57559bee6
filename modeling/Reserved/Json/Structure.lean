import Reserved.Json.Lexeme

/-!
# Lists and objects

What stands between the parts of a list or an object, the loops over such parts, and how a
value that is passed over is told to be one.

A loop is given a limit to the number of its parts. The length of the document is one that
no list or object in it can exceed, since every part takes at least a byte.
-/

namespace Reserved.Json

/-! ## Lists -/

/-- Goes to the next element of a list; nothing is left of the list at its closing bracket,
which is not taken. -/
def nextElement (first : Bool) (cs : List UInt8) : Except Error (Option (List UInt8)) :=
  match skipBlanks cs with
  | [] => .error .endInList
  | b :: rest =>
    if b = ']'.toUInt8 then .ok none
    else if first then .ok (some (b :: rest))
    else if b = ','.toUInt8 then
      match skipBlanks rest with
      | [] => .error .endInValue
      | c :: after =>
        if c = ']'.toUInt8 then .error .trailingComma else .ok (some (c :: after))
    else .error .expectedCommaOrBracket

/-- The closing bracket of a list that must have no more elements. -/
def endList (cs : List UInt8) : Except Error (List UInt8) :=
  match skipBlanks cs with
  | [] => .error .endInList
  | b :: rest =>
    if b = ']'.toUInt8 then .ok rest
    else if b = ','.toUInt8 then
      match skipBlanks rest with
      | c :: _ => .error (if c = ']'.toUInt8 then .trailingComma else .trailingCharacters)
      | [] => .error .trailingCharacters
    else .error .trailingCharacters

/-- The elements of a list up to its closing bracket. -/
def elements (element : Reader α) : Nat → Bool → Reader (List α)
  | 0, _, _ => .error .endInList
  | limit + 1, first, cs => do
    match ← nextElement first cs with
    | none => return ([], cs)
    | some start =>
      let (x, rest) ← element start
      let (xs, rest) ← elements element limit false rest
      return (x :: xs, rest)

/-! ## Objects -/

/-- What comes next in an object. -/
inductive Next
  /-- Another field, whose key begins here, right after its opening quote. -/
  | key (start : List UInt8)
  /-- Nothing: the object has ended before this. -/
  | done (rest : List UInt8)

/-- Goes to the next key of an object, or past its closing brace. -/
def nextKey (first : Bool) (cs : List UInt8) : Except Error Next :=
  match skipBlanks cs with
  | [] => .error .endInObject
  | b :: rest =>
    if b = '\x7d'.toUInt8 then .ok (.done rest)
    else if first then
      if b = '"'.toUInt8 then .ok (.key rest) else .error .keyNotString
    else if b = ','.toUInt8 then
      match skipBlanks rest with
      | [] => .error .endInValue
      | c :: after =>
        if c = '"'.toUInt8 then .ok (.key after)
        else if c = '\x7d'.toUInt8 then .error .trailingComma
        else .error .keyNotString
    else .error .expectedCommaOrBrace

/-- The colon after a key. -/
def colon (cs : List UInt8) : Except Error (List UInt8) :=
  match skipBlanks cs with
  | [] => .error .endInObject
  | b :: rest => if b = ':'.toUInt8 then .ok rest else .error .expectedColon

/-- Takes the fields of an object into `fields` one by one, up to its closing brace. -/
def object (field : String → σ → Reader σ) : Nat → Bool → σ → Reader σ
  | 0, _, _, _ => .error .endInObject
  | limit + 1, first, fields, cs => do
    match ← nextKey first cs with
    | .done rest => return (fields, rest)
    | .key start =>
      let (name, rest) ← stringBody start
      let (fields, rest) ← field name fields rest
      object field limit false fields rest

/-! ## Values that are passed over -/

/-- A list or an object that is still open. -/
inductive Frame
  | list
  | object
  deriving DecidableEq, Repr

/-- Passes over a value without parts, or over the opening of one with parts. -/
def skipToken (cs : List UInt8) : Except Error (Option Frame × List UInt8) :=
  match skipBlanks cs with
  | [] => .error .endInValue
  | b :: rest =>
    if b = 'n'.toUInt8 then do return (none, ← expectWord "ull".toList rest)
    else if b = 't'.toUInt8 then do return (none, ← expectWord "rue".toList rest)
    else if b = 'f'.toUInt8 then do return (none, ← expectWord "alse".toList rest)
    else if b = '-'.toUInt8 then do return (none, ← skipNumber rest)
    else if isDigit b then do return (none, ← skipNumber (b :: rest))
    else if b = '"'.toUInt8 then do return (none, ← skipString rest)
    else if b = '['.toUInt8 then .ok (some .list, rest)
    else if b = '\x7b'.toUInt8 then .ok (some .object, rest)
    else .error .expectedValue

/-- Passes over what comes before a part: nothing in a list, a key and its colon in an
object. -/
def skipToPart (frame : Frame) (cs : List UInt8) : Except Error (List UInt8) :=
  match frame with
  | .list => .ok cs
  | .object =>
    match skipBlanks cs with
    | [] => .error .endInObject
    | b :: rest =>
      if b = '"'.toUInt8 then do colon (← skipString rest) else .error .keyNotString

/-- Passes over the closing of the innermost frame, or over what comes before its next part.
`opened` tells that the frame has had no part yet. -/
def skipInFrame (opened : Bool) (frame : Frame) (cs : List UInt8) :
    Except Error (Bool × List UInt8) :=
  match skipBlanks cs with
  | [] => .error (match frame with | .list => .endInList | .object => .endInObject)
  | b :: rest =>
    if b = (match frame with | .list => ']'.toUInt8 | .object => '\x7d'.toUInt8) then
      .ok (true, rest)
    else if opened then do return (false, ← skipToPart frame (b :: rest))
    else if b = ','.toUInt8 then do return (false, ← skipToPart frame rest)
    else
      .error (match frame with
        | .list => .expectedCommaOrBracket
        | .object => .expectedCommaOrBrace)

/-- Closes frames as long as they end, and goes to the next part of the first that does not.
No frames are left when the whole value has ended. -/
def settle (opened : Bool) : List Frame → List UInt8 → Except Error (List Frame × List UInt8)
  | [], cs => .ok ([], cs)
  | frame :: frames, cs =>
    match skipInFrame opened frame cs with
    | .error e => .error e
    | .ok (true, rest) => settle false frames rest
    | .ok (false, rest) => .ok (frame :: frames, rest)

/-- Passes over a value inside the given frames, and over all that follows it up to the end
of the outermost of them. -/
def skipWithin : Nat → List Frame → List UInt8 → Except Error (List UInt8)
  | 0, _, _ => .error .endInValue
  | limit + 1, frames, cs => do
    let (begun, rest) ← skipToken cs
    let (frames, rest) ←
      match begun with
      | some frame => settle true (frame :: frames) rest
      | none => settle false frames rest
    if frames.isEmpty then return rest else skipWithin limit frames rest

/-- Passes over a value, however deep it is nested. -/
def skipValue (limit : Nat) (cs : List UInt8) : Except Error (List UInt8) :=
  skipWithin limit [] cs

end Reserved.Json
