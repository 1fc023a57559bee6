import Reserved.Spec.Basic
import Reserved.Spec.Error
import Reserved.Text.Identifier
import Reserved.Text.Lines

/-!
# Keyword files

A keyword file has one entry on each live line: a keyword, a comma and the name of a token
kind. Lines that hold nothing but `%%` delimit the keyword section; what stands before the
first of them and after the second is not looked at, and a file without any is a keyword
section as a whole. Blank lines and lines that begin with `#` are skipped.

The first line that is at fault decides the error.
-/

namespace Reserved

namespace KeywordSpec

/-- A trimmed line and its number. -/
abbrev NumberedLine := Nat × List Char

def numberedLines (src : List Char) : List NumberedLine :=
  (lines src).zipIdx.map fun (line, i) => (i + 1, trim line)

/-- The line that delimits the keyword section. -/
def isDelimiter (line : NumberedLine) : Bool :=
  line.2 == ['%', '%']

/-- The lines of the keyword section. -/
def keywordSection (ls : List NumberedLine) : List NumberedLine :=
  if ls.any isDelimiter then
    ((ls.dropWhile (! isDelimiter ·)).drop 1).takeWhile (! isDelimiter ·)
  else ls

def isComment (line : NumberedLine) : Bool :=
  line.2.isEmpty || line.2.head? == some '#'

/-- The lines that must each be an entry. -/
def liveLines (src : List Char) : List NumberedLine :=
  (keywordSection (numberedLines src)).filter (! isComment ·)

/-- The text without a pair of double quotes around it. -/
def unquote (text : List Char) : List Char :=
  match text with
  | '"' :: rest => if rest.getLast? = some '"' then rest.dropLast else text
  | _ => text

/-- What follows the last `::` of a text, if it has one. -/
def afterColons? : List Char → Option (List Char)
  | [] => none
  | c :: rest =>
    match afterColons? rest with
    | some name => some name
    | none => if c = ':' ∧ rest.head? = some ':' then some (rest.drop 1) else none

/-- The name of a kind without what qualifies it. -/
def kindName (kind : List Char) : String :=
  String.ofList (trim ((afterColons? kind).getD kind))

/-- The entry on a live line. -/
def entryOfLine (line : Nat) (text : List Char) : Except SpecError KeywordEntry :=
  match (splitWhere (· == ',') text).map trim with
  | [keywordField, kindField] => do
    let keyword := unquote keywordField
    if kindField.isEmpty then throw (.malformed line (String.ofList text))
    if !isIdentifier keyword then throw (.illegalKeyword line (String.ofList keyword))
    match TokenKind.ofName? (kindName kindField) with
    | none => throw (.unknownTokenKind line (String.ofList kindField))
    | some kind =>
      if kind = .sentinel then throw (.sentinelKind line (String.ofList keyword) kind)
      return ⟨String.ofList keyword, kind, line⟩
  | _ => .error (.malformed line (String.ofList text))

/-- The entries of `ls`, none of which may repeat a keyword of `seen` or of another. -/
def entriesOfLines (seen : List KeywordEntry) : List NumberedLine →
    Except SpecError (List KeywordEntry)
  | [] => .ok []
  | (line, text) :: rest => do
    let entry ← entryOfLine line text
    match seen.find? fun e => e.text == entry.text with
    | some first => throw (.duplicate line first.line entry.text)
    | none =>
      let entries ← entriesOfLines (entry :: seen) rest
      return entry :: entries

/-- The order of entries by their keywords. -/
def entryLE (a b : KeywordEntry) : Bool :=
  (compareBytes a.text b.text).isLE

/-- The specification that a keyword file spells. -/
def parse (src : List Char) : Except SpecError KeywordSpec := do
  let entries ← entriesOfLines [] (liveLines src)
  if entries.isEmpty then throw .empty
  return ⟨entries.mergeSort entryLE⟩

/-- The specification in the bytes read from `path`. -/
def ofBytes (path : String) (bytes : List UInt8) : Except SpecError KeywordSpec :=
  match Utf8.decode bytes with
  | .ok src => parse src
  | .error fault => .error (.read path (.notUtf8 fault))

end KeywordSpec

end Reserved
