import Reserved.Json.Value
import Reserved.Table.Basic

/-!
# Tables as JSON

A table is written as an object of its fields, on lines indented by two spaces. It is read
from that form and from any other that says the same: fields in any order and among unknown
ones, a record as the list of its fields, a kind as an object.
-/

namespace Reserved

namespace TableJson

open Json (Reader)

/-! ## Reading -/

def word64 : Reader UInt64 := fun cs => do
  let (n, rest) ← Json.unsigned "u64" UInt64.size cs
  return (UInt64.ofNat n, rest)

def length : Reader Nat :=
  Json.unsigned "usize" UInt64.size

def word32 : Reader UInt32 := fun cs => do
  let (n, rest) ← Json.unsigned "u32" UInt32.size cs
  return (UInt32.ofNat n, rest)

def displacement : Reader Displacement :=
  let wanted := "a tuple of size 2"
  Json.bracketed wanted fun cs => do
    let (factor, cs) ← Json.elementAt wanted 0 word32 cs
    let (shift, cs) ← Json.elementAt wanted 1 word32 cs
    return (⟨factor, shift⟩, cs)

def kind : Reader TokenKind :=
  Json.variant TokenKind.ofName? (TokenKind.all.map TokenKind.name)

def text : Reader String :=
  Json.string "a string"

/-- The fields of a slot that have been read. -/
structure SlotFields where
  text : Option String
  kind : Option TokenKind

def slotField (limit : Nat) (name : String) (fields : SlotFields) : Reader SlotFields := fun cs =>
  match name with
  | "text" => do
    let (v, cs) ← Json.fieldValue name fields.text.isSome text cs
    return ({ fields with text := some v }, cs)
  | "kind" => do
    let (v, cs) ← Json.fieldValue name fields.kind.isSome kind cs
    return ({ fields with kind := some v }, cs)
  | _ => Json.unknownField limit fields cs

def slotByName (limit : Nat) : Reader Slot := fun cs => do
  let (fields, cs) ← Json.object (slotField limit) limit true ⟨none, none⟩ cs
  return (⟨← Json.required "text" fields.text, ← Json.required "kind" fields.kind⟩, cs)

def slotInOrder : Reader Slot := fun cs => do
  let wanted := "struct Slot with 2 elements"
  let (text, cs) ← Json.elementAt wanted 0 text cs
  let (kind, cs) ← Json.elementAt wanted 1 kind cs
  return (⟨text, kind⟩, cs)

def slot (limit : Nat) : Reader Slot :=
  Json.record "struct Slot" slotInOrder (slotByName limit)

/-- The fields of a table that have been read. -/
structure TableFields where
  seed : Option UInt64
  minLen : Option Nat
  maxLen : Option Nat
  displacements : Option (List Displacement)
  slots : Option (List Slot)

def tableField (limit : Nat) (name : String) (fields : TableFields) : Reader TableFields :=
  fun cs =>
  match name with
  | "seed" => do
    let (v, cs) ← Json.fieldValue name fields.seed.isSome word64 cs
    return ({ fields with seed := some v }, cs)
  | "min_len" => do
    let (v, cs) ← Json.fieldValue name fields.minLen.isSome length cs
    return ({ fields with minLen := some v }, cs)
  | "max_len" => do
    let (v, cs) ← Json.fieldValue name fields.maxLen.isSome length cs
    return ({ fields with maxLen := some v }, cs)
  | "displacements" => do
    let (v, cs) ←
      Json.fieldValue name fields.displacements.isSome (Json.listOf limit displacement) cs
    return ({ fields with displacements := some v }, cs)
  | "slots" => do
    let (v, cs) ←
      Json.fieldValue name fields.slots.isSome (Json.listOf limit (slot limit)) cs
    return ({ fields with slots := some v }, cs)
  | _ => Json.unknownField limit fields cs

def tableByName (limit : Nat) : Reader HashTable := fun cs => do
  let (fields, cs) ←
    Json.object (tableField limit) limit true ⟨none, none, none, none, none⟩ cs
  let seed ← Json.required "seed" fields.seed
  let minLen ← Json.required "min_len" fields.minLen
  let maxLen ← Json.required "max_len" fields.maxLen
  let displacements ← Json.required "displacements" fields.displacements
  let slots ← Json.required "slots" fields.slots
  return (⟨seed, minLen, maxLen, displacements, slots⟩, cs)

def tableInOrder (limit : Nat) : Reader HashTable := fun cs => do
  let wanted := "struct HashTable with 5 elements"
  let (seed, cs) ← Json.elementAt wanted 0 word64 cs
  let (minLen, cs) ← Json.elementAt wanted 1 length cs
  let (maxLen, cs) ← Json.elementAt wanted 2 length cs
  let (displacements, cs) ← Json.elementAt wanted 3 (Json.listOf limit displacement) cs
  let (slots, cs) ← Json.elementAt wanted 4 (Json.listOf limit (slot limit)) cs
  return (⟨seed, minLen, maxLen, displacements, slots⟩, cs)

def table (limit : Nat) : Reader HashTable :=
  Json.record "struct HashTable" (tableInOrder limit) (tableByName limit)

/-- The table that a document holds. -/
def parse (bytes : List UInt8) : Except Json.Error HashTable :=
  Json.document table bytes

/-- What a failure to read a table says. -/
def failureMessage (e : Json.Error) : String :=
  s!"Failed to parse keyword table JSON: {e.message}"

/-! ## Writing -/

/-- A character as it stands in a JSON string: only quotes, backslashes and the controls
below U+0020 are escaped. -/
def escapeChar (c : Char) : List Char :=
  if c = '"' then ['\\', '"']
  else if c = '\\' then ['\\', '\\']
  else if c = '\x08' then ['\\', 'b']
  else if c = '\t' then ['\\', 't']
  else if c = '\n' then ['\\', 'n']
  else if c = '\x0c' then ['\\', 'f']
  else if c = '\r' then ['\\', 'r']
  else if c.toNat < 0x20 then
    ['\\', 'u', '0', '0', Nat.digitChar (c.toNat / 16), Nat.digitChar (c.toNat % 16)]
  else [c]

def renderString (s : String) : String :=
  String.ofList ('"' :: s.toList.flatMap escapeChar ++ ['"'])

/-- A list of rendered elements at some depth, each on a line of its own. -/
def renderList (indent : String) (elements : List String) : String :=
  if elements.isEmpty then "[]"
  else
    "[\n" ++ ",\n".intercalate (elements.map fun e => s!"{indent}  {e}") ++ s!"\n{indent}]"

/-- An object of rendered fields at some depth. -/
def renderObject (indent : String) (fields : List (String × String)) : String :=
  let lines := fields.map fun (name, value) => s!"{indent}  \"{name}\": {value}"
  "\x7b\n" ++ ",\n".intercalate lines ++ s!"\n{indent}\x7d"

def renderDisplacement (d : Displacement) : String :=
  renderList "    " [toString d.factor.toNat, toString d.shift.toNat]

def renderSlot (s : Slot) : String :=
  renderObject "    " [("text", renderString s.text), ("kind", renderString s.kind.name)]

/-- The document of a table. -/
def render (t : HashTable) : String :=
  renderObject ""
    [("seed", toString t.seed.toNat),
      ("min_len", toString t.minLen),
      ("max_len", toString t.maxLen),
      ("displacements", renderList "  " (t.displacements.map renderDisplacement)),
      ("slots", renderList "  " (t.slots.map renderSlot))]
    ++ "\n"

end TableJson

end Reserved
