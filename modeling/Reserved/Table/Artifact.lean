import Reserved.Table.Basic
import Reserved.Text.Lines
import Reserved.Text.Numeral
import Reserved.Text.Quoted

/-!
# Artifacts

The source text that declares a table as data. Its heading names the keyword file and
records the digest of that file; the declaration after it holds the table and nothing else.
-/

namespace Reserved

namespace Artifact

/-- What an artifact says about its keyword file. -/
structure Header where
  specPath : String
  specDigest : UInt64

/-- What the line with the digest begins with. -/
def digestMark : String := "// spec-digest: "

def renderHeader (t : HashTable) (h : Header) : String :=
  s!"// @generated by gen_keyhash from {h.specPath}. Do not edit by hand.\n"
    ++ s!"{digestMark}{hexWord h.specDigest}\n"
    ++ s!"// keywords: {t.slots.length}, buckets: {t.displacements.length}\n\n"

def renderDisplacement (d : Displacement) : String :=
  s!"        ({d.factor.toNat}, {d.shift.toNat}),\n"

def renderSlot (s : Slot) : String :=
  s!"        ({quote s.text}, TokenKind::{s.kind.name}),\n"

/-- The declaration of a table. -/
def renderTable (t : HashTable) : String :=
  "pub static KEYWORDS: StaticTable = StaticTable \x7b\n"
    ++ s!"    seed: {hexWord t.seed},\n"
    ++ s!"    min_len: {t.minLen},\n"
    ++ s!"    max_len: {t.maxLen},\n"
    ++ "    displacements: &[\n"
    ++ String.join (t.displacements.map renderDisplacement)
    ++ "    ],\n"
    ++ "    slots: &[\n"
    ++ String.join (t.slots.map renderSlot)
    ++ "    ],\n"
    ++ "\x7d;\n"

def render (t : HashTable) (h : Header) : String :=
  renderHeader t h ++ renderTable t

/-- What follows `mark` in a text that begins with it. -/
def afterMark? (mark text : List Char) : Option (List Char) :=
  if mark.isPrefixOf text then some (text.drop mark.length) else none

/-- The text without the base marks `0x` it begins with. -/
def dropBaseMarks : List Char → List Char
  | '0' :: 'x' :: rest => dropBaseMarks rest
  | cs => cs

/-- The digest an artifact records, if its first line with a digest holds one. -/
def digestIn? (artifact : String) : Option UInt64 := do
  let digits ← (lines artifact.toList).findSome? (afterMark? digestMark.toList)
  let n ← (Numeral.read 16 UInt64.size (dropBaseMarks (trim digits))).toOption
  return UInt64.ofNat n

end Artifact

end Reserved
