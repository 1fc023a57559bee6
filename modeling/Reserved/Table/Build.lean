import Reserved.Spec.Basic
import Reserved.Table.Placement
import Reserved.Text.Quoted

/-!
# Building a table

The table of a specification is the first placement of its keywords that the search finds.
Before it is trusted, every keyword is looked up in it.
-/

namespace Reserved

/-- Why there is no table, or none to be trusted. -/
inductive BuildError
  /-- A keyword does not come back as its own kind. -/
  | verification (keyword : String) (expected found : TokenKind)
  /-- A position in the table cannot be computed. -/
  | noPosition (keyword : String)
  /-- The search gave up. -/
  | noPlacement
  deriving DecidableEq, Repr

def BuildError.message : BuildError → String
  | verification keyword expected found =>
    s!"built table maps {quote keyword} to {found.name}, expected {expected.name}"
  | noPosition keyword => s!"built table has no position for {quote keyword}"
  | noPlacement => "no perfect hash found"

namespace HashTable

/-- The table in which the words stand as placed. -/
def ofPlacement (spec : KeywordSpec) (p : Placement) : HashTable where
  seed := p.seed
  minLen := spec.minLen
  maxLen := spec.maxLen
  displacements := p.displacements
  slots := p.order.filterMap fun word =>
    word.bind fun i => spec.entries[i]?.map fun e => ⟨e.text, e.kind⟩

/-- Looks up every keyword, and reports the first that is not found as its own kind. -/
def verifyEntries (t : HashTable) : List KeywordEntry → Except BuildError Unit
  | [] => .ok ()
  | e :: rest =>
    match t.lookup? e.text.utf8 with
    | none => .error (.noPosition e.text)
    | some found =>
      if found ≠ e.kind ∨ found = .sentinel then
        .error (.verification e.text e.kind found)
      else verifyEntries t rest

def verify (spec : KeywordSpec) (t : HashTable) : Except BuildError Unit :=
  t.verifyEntries spec.entries

/-- The table of a specification. The salt enters every seed that the search tries. -/
def build (salt : UInt64) (spec : KeywordSpec) : Except BuildError HashTable := do
  match Placement.find? (spec.entries.map fun e => e.text.utf8) salt with
  | none => throw .noPlacement
  | some p =>
    let t := ofPlacement spec p
    verify spec t
    return t

end HashTable

end Reserved
