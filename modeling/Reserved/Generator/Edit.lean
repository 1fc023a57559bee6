import Reserved.Generator.Config
import Reserved.Generator.Pattern

/-!
# Editing generated code

An external generator writes a lookup that returns a pointer to an entry, or a null
pointer. Three rules turn it into one that returns a token kind, or the sentinel. Each rule
must match exactly as often as the shape of the generator's output implies; all counts are
taken from the raw text, before any of it is edited.
-/

namespace Reserved

/-- A pattern and what its sites become. -/
structure EditRule where
  name : String
  pattern : Pattern
  /-- Replaces a site: `$$` stands for a dollar sign and `${1}` for what was captured. -/
  template : String
  /-- How many sites the raw text must have. -/
  expected : Nat
  deriving DecidableEq, Repr

/-- A rule that does not match as often as it must. -/
structure ContractMismatch where
  rule : String
  pattern : String
  expected : Nat
  found : Nat
  deriving DecidableEq, Repr

def ContractMismatch.message (m : ContractMismatch) : String :=
  s!"rewrite `{m.rule}` expected {m.expected} match(es) of /{m.pattern}/, found {m.found}"

namespace EditRule

/-- A text as part of a template that stands for it. -/
def escapeDollars (s : String) : String :=
  String.ofList (s.toList.flatMap fun c => if c = '$' then ['$', '$'] else [c])

/-- What a template stands for at a site. -/
def expand (captured : List Char) : List Char → List Char
  | '$' :: '$' :: rest => '$' :: expand captured rest
  | '$' :: '\x7b' :: '1' :: '\x7d' :: rest => captured ++ expand captured rest
  | c :: rest => c :: expand captured rest
  | [] => []

/-- Rules for what a generator makes of `GeneratorConfig.inputText`. -/
def forConfig (cfg : GeneratorConfig) : List EditRule :=
  [{ name := "return type"
     pattern :=
      ⟨[.text "struct", .blanks, .text entryStruct, .blanks, .text "*"], [], []⟩
     template := s!"inline {escapeDollars cfg.kindType} "
     -- the declaration inside the class and the definition outside it
     expected := 2 },
   { name := "matched entry"
     pattern := ⟨[.text "&"], [.text "wordlist[key]"], []⟩
     template := "$\x7b1\x7d.kind"
     expected := 1 },
   { name := "no match"
     pattern := ⟨[], [.text "return", .blanks], [.text "0", .blanks, .text ";"]⟩
     template := s!"$\x7b1\x7d{escapeDollars cfg.sentinel};"
     expected := 1 }]

/-- The number of sites of each rule in the raw text. -/
def counts (rules : List EditRule) (raw : String) : List Nat :=
  rules.map fun r => r.pattern.count raw.toList

/-- What is wrong with the number of sites of a rule, if anything is. -/
def mismatch? (raw : String) (r : EditRule) : Option ContractMismatch :=
  let found := r.pattern.count raw.toList
  if found = r.expected then none
  else some ⟨r.name, r.pattern.source, r.expected, found⟩

/-- Replaces the sites of one rule. -/
def edit (text : List Char) (r : EditRule) : List Char :=
  r.pattern.replaceAll (fun s => expand s.captured r.template.toList) text

/-- The raw text edited by one rule after the other, or the first rule that does not
match it as often as it must. -/
def applyAll (rules : List EditRule) (raw : String) : Except ContractMismatch String :=
  match rules.findSome? (mismatch? raw) with
  | some m => .error m
  | none => .ok (String.ofList (rules.foldl edit raw.toList))

end EditRule

end Reserved
