import Reserved.Text.Blank

/-!
# Patterns

The patterns that editing needs: literal text with runs of blanks between, and one
stretch of it that may be captured. A run of blanks is taken as far as it goes; since no
literal text begins with a blank, that misses no match.

A text falls into the sites of a pattern, found from left to right without overlap, and the
characters between them. Counting and replacing both read off this one division.
-/

namespace Reserved

/-- A part of a pattern. -/
inductive PatternPart
  | text (s : String)
  /-- Blanks, any number of them. -/
  | blanks
  deriving DecidableEq, Repr

structure Pattern where
  before : List PatternPart
  /-- What a template may refer to; nothing is captured if it is empty. -/
  captured : List PatternPart
  after : List PatternPart
  deriving DecidableEq, Repr

/-- A place where a pattern matches. -/
structure Site where
  before : List Char
  captured : List Char
  after : List Char
  deriving DecidableEq, Repr

/-- The text of a site. -/
def Site.whole (s : Site) : List Char :=
  s.before ++ s.captured ++ s.after

/-- A stretch of a text. -/
inductive Segment
  | kept (c : Char)
  | site (s : Site)
  deriving DecidableEq, Repr

def Segment.isSite : Segment → Bool
  | kept _ => false
  | site _ => true

namespace PatternPart

/-- What a part takes from the front of a text, and what is left of it. -/
def take? (cs : List Char) : PatternPart → Option (List Char × List Char)
  | text s =>
    let literal := s.toList
    if literal.isPrefixOf cs then some (literal, cs.drop literal.length) else none
  | blanks => some (cs.takeWhile isBlank, cs.dropWhile isBlank)

/-- What the parts take, one after the other. -/
def takeAll? : List PatternPart → List Char → Option (List Char × List Char)
  | [], cs => some ([], cs)
  | part :: parts, cs => do
    let (first, cs) ← part.take? cs
    let (rest, cs) ← takeAll? parts cs
    return (first ++ rest, cs)

/-- The characters that have a meaning of their own in a pattern's source. -/
def isReserved (c : Char) : Bool :=
  c ∈ "\\.+*?()|[]\x7b\x7d^$".toList

def source : PatternPart → String
  | text s => String.ofList (s.toList.flatMap fun c => if isReserved c then ['\\', c] else [c])
  | blanks => "\\s*"

end PatternPart

namespace Pattern

/-- The pattern as text. -/
def source (p : Pattern) : String :=
  let spell := fun parts => String.join (parts.map PatternPart.source)
  spell p.before
    ++ (if p.captured.isEmpty then "" else "(" ++ spell p.captured ++ ")")
    ++ spell p.after

/-- The site at the front of a text. -/
def siteAt? (p : Pattern) (cs : List Char) : Option Site := do
  let (before, cs) ← PatternPart.takeAll? p.before cs
  let (captured, cs) ← PatternPart.takeAll? p.captured cs
  let (after, _) ← PatternPart.takeAll? p.after cs
  return ⟨before, captured, after⟩

/-- The segments of a text whose first `skip` characters belong to a site already found. -/
def segmentsFrom (p : Pattern) : Nat → List Char → List Segment
  | _, [] => []
  | skip + 1, _ :: rest => segmentsFrom p skip rest
  | 0, c :: rest =>
    match p.siteAt? (c :: rest) with
    | some s => .site s :: segmentsFrom p (s.whole.length - 1) rest
    | none => .kept c :: segmentsFrom p 0 rest

def segments (p : Pattern) (cs : List Char) : List Segment :=
  p.segmentsFrom 0 cs

/-- The number of sites in a text. -/
def count (p : Pattern) (cs : List Char) : Nat :=
  (p.segments cs).countP Segment.isSite

/-- The text with every site replaced. -/
def replaceAll (p : Pattern) (replacement : Site → List Char) (cs : List Char) : List Char :=
  (p.segments cs).flatMap fun
    | .kept c => [c]
    | .site s => replacement s

end Pattern

end Reserved
