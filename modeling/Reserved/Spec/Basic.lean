import Reserved.TokenKind
import Reserved.Text.Utf8

/-!
# Keyword specifications

The keywords of a language with the token kind of each, in the order of their bytes. A
specification is looked up by halving.
-/

namespace Reserved

/-- The order of texts by their UTF-8 bytes. -/
def compareBytes (a b : String) : Ordering :=
  compare a.utf8 b.utf8

structure KeywordEntry where
  text : String
  kind : TokenKind
  /-- Line of the keyword file, counted from one. -/
  line : Nat
  deriving DecidableEq, Repr

/-- A set of keywords in increasing order of their bytes. -/
structure KeywordSpec where
  entries : List KeywordEntry
  deriving DecidableEq, Repr

namespace KeywordSpec

def length (spec : KeywordSpec) : Nat :=
  spec.entries.length

def isEmpty (spec : KeywordSpec) : Bool :=
  spec.entries.isEmpty

/-- Looks at the entry in the middle, then into the half where the text must be. -/
def find? (text : String) (entries : List KeywordEntry) : Option KeywordEntry :=
  if h : 0 < entries.length then
    let middle := entries.length / 2
    have inside : middle < entries.length := Nat.div_lt_self h (by decide)
    let e := entries[middle]
    match compareBytes text e.text with
    | .eq => some e
    | .lt => find? text (entries.take middle)
    | .gt => find? text (entries.drop (middle + 1))
  else none
termination_by entries.length
decreasing_by
  · exact Nat.lt_of_le_of_lt (List.length_take_le _ _) inside
  · rw [List.length_drop]
    exact Nat.sub_lt h (Nat.succ_pos _)

/-- The kind of the keyword `text`, if it is one. -/
def get? (spec : KeywordSpec) (text : String) : Option TokenKind :=
  (find? text spec.entries).map KeywordEntry.kind

/-- Lengths of the keywords in bytes. -/
def lengths (spec : KeywordSpec) : List Nat :=
  spec.entries.map fun e => e.text.utf8.length

/-- Length of the shortest keyword; zero if there is none. -/
def minLen (spec : KeywordSpec) : Nat :=
  spec.lengths.min?.getD 0

/-- Length of the longest keyword; zero if there is none. -/
def maxLen (spec : KeywordSpec) : Nat :=
  spec.lengths.max?.getD 0

end KeywordSpec

end Reserved
