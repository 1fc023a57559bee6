import Reserved.TokenKind
import Reserved.Text.Utf8
import Reserved.Hash.Sip

/-!
# Perfect hash tables

A table has one slot for each keyword and a pair of displacements for each bucket. A word
is hashed under the table's seed; the hash chooses a bucket, and the bucket's displacements
choose the one slot that can hold the word. Whatever stands there is confirmed byte by
byte, so a word that merely shares a slot with a keyword is no keyword.

Positions are computed in 32 bits. A count that is a multiple of 2^32 leaves nothing to
divide by; there the functions of this module answer `none`.
-/

namespace Reserved

/-- The two numbers that move the words of a bucket to their slots. -/
structure Displacement where
  factor : UInt32
  shift : UInt32
  deriving DecidableEq, Repr, Inhabited

structure Slot where
  text : String
  kind : TokenKind
  deriving DecidableEq, Repr

/-- The three 32-bit hashes of a word. -/
structure Hashes where
  /-- Chooses the bucket. -/
  bucket : UInt32
  /-- Multiplied with a displacement's factor. -/
  scaled : UInt32
  /-- Added as it is. -/
  fixed : UInt32

def Hashes.of (seed : UInt64) (word : List UInt8) : Hashes :=
  let (h1, h2) := Sip.hash128 seed word
  ⟨(h1 >>> 32).toUInt32, h1.toUInt32, h2.toUInt32⟩

/-- Where a displacement puts a word, before it is reduced to the number of slots. -/
def Displacement.apply (d : Displacement) (h : Hashes) : UInt32 :=
  d.shift + h.scaled * d.factor + h.fixed

/-- The slot of `word` among `slotCount` slots. -/
def position? (seed : UInt64) (displacements : List Displacement) (slotCount : Nat)
    (word : List UInt8) : Option Nat :=
  let h := Hashes.of seed word
  let buckets := UInt32.ofNat displacements.length
  let slots := UInt32.ofNat slotCount
  if buckets = 0 ∨ slots = 0 then none
  else
    displacements[(h.bucket % buckets).toNat]?.map fun d => (d.apply h % slots).toNat

/-- A table as the search makes it. -/
structure HashTable where
  seed : UInt64
  /-- Length in bytes of the shortest keyword. -/
  minLen : Nat
  /-- Length in bytes of the longest keyword. -/
  maxLen : Nat
  /-- One for each bucket. -/
  displacements : List Displacement
  /-- One for each keyword. -/
  slots : List Slot
  deriving DecidableEq, Repr

namespace HashTable

/-- The kind of `word`: that of the slot it hashes to if the slot holds the very word, and
the sentinel otherwise. Lengths that no keyword has are not hashed. -/
def lookup? (t : HashTable) (word : List UInt8) : Option TokenKind :=
  if t.slots.isEmpty || t.displacements.isEmpty
      || !(t.minLen ≤ word.length && word.length ≤ t.maxLen) then
    some .sentinel
  else do
    let i ← position? t.seed t.displacements t.slots.length word
    let slot ← t.slots[i]?
    return if slot.text.utf8 = word then slot.kind else .sentinel

end HashTable

/-- A table as data of a program: what an artifact declares. -/
structure StaticTable where
  seed : UInt64
  minLen : Nat
  maxLen : Nat
  displacements : List (UInt32 × UInt32)
  slots : List (String × TokenKind)
  deriving DecidableEq, Repr

namespace StaticTable

/-- The kind of `candidate`, or the sentinel. -/
def classify? (t : StaticTable) (candidate : List UInt8) : Option TokenKind :=
  let length := candidate.length
  if length < t.minLen ∨ t.maxLen < length ∨ t.slots = [] ∨ t.displacements = [] then
    some .sentinel
  else
    let displacements := t.displacements.map fun (factor, shift) => ⟨factor, shift⟩
    match position? t.seed displacements t.slots.length candidate with
    | none => none
    | some i =>
      t.slots[i]?.map fun (text, kind) =>
        if text.utf8 = candidate then kind else .sentinel

def length (t : StaticTable) : Nat :=
  t.slots.length

def isEmpty (t : StaticTable) : Bool :=
  t.slots.isEmpty

end StaticTable

/-- The data that a table is declared with. -/
def HashTable.toStatic (t : HashTable) : StaticTable where
  seed := t.seed
  minLen := t.minLen
  maxLen := t.maxLen
  displacements := t.displacements.map fun d => (d.factor, d.shift)
  slots := t.slots.map fun s => (s.text, s.kind)

end Reserved
