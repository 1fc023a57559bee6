import Reserved.Hash.KeyStream
import Reserved.Table.Basic

/-!
# Placing words without collision

Hash and displace: under a key, each word falls into a bucket, about five words to one. The
buckets are placed one after the other, the largest first, each by the first displacement
that sends its words to slots that are free and distinct. If a bucket finds none, the next
key of the stream is tried.
-/

namespace Reserved

/-- A word that is to be placed: its number and its hashes. -/
structure Member where
  word : Nat
  hashes : Hashes

/-- The words that share a displacement. -/
structure Bucket where
  index : Nat
  members : List Member

/-- Where every word stands. -/
structure Placement where
  /-- The key, combined with the salt: the seed under which the words were hashed. -/
  seed : UInt64
  /-- One for each bucket. -/
  displacements : List Displacement
  /-- For each slot the number of its word. -/
  order : List (Option Nat)

namespace Placement

/-- One bucket for every five words begun. -/
def bucketCount (n : Nat) : Nat :=
  (n + 4) / 5

def members (seed : UInt64) (words : List (List UInt8)) : List Member :=
  words.zipIdx.map fun (word, i) => ⟨i, Hashes.of seed word⟩

/-- The number of the bucket a member belongs to. -/
def bucketOf (count : Nat) (m : Member) : Nat :=
  (m.hashes.bucket % UInt32.ofNat count).toNat

/-- Every bucket with its members, by number. -/
def buckets (count : Nat) (ms : List Member) : List Bucket :=
  (List.range count).map fun b => ⟨b, ms.filter fun m => bucketOf count m = b⟩

/-- The buckets in the order they are placed: larger ones first, equal ones by number. -/
def bySize (bs : List Bucket) : List Bucket :=
  bs.mergeSort fun a b => b.members.length ≤ a.members.length

/-- The slot a displacement gives to a member. -/
def slotOf (slotCount : Nat) (d : Displacement) (m : Member) : Nat :=
  (d.apply m.hashes % UInt32.ofNat slotCount).toNat

/-- Whether the slots are free and no two of them the same. -/
def fits (taken : Array (Option Nat)) (slots : List Nat) : Bool :=
  slots.all (fun i => taken[i]? == some none) && decide slots.Nodup

/-- The first displacement that places the members, the factor counting slower. -/
def firstFit (slotCount : Nat) (taken : Array (Option Nat)) (ms : List Member) :
    Option Displacement :=
  (List.range slotCount).findSome? fun factor =>
    (List.range slotCount).findSome? fun shift =>
      let d : Displacement := ⟨UInt32.ofNat factor, UInt32.ofNat shift⟩
      if fits taken (ms.map (slotOf slotCount d)) then some d else none

/-- Marks the slots of the members as taken by them. -/
def occupy (slotCount : Nat) (d : Displacement) (taken : Array (Option Nat)) (ms : List Member) :
    Array (Option Nat) :=
  ms.foldl (fun taken m => taken.setIfInBounds (slotOf slotCount d m) (some m.word)) taken

/-- Places the buckets in order, on top of the slots taken and the displacements chosen
before them. -/
def placeBuckets (slotCount : Nat) (taken : Array (Option Nat))
    (displacements : Array Displacement) :
    List Bucket → Option (Array (Option Nat) × Array Displacement)
  | [] => some (taken, displacements)
  | b :: rest =>
    match firstFit slotCount taken b.members with
    | none => none
    | some d =>
      placeBuckets slotCount (occupy slotCount d taken b.members)
        (displacements.setIfInBounds b.index d) rest

/-- The placement under one seed, if there is one. -/
def underSeed? (words : List (List UInt8)) (seed : UInt64) : Option Placement :=
  let n := words.length
  let count := bucketCount n
  let bs := bySize (buckets count (members seed words))
  (placeBuckets n (Array.replicate n none) (Array.replicate count ⟨0, 0⟩) bs).map
    fun (taken, displacements) => ⟨seed, displacements.toList, taken.toList⟩

/-- The placement under the first of the next `tries` keys that has one. Each key is
combined with the salt. -/
def search (words : List (List UInt8)) (salt : UInt64) : Nat → KeyStream → Option Placement
  | 0, _ => none
  | tries + 1, keys =>
    match underSeed? words (keys.key ^^^ salt) with
    | some p => some p
    | none => search words salt tries keys.next

/-- How many keys a search tries before it gives up: as many as the stream has states. Every
state the stream ever comes to is among its first `2 ^ 256`, so a search that gives up would
have gone on forever. -/
def searchLimit : Nat := Nat.pow 2 256

/-- The placement that the stream of keys leads to. -/
def find? (words : List (List UInt8)) (salt : UInt64) : Option Placement :=
  search words salt searchLimit KeyStream.initial

end Placement

end Reserved
