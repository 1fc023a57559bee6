import Reserved.Hash.Word

/-!
# The keys that the search tries

A fixed sequence of 64-bit keys: xoshiro256++ on a state of 32 bytes, which eight outputs
of PCG32 fill from one small seed. The same keyword set therefore always meets the same
keys in the same order.
-/

namespace Reserved

/-- The state of xoshiro256++. -/
structure KeyStream where
  s0 : UInt64
  s1 : UInt64
  s2 : UInt64
  s3 : UInt64

namespace KeyStream

/-- One step of PCG32's state. -/
def pcgNext (state : UInt64) : UInt64 :=
  state * 6364136223846793005 + 11634580027462260723

/-- What PCG32 puts out for a state. -/
def pcgOutput (state : UInt64) : UInt32 :=
  let x := (((state >>> 18) ^^^ state) >>> 27).toUInt32
  let r := (state >>> 59).toUInt32
  x >>> r ||| x <<< ((32 - r) &&& 31)

/-- The first `n` outputs of PCG32 after `state`. -/
def pcgOutputs : Nat → UInt64 → List UInt32
  | 0, _ => []
  | n + 1, state => pcgOutput (pcgNext state) :: pcgOutputs n (pcgNext state)

/-- Two outputs as one word, the first in the low half. -/
def joinHalves (low high : UInt32) : UInt64 :=
  high.toUInt64 <<< 32 ||| low.toUInt64

def ofSeed (seed : UInt64) : KeyStream :=
  match pcgOutputs 8 seed with
  | [a, b, c, d, e, f, g, h] =>
    ⟨joinHalves a b, joinHalves c d, joinHalves e f, joinHalves g h⟩
  | _ => ⟨0, 0, 0, 0⟩

/-- The stream every search begins with. -/
def initial : KeyStream := ofSeed 1234567890

/-- The key a state holds. -/
def key (s : KeyStream) : UInt64 :=
  rotateLeft (s.s0 + s.s3) 23 + s.s0

def next (s : KeyStream) : KeyStream :=
  let t := s.s1 <<< 17
  let s2 := s.s2 ^^^ s.s0
  let s3 := s.s3 ^^^ s.s1
  let s1 := s.s1 ^^^ s2
  let s0 := s.s0 ^^^ s3
  ⟨s0, s1, s2 ^^^ t, rotateLeft s3 45⟩

end KeyStream

end Reserved
