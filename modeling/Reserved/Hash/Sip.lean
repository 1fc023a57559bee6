import Reserved.Hash.Word

/-!
# SipHash-1-3

The keyed hash that spreads words over a table: one round for each word of eight bytes,
three to finish, and 128 bits of output. The key is the table's seed in its second half;
the first half is zero.
-/

namespace Reserved.Sip

structure State where
  v0 : UInt64
  v1 : UInt64
  v2 : UInt64
  v3 : UInt64

def State.round (s : State) : State :=
  let v0 := s.v0 + s.v1
  let v2 := s.v2 + s.v3
  let v1 := rotateLeft s.v1 13 ^^^ v0
  let v3 := rotateLeft s.v3 16 ^^^ v2
  let v0 := rotateLeft v0 32
  let v2 := v2 + v1
  let v0 := v0 + v3
  let v1 := rotateLeft v1 17 ^^^ v2
  let v3 := rotateLeft v3 21 ^^^ v0
  let v2 := rotateLeft v2 32
  ⟨v0, v1, v2, v3⟩

/-- The state for 128 bits of output, with `0` and `seed` as the two halves of the key. -/
def State.init (seed : UInt64) : State :=
  ⟨0x736f6d6570736575, seed ^^^ 0x646f72616e646f6d ^^^ 0xee, 0x6c7967656e657261,
    seed ^^^ 0x7465646279746573⟩

def State.absorb (s : State) (m : UInt64) : State :=
  let s := { s with v3 := s.v3 ^^^ m }.round
  { s with v0 := s.v0 ^^^ m }

/-- Bytes as a number, the least significant first. -/
def littleEndian (bytes : List UInt8) : UInt64 :=
  bytes.foldr (fun b acc => acc <<< 8 ||| b.toUInt64) 0

/-- The words of eight bytes a message is made of. The last holds the bytes that are left
over and, in its top byte, the length of the message modulo 256. -/
def words (length : Nat) : List UInt8 → List UInt64
  | b0 :: b1 :: b2 :: b3 :: b4 :: b5 :: b6 :: b7 :: rest =>
    littleEndian [b0, b1, b2, b3, b4, b5, b6, b7] :: words length rest
  | rest => [littleEndian rest ||| UInt64.ofNat (length % 256) <<< 56]

def State.fold (s : State) : UInt64 :=
  s.v0 ^^^ s.v1 ^^^ s.v2 ^^^ s.v3

/-- The two halves of the hash of `bytes` under `seed`. -/
def hash128 (seed : UInt64) (bytes : List UInt8) : UInt64 × UInt64 :=
  let s := (words bytes.length bytes).foldl State.absorb (State.init seed)
  let s := { s with v2 := s.v2 ^^^ 0xee }.round.round.round
  let t := { s with v1 := s.v1 ^^^ 0xdd }.round.round.round
  (s.fold, t.fold)

end Reserved.Sip
