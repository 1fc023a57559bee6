/-!
# UTF-8

Characters as bytes and back. Reading goes through one list of pieces, each a character or
a run of bytes that belongs to none; the strict reading reports the first such run, the
lossy one puts U+FFFD in the place of each.
-/

namespace Reserved.Utf8

/-- The bytes of a character: one below U+0080, two below U+0800, three below U+10000,
four from there on. -/
def encodeChar (c : Char) : List UInt8 :=
  let v := c.toNat
  if v < 0x80 then [UInt8.ofNat v]
  else if v < 0x800 then
    [UInt8.ofNat (0xC0 + v / 64), UInt8.ofNat (0x80 + v % 64)]
  else if v < 0x10000 then
    [UInt8.ofNat (0xE0 + v / 4096), UInt8.ofNat (0x80 + v / 64 % 64),
      UInt8.ofNat (0x80 + v % 64)]
  else
    [UInt8.ofNat (0xF0 + v / 262144), UInt8.ofNat (0x80 + v / 4096 % 64),
      UInt8.ofNat (0x80 + v / 64 % 64), UInt8.ofNat (0x80 + v % 64)]

/-- How many bytes a character takes. -/
def width (c : Char) : Nat :=
  (encodeChar c).length

def encode (cs : List Char) : List UInt8 :=
  cs.flatMap encodeChar

/-- How many bytes a text takes. -/
def size : List Char → Nat
  | [] => 0
  | c :: cs => width c + size cs

@[simp]
theorem encode_nil : encode [] = [] := rfl

@[simp]
theorem encode_cons (c : Char) (cs : List Char) :
    encode (c :: cs) = encodeChar c ++ encode cs := rfl

@[simp]
theorem encode_append (a b : List Char) : encode (a ++ b) = encode a ++ encode b :=
  List.flatMap_append

/-- A character takes at least a byte. -/
theorem width_pos (c : Char) : 0 < width c := by
  unfold width encodeChar
  simp only
  split
  · exact Nat.one_pos
  · split
    · exact Nat.two_pos
    · split <;> simp

theorem length_encode (cs : List Char) : (encode cs).length = size cs := by
  induction cs with
  | nil => rfl
  | cons c rest ih =>
    rw [encode_cons, List.length_append, ih]
    rfl

/-- A character of which some bytes have been read and some are owed. -/
structure Begun where
  /-- Bytes still to come, at least one. -/
  owed : Nat
  /-- Least value of the next byte. -/
  low : Nat
  /-- Greatest value of the next byte. -/
  high : Nat
  /-- The bits read so far. -/
  value : Nat
  /-- Bytes read so far. -/
  read : Nat

/-- What a first byte from 0x80 on begins. The bounds of the second byte keep out the forms
that are too long, the surrogates and everything above U+10FFFF. -/
def begin? (b : Nat) : Option Begun :=
  if 0xC2 ≤ b ∧ b ≤ 0xDF then some ⟨1, 0x80, 0xBF, b - 0xC0, 1⟩
  else if b = 0xE0 then some ⟨2, 0xA0, 0xBF, 0, 1⟩
  else if b = 0xED then some ⟨2, 0x80, 0x9F, 0xD, 1⟩
  else if 0xE1 ≤ b ∧ b ≤ 0xEF then some ⟨2, 0x80, 0xBF, b - 0xE0, 1⟩
  else if b = 0xF0 then some ⟨3, 0x90, 0xBF, 0, 1⟩
  else if 0xF1 ≤ b ∧ b ≤ 0xF3 then some ⟨3, 0x80, 0xBF, b - 0xF0, 1⟩
  else if b = 0xF4 then some ⟨3, 0x80, 0x8F, 4, 1⟩
  else none

/-- A stretch of a byte sequence. -/
inductive Piece
  | char (c : Char)
  /-- Bytes that the next byte rules out as the beginning of a character. -/
  | ill (length : Nat)
  /-- A beginning of a character at which the input ends. -/
  | cut (length : Nat)

/-- The first byte of a character, or a byte that begins none. -/
def start (b : UInt8) : List Piece × Option Begun :=
  if b.toNat < 0x80 then ([.char (Char.ofNat b.toNat)], none)
  else
    match begin? b.toNat with
    | some p => ([], some p)
    | none => ([.ill 1], none)

/-- One more byte: the pieces it completes and the character it leaves begun. -/
def advance : Option Begun → UInt8 → List Piece × Option Begun
  | none, b => start b
  | some p, b =>
    if p.low ≤ b.toNat ∧ b.toNat ≤ p.high then
      let value := p.value * 64 + (b.toNat - 0x80)
      if p.owed ≤ 1 then ([.char (Char.ofNat value)], none)
      else ([], some ⟨p.owed - 1, 0x80, 0xBF, value, p.read + 1⟩)
    else
      let (out, next) := start b
      (.ill p.read :: out, next)

/-- The pieces of a byte sequence, after what has been begun before it. -/
def piecesFrom : Option Begun → List UInt8 → List Piece
  | none, [] => []
  | some p, [] => [.cut p.read]
  | st, b :: rest =>
    let (out, next) := advance st b
    out ++ piecesFrom next rest

def pieces (bytes : List UInt8) : List Piece :=
  piecesFrom none bytes

/-- Where and how a byte sequence stops being UTF-8. -/
structure Fault where
  /-- Bytes before it, all of whole characters. -/
  index : Nat
  /-- Length of the ill-formed run; absent if the input ends within a character. -/
  length : Option Nat
  deriving DecidableEq, Repr

def Fault.message (f : Fault) : String :=
  match f.length with
  | some n => s!"invalid utf-8 sequence of {n} bytes from index {f.index}"
  | none => s!"incomplete utf-8 byte sequence from index {f.index}"

/-- The characters of pieces that stand at byte `index`, or the first that is none. -/
def strict (index : Nat) : List Piece → Except Fault (List Char)
  | [] => .ok []
  | .char c :: rest =>
    match strict (index + width c) rest with
    | .ok cs => .ok (c :: cs)
    | .error f => .error f
  | .ill n :: _ => .error ⟨index, some n⟩
  | .cut _ :: _ => .error ⟨index, none⟩

/-- The text a byte sequence spells, if it is UTF-8 from end to end. -/
def decode (bytes : List UInt8) : Except Fault (List Char) :=
  strict 0 (pieces bytes)

/-- The text of a byte sequence with U+FFFD for each run that spells nothing. -/
def decodeLossy (bytes : List UInt8) : List Char :=
  (pieces bytes).map fun
    | .char c => c
    | .ill _ => '\uFFFD'
    | .cut _ => '\uFFFD'

/-- A text without its first `n` bytes; absent if these end within a character. -/
def dropBytes? (n : Nat) : List Char → Option (List Char)
  | [] => if n = 0 then some [] else none
  | c :: rest =>
    if n = 0 then some (c :: rest)
    else if width c ≤ n then dropBytes? (n - width c) rest
    else none

/-- The first `n` bytes of a text; absent if these end within a character. -/
def takeBytes? (n : Nat) : List Char → Option (List Char)
  | [] => if n = 0 then some [] else none
  | c :: rest =>
    if n = 0 then some []
    else if width c ≤ n then (takeBytes? (n - width c) rest).map (c :: ·)
    else none

/-- The part of a text that takes the `length` bytes from byte `start` on; absent unless
both ends fall between characters. -/
def slice? (start length : Nat) (cs : List Char) : Option (List Char) :=
  (dropBytes? start cs).bind (takeBytes? length)

/-- Bytes may be dropped in two goes, the first of which ends between characters. -/
theorem dropBytes?_add {a : Nat} (b : Nat) {cs rest : List Char}
    (h : dropBytes? a cs = some rest) : dropBytes? (a + b) cs = dropBytes? b rest := by
  induction cs generalizing a with
  | nil =>
    unfold dropBytes? at h
    split at h
    · next ha =>
      obtain rfl := Option.some.inj h
      rw [ha, Nat.zero_add]
    · contradiction
  | cons c tail ih =>
    unfold dropBytes? at h
    split at h
    · next ha =>
      obtain rfl := Option.some.inj h
      rw [ha, Nat.zero_add]
    · next ha =>
      split at h
      · next hw =>
        have hab : a + b - width c = a - width c + b := by omega
        rw [dropBytes?, if_neg (by omega), if_pos (by omega), hab]
        exact ih h
      · contradiction

end Reserved.Utf8

/-- The UTF-8 bytes of a string. -/
def String.utf8 (s : String) : List UInt8 :=
  Reserved.Utf8.encode s.toList
