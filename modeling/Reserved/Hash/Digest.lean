/-!
# The staleness digest

FNV-1a with 64 bits. An artifact records the digest of the keyword file it was made from,
so that a later edit of the file can be noticed.
-/

namespace Reserved.Digest

def offset : UInt64 := 0xcbf29ce484222325

def prime : UInt64 := 0x100000001b3

/-- A byte enters the low end of the state, which is then multiplied by the prime. -/
def step (state : UInt64) (b : UInt8) : UInt64 :=
  (state ^^^ b.toUInt64) * prime

end Reserved.Digest

namespace Reserved

def digest (bytes : List UInt8) : UInt64 :=
  bytes.foldl Digest.step Digest.offset

end Reserved
