/-!
# Words

What both the keyed hash and the key stream do with 64-bit words.
-/

namespace Reserved

/-- The bits of `x` moved up by `n`, those that fall off the top coming in below. -/
def rotateLeft (x n : UInt64) : UInt64 :=
  x <<< n ||| x >>> (64 - n)

end Reserved
