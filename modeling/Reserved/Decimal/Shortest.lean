/-!
# Shortest decimals

A binary floating-point number is written with the fewest decimal digits that read back as
the same number, and of several such decimals with the closest.
-/

namespace Reserved

/-- A finite number `m * 2 ^ q` and the gap to its neighbours. -/
structure Binary where
  m : Nat
  q : Int
  /-- Whether the neighbour below is only half as far away as the one above. -/
  narrowBelow : Bool

def Binary.ofBits (bits : UInt64) : Binary :=
  let e := ((bits >>> 52) &&& 0x7FF).toNat
  let f := (bits &&& 0xFFFFFFFFFFFFF).toNat
  if e = 0 then ⟨f, -1074, false⟩
  else ⟨Nat.pow 2 52 + f, (e : Int) - 1075, f = 0 && 1 < e⟩

/-- A decimal `digits * 10 ^ exponent`. -/
structure Decimal where
  digits : Nat
  exponent : Int

namespace Binary

/-- The factors that turn quarters of the last binary place into multiples of `10 ^ k`: a
numerator and a denominator. -/
def gridRatio (x : Binary) (k : Int) : Nat × Nat :=
  let e := x.q - 2
  (Nat.pow 2 e.toNat * Nat.pow 10 (-k).toNat, Nat.pow 2 (-e).toNat * Nat.pow 10 k.toNat)

/-- Whether `c * 10 ^ k` lies among the numbers that round to `x`. The ends of that interval
belong to it when `m` is even. -/
def readsBack (x : Binary) (k : Int) (c : Nat) : Bool :=
  let (num, den) := x.gridRatio k
  let low := (4 * x.m - if x.narrowBelow then 1 else 2) * num
  let high := (4 * x.m + 2) * num
  if x.m % 2 = 0 then low ≤ c * den && c * den ≤ high else low < c * den && c * den < high

/-- The point of the grid `10 ^ k` to write for `x`: the closer of the two beside it that
reads back, the even one of two as close. -/
def onGrid? (x : Binary) (k : Int) : Option Decimal :=
  let (num, den) := x.gridRatio k
  let v := 4 * x.m * num
  let below := v / den
  let above := below + 1
  let toBelow := v - below * den
  let toAbove := above * den - v
  let belowFirst := toBelow < toAbove || (toBelow = toAbove && below % 2 = 0)
  let order := if belowFirst then [below, above] else [above, below]
  (order.find? (x.readsBack k)).map fun c => ⟨c, k⟩

/-- The exponent of the leading digit of a number that is not zero. -/
def leadingExponent (x : Binary) : Int :=
  let (num, den) := x.gridRatio (-400)
  ((Nat.toDigits 10 (4 * x.m * num / den)).length : Int) - 401

/-- The shortest decimal of a number that is not zero. Seventeen digits always suffice. -/
def shortest (x : Binary) : Decimal :=
  let e := x.leadingExponent
  ((List.range 17).findSome? fun (n : Nat) => x.onGrid? (e - n)).getD ⟨0, 0⟩

end Binary

/-- The decimal without zeros at its end. -/
def Decimal.dropZeros (d : Decimal) : Decimal :=
  let rec go : Nat → Nat → Int → Decimal
    | 0, digits, exponent => ⟨digits, exponent⟩
    | fuel + 1, digits, exponent =>
      if digits % 10 = 0 then go fuel (digits / 10) (exponent + 1) else ⟨digits, exponent⟩
  go 20 d.digits d.exponent

/-- A decimal as text: positional while the leading digit stands for 10^-5 to 10^15, and
otherwise with an exponent that always has its sign. A whole number keeps `.0` where it is
positional. -/
def Decimal.render (d : Decimal) : String :=
  let digits := Nat.toDigits 10 d.digits
  let e : Int := d.exponent + digits.length - 1
  String.ofList <|
    if -5 ≤ e ∧ e < 0 then
      "0.".toList ++ List.replicate ((-e).toNat - 1) '0' ++ digits
    else if 0 ≤ e ∧ e < 16 then
      let whole := e.toNat + 1
      if digits.length ≤ whole then
        digits ++ List.replicate (whole - digits.length) '0' ++ ".0".toList
      else digits.take whole ++ '.' :: digits.drop whole
    else
      let fraction := digits.drop 1
      digits.take 1 ++ (if fraction.isEmpty then [] else '.' :: fraction)
        ++ ['e', if e < 0 then '-' else '+'] ++ Nat.toDigits 10 e.natAbs

/-- A finite number as text. -/
def renderFloat (f : Float) : String :=
  let bits := f.toBits
  let sign := if bits >>> 63 = 1 then "-" else ""
  let x := Binary.ofBits (bits &&& 0x7FFFFFFFFFFFFFFF)
  if x.m = 0 then sign ++ "0.0" else sign ++ x.shortest.dropZeros.render

end Reserved
