import PdfBody.Binary64.Basic

/-! Rounding into and out of binary64: the number nearest to a ratio, ties to the even one, and
the integer nearest to a number, ties away from zero. -/
namespace PdfBody.Binary64

def divideEven (num den : Nat) : Nat :=
  let quotient := num / den
  let rest := num % den
  if 2 * rest < den then quotient
  else if den < 2 * rest then quotient + 1
  else quotient + quotient % 2

def binaryOrder (num den : Nat) : Int :=
  let guess : Int := (num.log2 : Int) - den.log2
  if num <<< (-guess).toNat < den <<< guess.toNat then guess - 1 else guess

def nearestMagnitude (num den : Nat) : Nat :=
  if num = 0 then 0
  else
    let unit := max (binaryOrder num den - 52) (-1074)
    let fraction := divideEven (num <<< (-unit).toNat) (den <<< unit.toNat)
    -- added, so that a fraction rounded up to its limit carries into the exponent
    min infiniteMagnitude ((unit + 1074).toNat * fractionPlace + fraction)

def ofRatio (negative : Bool) (num den : Nat) : Binary64 :=
  ofMagnitude negative (nearestMagnitude num den)

def ofInt (n : Int) : Binary64 := ofRatio (n < 0) n.natAbs 1

def ofBinary32 (word : UInt32) : Binary64 :=
  let n := word.toNat
  let negative : Bool := 0x80000000 ≤ n
  let exponent := n / 0x800000 % 256
  let fraction := n % 0x800000
  if exponent = 255 then
    if fraction = 0 then ofMagnitude negative infiniteMagnitude else nan
  else
    let mantissa := if exponent = 0 then fraction else 0x800000 + fraction
    ofRatio negative (mantissa <<< max exponent 1) (1 <<< 150)

def toInt64 (x : Binary64) : Int64 :=
  if x.isNaN then 0
  else if x.isInfinite then if x.negative then Int64.minValue else Int64.maxValue
  else
    let places := (-x.scale).toNat
    let size := (2 * (x.mantissa <<< x.scale.toNat) + (1 <<< places)) / (1 <<< (places + 1))
    let n : Int := if x.negative then -(size : Int) else size
    Int64.ofInt (max Int64.minValue.toInt (min Int64.maxValue.toInt n))

end PdfBody.Binary64
