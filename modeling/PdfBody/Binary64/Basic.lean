/-! Real numbers as IEEE 754 binary64 words. All arithmetic on them here is exact arithmetic on
integers; the machine's floating-point unit is never asked. -/
namespace PdfBody

structure Binary64 where
  bits : UInt64
  deriving DecidableEq, Repr, Inhabited

namespace Binary64

def signPlace : Nat := 0x8000000000000000
def fractionPlace : Nat := 0x10000000000000

def tenTo (n : Nat) : Nat := Nat.pow 10 n

def negative (x : Binary64) : Bool := signPlace ≤ x.bits.toNat

def exponent (x : Binary64) : Nat := x.bits.toNat / fractionPlace % 2048

def fraction (x : Binary64) : Nat := x.bits.toNat % fractionPlace

def isNaN (x : Binary64) : Bool := x.exponent == 2047 && x.fraction != 0

def isInfinite (x : Binary64) : Bool := x.exponent == 2047 && x.fraction == 0

def isZero (x : Binary64) : Bool := x.exponent == 0 && x.fraction == 0

def mantissa (x : Binary64) : Nat :=
  if x.exponent = 0 then x.fraction else fractionPlace + x.fraction

def scale (x : Binary64) : Int := max x.exponent 1 - 1075

def ofMagnitude (negative : Bool) (magnitude : Nat) : Binary64 :=
  ⟨UInt64.ofNat (if negative then signPlace + magnitude else magnitude)⟩

def infiniteMagnitude : Nat := 2047 * fractionPlace

def nan : Binary64 := ⟨0x7FF8000000000000⟩

def equals (x y : Binary64) : Bool :=
  !x.isNaN && !y.isNaN && (x.bits == y.bits || x.isZero && y.isZero)

end Binary64
end PdfBody
