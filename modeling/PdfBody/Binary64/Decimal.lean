import PdfBody.Binary64.Nearest

/-! Decimal texts of binary64 numbers: six decimal places for documents, and the shortest digits
that read back to the same number for messages. -/
namespace PdfBody.Binary64

def signText (x : Binary64) : String := if x.negative then "-" else ""

def padded (width n : Nat) : String :=
  let digits := toString n
  String.ofList (List.replicate (width - digits.length) '0') ++ digits

def sixPlaces (x : Binary64) : String :=
  if x.isNaN then "NaN"
  else if x.isInfinite then x.signText ++ "inf"
  else
    let millionths := divideEven (x.mantissa <<< x.scale.toNat * 1000000) (1 <<< (-x.scale).toNat)
    x.signText ++ toString (millionths / 1000000) ++ "." ++ padded 6 (millionths % 1000000)

def trimmed (text : String) : String :=
  let kept := text.toList.reverse.dropWhile (· == '0')
  String.ofList (kept.dropWhile (· == '.')).reverse

def brief (x : Binary64) : String :=
  let text := x.sixPlaces
  if text.toList.contains '.' then
    let short := trimmed text
    if short = "" then "0" else short
  else text

def digitCount (n : Nat) : Nat := if n = 0 then 0 else (Nat.toDigits 10 n).length

def decimalOrder (num den : Nat) : Int :=
  if den ≤ num then digitCount (num / den)
  else 1 - (digitCount ((den + num - 1) / num - 1) : Int)

def digitsWithin (x : Binary64) (order : Int) (count : Nat) : Option Nat :=
  let power := x.scale - 2
  let shift := order - count
  let left := tenTo (-shift).toNat <<< power.toNat
  let unit := tenTo shift.toNat <<< (-power).toNat
  let value := 4 * x.mantissa * left
  let low := value - (if x.fraction = 0 ∧ 1 < x.exponent then 1 else 2) * left
  let high := value + 2 * left
  let even := x.mantissa % 2 == 0
  let down := value / unit
  let up := down + 1
  let downFits := if even then decide (low ≤ down * unit) else decide (low < down * unit)
  let upFits := if even then decide (up * unit ≤ high) else decide (up * unit < high)
  if downFits && upFits then some (if unit ≤ 2 * (value - down * unit) then up else down)
  else if downFits then some down
  else if upFits then some up
  else none

def shortestFrom (x : Binary64) (order : Int) : Nat → Nat → Nat × Nat
  | count, 0 => (0, count)
  | count, fuel + 1 =>
    match digitsWithin x order count with
    | some digits => (digits, count)
    | none => shortestFrom x order (count + 1) fuel

def shortest (x : Binary64) : List Char × Int :=
  let order := decimalOrder (x.mantissa <<< x.scale.toNat) (1 <<< (-x.scale).toNat)
  let (digits, count) := shortestFrom x order 1 17
  let text := Nat.toDigits 10 digits
  let kept := (text.reverse.dropWhile (· == '0')).reverse
  (kept, order + ((text.length : Int) - count))

def shortestText (x : Binary64) : String :=
  if x.isNaN then "NaN"
  else if x.isInfinite then x.signText ++ "inf"
  else if x.isZero then x.signText ++ "0.0"
  else
    let (digits, order) := x.shortest
    let body : List Char :=
      if order < -3 ∨ 16 < order then
        let tail := digits.drop 1
        digits.take 1 ++ (if tail = [] then [] else '.' :: tail) ++
          'e' :: (toString (order - 1)).toList
      else if order ≤ 0 then
        '0' :: '.' :: (List.replicate (-order).toNat '0' ++ digits)
      else
        let whole := digits.take order.toNat
        let tail := digits.drop order.toNat
        whole ++ List.replicate (order.toNat - whole.length) '0' ++
          '.' :: (if tail = [] then ['0'] else tail)
    x.signText ++ String.ofList body

end PdfBody.Binary64
