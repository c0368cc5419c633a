import Mathlib.Data.Nat.Digits.Defs
import PdfBody.Proofs.Binary64.Rounding
import PdfBody.Proofs.Text.Integers
import PdfBody.Proofs.Text.Spelling

/-! Reals in the compact layout. The zeros that end the six places are dropped, and with the last
place the point, so a real without places is read as an integer or, if it is too large for one,
refused. Six places settle a real: what they are read as has the same six places. -/
namespace PdfBody

namespace Bytes

theorem decimalValueZeros (zeros : Nat) : decimalValue (List.replicate zeros 0x30) = 0 := by
  induction zeros with
  | zero => rfl
  | succ zeros ih => exact ih

end Bytes

namespace Lexer
open Binary64

theorem paddedZeros (width n : Nat) : Bytes.ascii (padded width n) =
    List.replicate (width - (Bytes.decimal n).length) 0x30 ++ Bytes.decimal n := by
  simp [padded, Bytes.ascii, Bytes.decimal, List.map_replicate, ← String.length_toList]

theorem paddedLength {n : Nat} (small : n < 1000000) :
    (Bytes.ascii (padded 6 n)).length = 6 := by
  have short : (Nat.toDigits 10 n).length ≤ 6 := Nat.toDigits_length 10 n 6 (by decide) small
  have same : (Bytes.decimal n).length = (Nat.toDigits 10 n).length := by
    rw [Bytes.decimalChars, List.length_map]
  rw [paddedZeros, List.length_append, List.length_replicate]
  omega

theorem paddedValue (n : Nat) : Bytes.decimalValue (Bytes.ascii (padded 6 n)) = n := by
  rw [paddedZeros, Bytes.decimalValueAppend, Bytes.decimalValueZeros, Bytes.decimalValueDecimal,
    Nat.zero_mul, Nat.zero_add]

theorem trimmedZeros {last : Char} (some : last ≠ '0') (front : List Char) (zeros : Nat) :
    (front ++ last :: List.replicate zeros '0').reverse.dropWhile (· == '0') =
      last :: front.reverse := by
  have same : (front ++ last :: List.replicate zeros '0').reverse =
      List.replicate zeros '0' ++ last :: front.reverse := by simp
  rw [same, List.dropWhile_append_of_pos (by simp), List.dropWhile_cons_of_neg (by simpa using some)]

theorem trimmedPlaces {last : Char} (some : last ≠ '0') (solid : last ≠ '.') (front : List Char)
    (zeros : Nat) : trimmed (String.ofList (front ++ last :: List.replicate zeros '0')) =
      String.ofList (front ++ [last]) := by
  simp only [trimmed, String.toList_ofList, trimmedZeros some]
  rw [List.dropWhile_cons_of_neg (by simpa using solid), List.reverse_cons, List.reverse_reverse]

theorem trimmedPoint {last : Char} (solid : last ≠ '.') (front : List Char) (zeros : Nat) :
    trimmed (String.ofList (front ++ [last] ++ '.' :: List.replicate zeros '0')) =
      String.ofList (front ++ [last]) := by
  simp only [trimmed, String.toList_ofList, trimmedZeros (show '.' ≠ '0' by decide)]
  rw [List.dropWhile_cons_of_pos rfl, List.reverse_append, List.reverse_singleton,
    List.singleton_append, List.dropWhile_cons_of_neg (by simpa using solid), List.reverse_cons,
    List.reverse_reverse]

theorem zerosBehind (digits : List Char) : (∃ zeros, digits = List.replicate zeros '0') ∨
    ∃ front last zeros, last ≠ '0' ∧ digits = front ++ last :: List.replicate zeros '0' := by
  induction digits with
  | nil => exact .inl ⟨0, rfl⟩
  | cons c digits ih =>
    rcases ih with ⟨zeros, rfl⟩ | ⟨front, last, zeros, some, rfl⟩
    · by_cases zero : c = '0'
      · exact .inl ⟨zeros + 1, by rw [zero, List.replicate_succ]⟩
      · exact .inr ⟨[], c, zeros, zero, rfl⟩
    · exact .inr ⟨c :: front, last, zeros, some, rfl⟩

theorem sixPlacesChars {x : Binary64} (finite : x.IsFinite) :
    x.sixPlaces = String.ofList (x.signText.toList ++ (Nat.toDigits 10 (millionths x / 1000000) ++
      '.' :: (padded 6 (millionths x % 1000000)).toList)) := by
  apply String.toList_inj.mp
  simp only [sixPlaces, finite.1, finite.2, Bool.false_eq_true, if_false, millionths]
  simp

theorem briefTrimmed {x : Binary64} (finite : x.IsFinite)
    (kept : List Char) (last : Char)
    (short : trimmed x.sixPlaces = String.ofList (kept ++ [last])) :
    Bytes.ascii x.brief = (kept ++ [last]).map fun c => c.toNat.toUInt8 := by
  have pointed : x.sixPlaces.toList.contains '.' = true := by
    rw [sixPlacesChars finite, String.toList_ofList]
    simp
  have some : trimmed x.sixPlaces ≠ "" := fun empty => by
    have chars := congrArg String.toList (short.symm.trans empty)
    simp at chars
  have text : x.brief = trimmed x.sixPlaces := by simp only [brief, pointed, if_true, if_neg some]
  rw [text, short, Bytes.ascii, String.toList_ofList]

theorem digitSolid {c : Char} (digit : c.isDigit = true) : c ≠ '.' := by
  rintro rfl
  cases digit

theorem briefWhole {x : Binary64} (finite : x.IsFinite)
    (whole : millionths x % 1000000 = 0) :
    Bytes.ascii x.brief = Bytes.ascii x.signText ++ Bytes.decimal (millionths x / 1000000) := by
  have digits := Bytes.charsDigits (millionths x / 1000000)
  have split := List.dropLast_append_getLast
    (show Nat.toDigits 10 (millionths x / 1000000) ≠ [] by simp)
  generalize (Nat.toDigits 10 (millionths x / 1000000)).dropLast = front at split
  generalize List.getLast _ _ = last at split
  have solid : last ≠ '.' := digitSolid (digits last (by simp [← split]))
  have zeros : (padded 6 0).toList = List.replicate 6 '0' := by decide
  have short := trimmedPoint solid (x.signText.toList ++ front) 6
  rw [← zeros, ← whole, List.append_assoc (x.signText.toList ++ front), List.append_assoc,
    ← List.append_assoc front, split, ← sixPlacesChars finite] at short
  rw [briefTrimmed finite _ last short, Bytes.decimalChars, Bytes.ascii, ← split,
    List.append_assoc, List.map_append]

theorem briefPlaces {x : Binary64} (finite : x.IsFinite)
    (part : millionths x % 1000000 ≠ 0) :
    ∃ places zeros, (∀ b ∈ places, Bytes.isDigit b = true) ∧
      Bytes.ascii (padded 6 (millionths x % 1000000)) = places ++ List.replicate zeros 0x30 ∧
      Bytes.ascii x.brief = Bytes.ascii x.signText ++
        (Bytes.decimal (millionths x / 1000000) ++ 0x2E :: places) := by
  have value := paddedValue (millionths x % 1000000)
  have digits := paddedChars 6 (millionths x % 1000000)
  have chars := sixPlacesChars finite
  rw [Bytes.ascii] at value ⊢
  generalize (padded 6 (millionths x % 1000000)).toList = padding at value digits chars ⊢
  rcases zerosBehind padding with ⟨zeros, rfl⟩ | ⟨front, last, zeros, some, rfl⟩
  · rw [List.map_replicate] at value
    exact absurd (value.symm.trans (Bytes.decimalValueZeros zeros)) part
  · have solid : last ≠ '.' := digitSolid (digits last (by simp))
    have short := trimmedPlaces some solid
      (x.signText.toList ++ (Nat.toDigits 10 (millionths x / 1000000) ++ '.' :: front)) zeros
    rw [List.append_assoc, List.append_assoc, List.cons_append, ← chars] at short
    refine ⟨(front ++ [last]).map fun c => c.toNat.toUInt8, zeros, ?_, ?_, ?_⟩
    · exact Bytes.digitsOctets fun c among => digits c (by
        rw [List.append_cons]
        exact List.mem_append_left _ among)
    · rw [List.append_cons, List.map_append, List.map_replicate]
      rfl
    · rw [briefTrimmed finite _ last short, Bytes.decimalChars, Bytes.ascii]
      simp only [List.append_assoc, List.map_append, List.map_cons, List.cons_append]
      rfl

theorem millionthsRatio (x : Binary64) :
    ((x.mantissa <<< x.scale.toNat * 1000000 : Nat) : ℚ) / (1 <<< (-x.scale).toNat : Nat) =
      x.magnitude * 1000000 := by
  have ratio := shiftedRatio x.mantissa 1 x.scale
  rw [Nat.cast_one, div_one] at ratio
  rw [magnitude, ← ratio, Nat.cast_mul, div_mul_eq_mul_div]
  norm_num

theorem millionthsNear (x : Binary64) :
    |(millionths x : ℚ) - x.magnitude * 1000000| ≤ 1 / 2 := by
  have error := divideEvenError (x.mantissa <<< x.scale.toNat * 1000000)
    (shiftedSome one_pos (-x.scale).toNat)
  rwa [millionthsRatio] at error

theorem millionthsSame {x y : Binary64} (same : x.magnitude = y.magnitude) :
    millionths x = millionths y := by
  refine divideEvenRatio (shiftedSome one_pos _) (shiftedSome one_pos _) ?_
  rw [millionthsRatio, millionthsRatio, same]

theorem rereadRatio (x : Binary64) :
    reread x = ofRatio x.negative (millionths x) 1000000 := by
  have small : millionths x % 1000000 < 1000000 := Nat.mod_lt _ (by decide)
  have value : Bytes.decimalValue (Bytes.decimal (millionths x / 1000000) ++
      Bytes.ascii (padded 6 (millionths x % 1000000))) = millionths x := by
    rw [Bytes.decimalValueAppend, Bytes.decimalValueDecimal, paddedValue, paddedLength small]
    exact Nat.div_add_mod' (millionths x) 1000000
  rw [reread, value, paddedLength small]
  rfl

theorem millionthsFine {k : Nat} {unit : Int} {steps : Nat}
    (stepped : Stepped ((k : ℚ) / 1000000) unit steps) (fine : unit ≤ -20) {y : Binary64}
    (value : y.magnitude = steps * 2 ^ unit) : millionths y = k := by
  refine nearestUnique (millionthsNear y) ?_
  have error := abs_le.mp stepped.error
  have small : (2 : ℚ) ^ unit ≤ 2 ^ (-20 : Int) := zpow_le_zpow_right₀ one_le_two fine
  norm_num at small
  rw [value, abs_lt]
  constructor
  · linarith [error.2]
  · linarith [error.1]

theorem millionthsCoarse (x : Binary64) {unit : Int} (coarse : -20 < unit) :
    |x.magnitude - (millionths x : ℚ) / 1000000| < 2 ^ unit / 2 := by
  have written := abs_le.mp (millionthsNear x)
  have wide : (2 : ℚ) ^ (-19 : Int) ≤ 2 ^ unit := zpow_le_zpow_right₀ one_le_two (by omega)
  norm_num at wide
  rw [abs_lt]
  constructor
  · linarith [written.2]
  · linarith [written.1]

theorem placesSettled {x : Binary64} (finite : x.IsFinite) :
    (reread x).IsFinite ∧ millionths (reread x) = millionths x := by
  rw [rereadRatio]
  rcases Nat.eq_zero_or_pos (millionths x) with zero | some
  · obtain ⟨finite, none⟩ := ofRatioZero x.negative 1000000
    rw [zero]
    exact ⟨finite, nearestUnique (millionthsNear _) (by rw [none]; norm_num)⟩
  obtain ⟨unit, steps, stepped, rounded⟩ :=
    ofRatioStepped x.negative some (show 0 < 1000000 by decide)
  rw [Nat.cast_ofNat] at stepped
  rcases Int.lt_or_le (-20) unit with coarse | fine
  · obtain ⟨below, same⟩ := roundedNearby finite stepped (millionthsCoarse x coarse)
    obtain ⟨finite, value⟩ := rounded below
    exact ⟨finite, millionthsSame (value.trans same)⟩
  · have below : Representable unit steps := by
      have most := stepped.most
      simp only [Representable, infiniteMagnitude, fractionPlace] at most ⊢
      omega
    obtain ⟨finite, value⟩ := rounded below
    exact ⟨finite, millionthsFine stepped fine value⟩

theorem rereadShort {x : Binary64} {places : Bytes} {zeros : Nat}
    (padding : Bytes.ascii (padded 6 (millionths x % 1000000)) =
      places ++ List.replicate zeros 0x30) :
    ofRatio x.negative (Bytes.decimalValue (Bytes.decimal (millionths x / 1000000) ++ places))
      (tenTo places.length) = reread x := by
  have tens (n : Nat) : 0 < tenTo n := Nat.pow_pos (by decide)
  have longer : tenTo (places.length + zeros) = tenTo places.length * tenTo zeros :=
    Nat.pow_add 10 places.length zeros
  rw [reread, padding, ← List.append_assoc, Bytes.decimalValueAppend _ (List.replicate zeros 0x30),
    Bytes.decimalValueZeros, List.length_append, List.length_replicate, longer, Nat.add_zero]
  have short := tens places.length
  have factor := tens zeros
  generalize Bytes.decimalValue (Bytes.decimal (millionths x / 1000000) ++ places) = num
  generalize tenTo places.length = den at short ⊢
  generalize tenTo zeros = scale at factor ⊢
  have same : nearestMagnitude num den = nearestMagnitude (num * scale) (den * scale) := by
    refine nearestRatio short (Nat.mul_pos short factor) ?_
    rw [Nat.cast_mul, Nat.cast_mul, mul_div_mul_right _ _ (Nat.cast_ne_zero.mpr factor.ne')]
  rw [ofRatio, same, ofRatio]

end Lexer

namespace Value
open Binary64 Lexer

def settled (x : Binary64) : Value :=
  if millionths x % 1000000 = 0 then
    int (Int64.ofInt (signedValue x.negative (millionths x / 1000000)))
  else real (reread x)

/-- A real that is written without places is small enough for an integer. -/
def Bounded (x : Binary64) : Prop :=
  millionths x % 1000000 = 0 → FitsInt (signedValue x.negative (millionths x / 1000000))

theorem briefCuts : RealsCut .compact IsFinite Bounded settled := by
  refine ⟨fun x => by unfold settled; split <;> simp [tokens], fun x finite rest stops => ?_⟩
  obtain ⟨mark, signed, signText⟩ := signWord x
  by_cases whole : millionths x % 1000000 = 0
  · have text := briefWhole finite whole
    rw [signText] at text
    refine ⟨fun bounded => ?_, fun unbounded position => .blank blankSpace ?_⟩
    · rw [settled, if_pos whole]
      refine spelledBare .compact (by simp) fun position => ?_
      have read := nextDecimal signed (bounded whole) stops position
      rwa [Nat.add_assoc, ← List.length_append, ← List.append_assoc, ← text] at read
    · have large : ¬ FitsInt (signedValue x.negative (millionths x / 1000000)) :=
        fun fits => unbounded fun _ => fits
      obtain ⟨fault, stop, read⟩ := nextTooLarge signed large stops (position + [0x20].length)
      rw [← List.append_assoc, ← text] at read
      exact .now read
  · obtain ⟨places, zeros, digits, padding, text⟩ := briefPlaces finite whole
    rw [signText] at text
    refine ⟨fun _ => ?_, fun unbounded => absurd (fun holds => absurd holds whole) unbounded⟩
    rw [settled, if_neg whole]
    refine spelledBare .compact (by simp) fun position => ?_
    have read := nextPlaces signed (Bytes.decimalDigits _) (Bytes.decimalNonempty _) digits text
      (stops.of fun _ digit => (Bytes.digitRegular digit).1) position
    rwa [rereadShort padding] at read

end Value
end PdfBody
