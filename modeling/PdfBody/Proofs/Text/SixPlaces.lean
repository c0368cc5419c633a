import PdfBody.Proofs.Text.Numerals

/-! Reals in the clean layout. What is read back is a number of the same sign, so numerical
equality with the number written makes it that very number. Infinities and NaN are words, which no
reader takes for a real. -/
namespace PdfBody

namespace Binary64

theorem isZeroIff {x : Binary64} :
    x.isZero = true ↔ x.bits.toNat = 0 ∨ x.bits.toNat = signPlace := by
  have word := x.bits.toNat_lt
  simp only [isZero, exponent, fraction, fractionPlace, signPlace, Bool.and_eq_true, beq_iff_eq]
  omega

theorem equalsSigned {x y : Binary64} (equal : y.equals x = true)
    (signs : y.negative = x.negative) : y = x := by
  have bits : y.bits.toNat = x.bits.toNat := by
    simp only [equals, Bool.and_eq_true, Bool.or_eq_true, beq_iff_eq] at equal
    rcases equal.2 with same | ⟨zero, zero'⟩
    · rw [same]
    · have side : signPlace ≤ y.bits.toNat ↔ signPlace ≤ x.bits.toNat := decide_eq_decide.mp signs
      rw [isZeroIff] at zero zero'
      simp only [signPlace] at side zero zero'
      omega
  exact congrArg Binary64.mk (UInt64.toNat_inj.mp bits)

theorem nearestMost (num den : Nat) : nearestMagnitude num den ≤ infiniteMagnitude := by
  unfold nearestMagnitude
  split
  · exact Nat.zero_le _
  · exact Nat.min_le_left _ _

theorem ofRatioNegative (negative : Bool) (num den : Nat) :
    (ofRatio negative num den).negative = negative := by
  have small := nearestMost num den
  have bound : infiniteMagnitude < 0x8000000000000000 := by decide
  cases negative with
  | false =>
    have word : (UInt64.ofNat (nearestMagnitude num den)).toNat = nearestMagnitude num den :=
      UInt64.toNat_ofNat_of_lt' (by simp only [UInt64.size]; omega)
    simp only [ofRatio, ofMagnitude, Binary64.negative, signPlace, Bool.false_eq_true, if_false, word]
    exact decide_eq_false (by omega)
  | true =>
    have word : (UInt64.ofNat (signPlace + nearestMagnitude num den)).toNat =
        signPlace + nearestMagnitude num den :=
      UInt64.toNat_ofNat_of_lt' (by simp only [UInt64.size, signPlace]; omega)
    simp only [ofRatio, ofMagnitude, Binary64.negative, if_true, word]
    exact decide_eq_true (by omega)

end Binary64

namespace Lexer
open Numeral Binary64

theorem paddedChars (width n : Nat) : ∀ c ∈ (padded width n).toList, c.isDigit = true := by
  intro c found
  simp only [padded, String.toList_append, String.toList_ofList, List.mem_append,
    List.mem_replicate] at found
  rcases found with ⟨_, rfl⟩ | found
  · rfl
  · exact Bytes.charsDigits n c (by simpa using found)

theorem paddedDigits (width n : Nat) :
    ∀ b ∈ Bytes.ascii (padded width n), Bytes.isDigit b = true :=
  Bytes.digitsOctets (paddedChars width n)

def millionths (x : Binary64) : Nat :=
  divideEven (x.mantissa <<< x.scale.toNat * 1000000) (1 <<< (-x.scale).toNat)

def reread (x : Binary64) : Binary64 :=
  let fraction := Bytes.ascii (padded 6 (millionths x % 1000000))
  .ofRatio x.negative (Bytes.decimalValue (Bytes.decimal (millionths x / 1000000) ++ fraction))
    (tenTo fraction.length)

theorem signWord (x : Binary64) :
    ∃ mark, Signed mark x.negative ∧ Bytes.ascii x.signText = mark := by
  cases h : x.negative with
  | false => exact ⟨[], .none, by simp [signText, h, Bytes.ascii]⟩
  | true => exact ⟨[0x2D], .minus, by simp [signText, h, Bytes.ascii]⟩

theorem sixPlacesText {x : Binary64} (number : x.isNaN = false) (finite : x.isInfinite = false) :
    Bytes.ascii x.sixPlaces =
      Bytes.ascii x.signText ++ (Bytes.decimal (millionths x / 1000000) ++
        0x2E :: Bytes.ascii (padded 6 (millionths x % 1000000))) := by
  have text : x.sixPlaces = x.signText ++ toString (millionths x / 1000000) ++ "." ++
      padded 6 (millionths x % 1000000) := by
    simp only [sixPlaces, number, finite, Bool.false_eq_true, if_false, millionths]
  have dot : Bytes.ascii "." = [0x2E] := by decide
  simp only [text, Bytes.asciiAppend, dot, Bytes.decimal, List.append_assoc, List.singleton_append]

theorem nextSixPlaces {x : Binary64} (number : x.isNaN = false) (finite : x.isInfinite = false)
    {rest : Bytes} (stops : Stops Bytes.isDigit rest) (position : Nat) :
    next ⟨position, Bytes.ascii x.sixPlaces ++ rest⟩ =
      (.ok (.real (reread x)), ⟨position + (Bytes.ascii x.sixPlaces).length, rest⟩) := by
  obtain ⟨mark, signed, spelled⟩ := signWord x
  have text := sixPlacesText number finite
  rw [spelled] at text
  exact nextPlaces signed (Bytes.decimalDigits _) (Bytes.decimalNonempty _) (paddedDigits _ _)
    text stops position

theorem infiniteText {x : Binary64} (infinite : x.isInfinite = true) :
    x.sixPlaces = x.signText ++ "inf" := by
  have number : x.isNaN = false := by
    simp only [isInfinite, Bool.and_eq_true, beq_iff_eq] at infinite
    simp [isNaN, infinite.2]
  rw [sixPlaces, number, if_neg Bool.false_ne_true, if_pos infinite]

def ReadsBack (x : Binary64) : Prop :=
  ∃ y stop, next (.start (Bytes.ascii x.sixPlaces)) = (.ok (.real y), stop) ∧ y.equals x = true

theorem readsBackFinite {x : Binary64} (back : ReadsBack x) :
    x.isNaN = false ∧ x.isInfinite = false := by
  obtain ⟨y, stop, read, _⟩ := back
  refine ⟨Bool.eq_false_iff.mpr fun nan => ?_, Bool.eq_false_iff.mpr fun infinite => ?_⟩
  · have word : next (.start (Bytes.ascii "NaN")) = (.ok (.word "NaN"), ⟨3, []⟩) := rfl
    rw [sixPlaces, if_pos nan, word] at read
    cases read
  · have word : next (.start (Bytes.ascii "inf")) = (.ok (.word "inf"), ⟨3, []⟩) := rfl
    have bare : (next (.start (Bytes.ascii "-inf"))).1 = .error (.parse 1 "Invalid integer: '-'") := rfl
    rw [infiniteText infinite] at read
    cases negative : x.negative with
    | false =>
      rw [signText, negative, if_neg Bool.false_ne_true, String.empty_append, word] at read
      cases read
    | true =>
      rw [signText, negative, if_pos rfl] at read
      rw [show "-" ++ "inf" = "-inf" from rfl] at read
      rw [read] at bare
      cases bare

theorem nextReal {x : Binary64} (back : ReadsBack x) {rest : Bytes}
    (stops : Stops Bytes.isDigit rest) (position : Nat) :
    next ⟨position, Bytes.ascii x.sixPlaces ++ rest⟩ =
      (.ok (.real x), ⟨position + (Bytes.ascii x.sixPlaces).length, rest⟩) := by
  obtain ⟨number, finite⟩ := readsBackFinite back
  obtain ⟨y, stop, read, equal⟩ := back
  have alone := nextSixPlaces number finite (stopsEnd _) 0
  rw [List.append_nil] at alone
  rw [Cursor.start, alone] at read
  cases read
  have same : reread x = x := equalsSigned equal (ofRatioNegative _ _ _)
  rw [nextSixPlaces number finite stops, same]

end Lexer
end PdfBody
