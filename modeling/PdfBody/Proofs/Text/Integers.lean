import Mathlib.Data.List.Induction
import Mathlib.Data.Nat.Digits.Defs
import PdfBody.Proofs.Text.Numerals

/-! Integers of any length. What is read digit by digit is the value of the digits by their places, so
zeros in front count for nothing. That value, with its sign, is what is given back or, outside the range of
a word, refused. -/
namespace PdfBody

namespace Bytes

def placeValue (digits : Bytes) : Nat :=
  Nat.ofDigits 10 (digits.reverse.map fun b => b.toNat - 0x30)

theorem placeValueNext (digits : Bytes) (b : UInt8) :
    placeValue (digits ++ [b]) = 10 * placeValue digits + (b.toNat - 0x30) := by
  rw [placeValue, List.reverse_append, List.reverse_singleton, List.singleton_append, List.map_cons,
    Nat.ofDigits_cons, Nat.add_comm]
  rfl

theorem decimalValueNext (digits : Bytes) (b : UInt8) :
    decimalValue (digits ++ [b]) = 10 * decimalValue digits + (b.toNat - 0x30) := by
  rw [decimalValue, List.foldl_append]
  rfl

theorem decimalValuePlaces (digits : Bytes) : decimalValue digits = placeValue digits := by
  induction digits using List.reverseRecOn with
  | nil => rfl
  | append_singleton digits b ih => rw [decimalValueNext, placeValueNext, ih]

theorem decimalValueAppend (front digits : Bytes) :
    decimalValue (front ++ digits) =
      decimalValue front * Binary64.tenTo digits.length + decimalValue digits := by
  rw [decimalValuePlaces, placeValue, List.reverse_append, List.map_append, Nat.ofDigits_append,
    List.length_map, List.length_reverse, decimalValuePlaces, decimalValuePlaces, Nat.add_comm,
    Nat.mul_comm]
  rfl

end Bytes

namespace Lexer
open Numeral

theorem integersExact {mark digits rest : Bytes} {negative : Bool} (signed : Signed mark negative)
    (all : ∀ b ∈ digits, Bytes.isDigit b = true) (spelled : mark ++ digits ≠ [])
    (ends : Stops carriesOn rest) (position : Nat) :
    let value := signedValue negative (Bytes.placeValue digits)
    let stop : Cursor := ⟨position + (mark ++ digits).length, rest⟩
    (digits ≠ [] ∧ FitsInt value →
      ∃ n : Int64, n.toInt = value ∧
        next ⟨position, mark ++ digits ++ rest⟩ = (.ok (.int n), stop)) ∧
    (¬ (digits ≠ [] ∧ FitsInt value) →
      next ⟨position, mark ++ digits ++ rest⟩ =
        (.error (.parse stop.position
          s!"Invalid integer: '{Numeral.text ⟨negative, digits, none⟩}'"), stop)) := by
  intro value stop
  have places : signedValue negative (Bytes.decimalValue digits) = value := by
    rw [Bytes.decimalValuePlaces]
  have behind : position + mark.length + digits.length = stop.position := by
    rw [Nat.add_assoc, ← List.length_append]
  rw [List.append_assoc]
  constructor
  · rintro ⟨some, fits⟩
    refine ⟨Int64.ofInt value, fittingInt fits, ?_⟩
    rw [nextWhole signed all some (places ▸ fits) ends, places, behind]
  · intro bad
    have some (unmarked : mark = []) : digits ≠ [] := by
      rintro rfl
      exact spelled (by rw [unmarked, List.nil_append])
    have refused : digits = [] ∨ ¬ FitsInt value := by
      by_cases none : digits = []
      · exact .inl none
      · exact .inr fun fits => bad ⟨none, fits⟩
    rw [nextWholeRefused signed all some (places ▸ refused) ends, behind]
    rfl

theorem leastIntegerExact :
    let digits := Bytes.ascii "009223372036854775808"
    (∀ b ∈ digits, Bytes.isDigit b = true) ∧ Stops carriesOn [0x5D] ∧
      next ⟨0, 0x2D :: (digits ++ [0x5D])⟩ = (.ok (.int Int64.minValue), ⟨22, [0x5D]⟩) ∧
      next ⟨0, digits ++ [0x5D]⟩ =
        (.error (.parse 21 "Invalid integer: '009223372036854775808'"), ⟨21, [0x5D]⟩) := by
  intro digits
  have all : ∀ b ∈ digits, Bytes.isDigit b = true := List.all_eq_true.mp rfl
  have value : Bytes.placeValue digits = 9223372036854775808 := by
    rw [← Bytes.decimalValuePlaces]
    rfl
  have most : FitsInt (signedValue true (Bytes.placeValue digits)) := by
    rw [value]
    unfold FitsInt
    decide
  have beyond : ¬ FitsInt (signedValue false (Bytes.placeValue digits)) := by
    rw [value]
    unfold FitsInt
    decide
  have closes : Stops carriesOn [0x5D] := rfl
  refine ⟨all, closes, ?_, ?_⟩
  · obtain ⟨n, same, read⟩ := (integersExact .minus all nofun closes 0).1 ⟨nofun, most⟩
    obtain rfl : n = Int64.minValue := Int64.toInt_inj.mp (same.trans (by rw [value]; rfl))
    exact read
  · exact (integersExact .none all nofun closes 0).2 fun both => beyond both.2

end Lexer
end PdfBody
