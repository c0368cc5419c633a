import PdfBody.Filter.Hex
import PdfBody.Proofs.Filter.Feeding
import PdfBody.Proofs.Text.Lexing

/-! Data as hexadecimal digits reads back, however it is cut into chunks. -/
namespace PdfBody.Hex

def encode (data : Bytes) : Bytes := data.flatMap Bytes.hexPair ++ [0x3E]

theorem digitVisible {n : Nat} (small : n < 16) :
    Bytes.isBlank (Bytes.hexDigit n) = false ∧ Bytes.hexDigit n ≠ 0x3E := by
  obtain ⟨space, close, -⟩ := Lexer.hexDigitVisible small
  exact ⟨(Bool.or_eq_false_iff.mp space).2, close⟩

theorem decodePair (b : UInt8) (done rest : Bytes) :
    decodeFrom none done (Bytes.hexPair b ++ rest) = decodeFrom none (b :: done) rest := by
  obtain ⟨blankHigh, closeHigh⟩ := digitVisible (Lexer.highNibble b)
  obtain ⟨blankLow, closeLow⟩ := digitVisible (Lexer.lowNibble b)
  simp [Bytes.hexPair, decodeFrom, blankHigh, closeHigh, blankLow, closeLow,
    Lexer.hexValueDigit (Lexer.highNibble b), Lexer.hexValueDigit (Lexer.lowNibble b),
    Lexer.nibblesOctet]

theorem decodeEncode (data done rest : Bytes) :
    decodeFrom none done (encode data ++ rest) = .ok (done.reverse ++ data) := by
  induction data generalizing done with
  | nil => simp [encode, decodeFrom, decodeFrom.close, Bytes.isBlank]
  | cons b data ih =>
    have next := ih (b :: done)
    unfold encode at next ⊢
    rw [List.flatMap_cons, List.append_assoc, List.append_assoc, decodePair, ← List.append_assoc, next]
    simp

theorem codecLawful (params : Option Entries) : codec.Lawful params := by
  refine Codec.lawfulUncut rfl rfl (Encoder.directUncut Bytes.hexPair [0x3E]) fun data => ?_
  have reads := decodeEncode data [] []
  rwa [List.append_nil] at reads

end PdfBody.Hex
