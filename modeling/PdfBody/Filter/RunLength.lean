import PdfBody.Filter.Codec

/-! Data as blocks: a length octet below 128 and one more octet than it says, or a length octet
above 128 and one octet to repeat. The length octet 128 ends the data. -/
namespace PdfBody.RunLength

def blockLimit : Nat := 128

def runLength : Bytes → Nat
  | [] => 0
  | b :: rest => ((b :: rest).take blockLimit).takeWhile (· == b) |>.length

def literalLength : Nat → Bytes → Nat
  | limit + 1, a :: b :: rest => if a = b then 0 else literalLength limit (b :: rest) + 1
  | _ + 1, [_] => 1
  | _, _ => 0

theorem literalLengthPos (b : UInt8) (rest : Bytes) (single : runLength (b :: rest) < 2) :
    0 < literalLength blockLimit (b :: rest) := by
  cases rest with
  | nil => simp [literalLength, blockLimit]
  | cons c more =>
    by_cases same : b = c
    · subst same
      simp only [runLength, blockLimit, List.take_succ_cons, List.takeWhile_cons, beq_self_eq_true,
        if_true, List.length_cons] at single
      omega
    · simp [literalLength, blockLimit, same]

def encode (data : Bytes) : Bytes :=
  match data with
  | [] => [128]
  | b :: rest =>
    if 2 ≤ runLength (b :: rest) then
      (257 - runLength (b :: rest)).toUInt8 :: b :: encode ((b :: rest).drop (runLength (b :: rest)))
    else
      let count := literalLength blockLimit (b :: rest)
      (count - 1).toUInt8 :: ((b :: rest).take count ++ encode ((b :: rest).drop count))
termination_by data.length
decreasing_by
  · simp only [List.length_drop, List.length_cons]; omega
  · have := literalLengthPos b rest (by omega)
    simp only [List.length_drop, List.length_cons]; omega

inductive Expect where
  | length
  | copies (more : Nat)
  | repeated (times : Nat)
  deriving DecidableEq, Repr

def decodeFrom (done : Bytes) : Expect → Bytes → Except Fault Bytes
  | .length, [] => .ok done.reverse
  | .copies _, [] => .error (.filter "Truncated run-length literal")
  | .repeated _, [] => .error (.filter "Truncated run-length repeat")
  | .length, b :: rest =>
    if b.toNat < 128 then decodeFrom done (.copies b.toNat) rest
    else if b.toNat = 128 then .ok done.reverse
    else decodeFrom done (.repeated (257 - b.toNat)) rest
  | .copies 0, b :: rest => decodeFrom (b :: done) .length rest
  | .copies (more + 1), b :: rest => decodeFrom (b :: done) (.copies more) rest
  | .repeated times, b :: rest => decodeFrom (List.replicate times b ++ done) .length rest

def decode (data : Bytes) : Except Fault Bytes := decodeFrom [] .length data

def codec : Codec := ⟨.runLength, fun _ => .ok (.whole encode), fun _ => decode⟩

end PdfBody.RunLength
