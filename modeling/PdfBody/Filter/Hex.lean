import PdfBody.Filter.Codec

/-! Data as hexadecimal digits, closed by `>`. -/
namespace PdfBody.Hex

def invalidDigit (b : UInt8) : Fault := .filter s!"Invalid hex digit: {Bytes.latin b}"

def decodeFrom (high : Option Nat) (done : Bytes) : Bytes → Except Fault Bytes
  | [] => .ok (close high done)
  | b :: rest =>
    if Bytes.isBlank b then decodeFrom high done rest
    else if b = 0x3E then .ok (close high done)
    else
      match Bytes.hexValue? b, high with
      | none, _ => .error (invalidDigit b)
      | some value, some h => decodeFrom none (Bytes.ofNibbles h value :: done) rest
      | some value, none => decodeFrom (some value) done rest
where
  close (high : Option Nat) (done : Bytes) : Bytes :=
    match high with
    | some h => (Bytes.ofNibbles h 0 :: done).reverse
    | none => done.reverse

def decode (data : Bytes) : Except Fault Bytes := decodeFrom none [] data

def codec : Codec :=
  ⟨.asciiHex, fun _ => .ok (.direct (fun input => input.flatMap Bytes.hexPair) [0x3E]),
    fun _ => decode⟩

end PdfBody.Hex
