import PdfBody.Bytes

/-! UTF-8 for names and messages. Encoding is total. Decoding is lossy: every octet sequence has
a text, in which each maximal prefix of an ill-formed character became one U+FFFD. -/
namespace PdfBody.Utf8

def encode (text : String) : Bytes := text.toList.flatMap String.utf8EncodeChar

structure Partial where
  owed : Nat
  low : Nat
  high : Nat
  code : Nat
  deriving DecidableEq, Repr

inductive Lead where
  | whole (c : Char)
  | opens (p : Partial)
  | stray
  deriving DecidableEq, Repr

def lead (b : UInt8) : Lead :=
  let n := b.toNat
  if n < 0x80 then .whole (Char.ofNat n)
  else if n < 0xC2 then .stray
  else if n < 0xE0 then .opens ⟨1, 0x80, 0xBF, n - 0xC0⟩
  else if n = 0xE0 then .opens ⟨2, 0xA0, 0xBF, 0⟩
  else if n = 0xED then .opens ⟨2, 0x80, 0x9F, n - 0xE0⟩
  else if n < 0xF0 then .opens ⟨2, 0x80, 0xBF, n - 0xE0⟩
  else if n = 0xF0 then .opens ⟨3, 0x90, 0xBF, 0⟩
  else if n < 0xF4 then .opens ⟨3, 0x80, 0xBF, n - 0xF0⟩
  else if n = 0xF4 then .opens ⟨3, 0x80, 0x8F, 4⟩
  else .stray

def replacement : Char := Char.ofNat 0xFFFD

def charsFrom : Option Partial → Bytes → List Char
  | none, [] => []
  | some _, [] => [replacement]
  | none, b :: rest =>
    match lead b with
    | .whole c => c :: charsFrom none rest
    | .opens p => charsFrom (some p) rest
    | .stray => replacement :: charsFrom none rest
  | some p, b :: rest =>
    if p.low ≤ b.toNat ∧ b.toNat ≤ p.high then
      let code := 64 * p.code + (b.toNat - 0x80)
      if p.owed = 1 then Char.ofNat code :: charsFrom none rest
      else charsFrom (some ⟨p.owed - 1, 0x80, 0xBF, code⟩) rest
    else
      replacement ::
        match lead b with
        | .whole c => c :: charsFrom none rest
        | .opens q => charsFrom (some q) rest
        | .stray => replacement :: charsFrom none rest

def decodeLossy (bytes : Bytes) : String := String.ofList (charsFrom none bytes)

end PdfBody.Utf8
