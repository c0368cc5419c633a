/-! Byte strings are lists of octets. This file has the character classes that every reader of
the notation shares: white space, delimiters, hexadecimal and decimal digits. -/
namespace PdfBody

abbrev Bytes := List UInt8

namespace Bytes

def ascii (text : String) : Bytes := text.toList.map fun c => c.toNat.toUInt8

def latin (b : UInt8) : Char := Char.ofNat b.toNat

def isBlank (b : UInt8) : Bool := b == 0x20 || b == 0x09 || b == 0x0A || b == 0x0C || b == 0x0D

def isSpace (b : UInt8) : Bool := b == 0x00 || isBlank b

def isDelimiter (b : UInt8) : Bool :=
  b == 0x28 || b == 0x29 || b == 0x3C || b == 0x3E || b == 0x5B || b == 0x5D ||
  b == 0x7B || b == 0x7D || b == 0x2F || b == 0x25

def isRegular (b : UInt8) : Bool := !isSpace b && !isDelimiter b

def isDigit (b : UInt8) : Bool := 0x30 ≤ b && b ≤ 0x39

def decimalValue (digits : Bytes) : Nat := digits.foldl (fun n b => 10 * n + (b.toNat - 0x30)) 0

def hexValue? (b : UInt8) : Option Nat :=
  let n := b.toNat
  if 0x30 ≤ n ∧ n ≤ 0x39 then some (n - 0x30)
  else if 0x41 ≤ n ∧ n ≤ 0x46 then some (n - 0x41 + 10)
  else if 0x61 ≤ n ∧ n ≤ 0x66 then some (n - 0x61 + 10)
  else none

def hexDigit (n : Nat) : UInt8 := (if n < 10 then 0x30 + n else 0x41 + (n - 10)).toUInt8

def hexPair (b : UInt8) : Bytes := [hexDigit (b.toNat / 16), hexDigit (b.toNat % 16)]

def ofNibbles (high low : Nat) : UInt8 := (16 * high + low).toUInt8

end Bytes
end PdfBody
