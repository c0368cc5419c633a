import PdfBody.Text.Token
import PdfBody.Utf8
import PdfBody.Fault
import PdfBody.Binary64.Nearest

/-! Document text cut into tokens. A cursor holds what is left to read, so going back to an earlier
place is keeping its cursor. A failed token still moves the cursor past what was looked at, and its
fault names the place where the cursor then stands. -/
namespace PdfBody

structure Cursor where
  position : Nat
  rest : Bytes
  deriving DecidableEq, Repr

namespace Cursor

def start (text : Bytes) : Cursor := ⟨0, text⟩

def seek (text : Bytes) (position : Nat) : Cursor :=
  ⟨min position text.length, text.drop position⟩

def run (c : Cursor) (class? : UInt8 → Bool) : Bytes × Cursor :=
  let taken := c.rest.takeWhile class?
  (taken, ⟨c.position + taken.length, c.rest.dropWhile class?⟩)

end Cursor

abbrev Scan (α : Type) := Except Fault α × Cursor

namespace Lexer

def fail {α : Type} (text : String) (c : Cursor) : Scan α := (.error (.parse c.position text), c)

def nameBody (done : Bytes) (position : Nat) : Bytes → Scan Token
  | [] => (.ok (.name done.reverse), ⟨position, []⟩)
  | b :: rest =>
    if !Bytes.isRegular b then (.ok (.name done.reverse), ⟨position, b :: rest⟩)
    else if b = 0x23 then
      match rest with
      | high :: low :: more =>
        match Bytes.hexValue? high, Bytes.hexValue? low with
        | some h, some l => nameBody (Bytes.ofNibbles h l :: done) (position + 3) more
        | _, _ => fail "Invalid hex code in name" ⟨position + 3, more⟩
      | short => fail "Invalid hex code in name" ⟨position + 1 + short.length, []⟩
    else nameBody (b :: done) (position + 1) rest

inductive Mode where
  | plain
  | escape
  | octal (digits value : Nat)
  | lineEnd
  deriving DecidableEq, Repr

/-- The depth has no bound here. The program counts parentheses in 32 signed bits, so the two differ only
from 2147483648 open ones on. -/
structure Literal where
  mode : Mode
  depth : Nat
  done : Bytes
  deriving DecidableEq, Repr

namespace Literal

def plain (s : Literal) (b : UInt8) : Literal :=
  if b = 0x5C then ⟨.escape, s.depth, s.done⟩
  else if b = 0x28 then ⟨.plain, s.depth + 1, b :: s.done⟩
  else if b = 0x29 then
    if s.depth = 1 then ⟨.plain, 0, s.done⟩ else ⟨.plain, s.depth - 1, b :: s.done⟩
  else ⟨.plain, s.depth, b :: s.done⟩

def isOctal (b : UInt8) : Bool := 0x30 ≤ b && b ≤ 0x37

def escape (s : Literal) (b : UInt8) : Literal :=
  if b = 0x6E then ⟨.plain, s.depth, 0x0A :: s.done⟩
  else if b = 0x72 then ⟨.plain, s.depth, 0x0D :: s.done⟩
  else if b = 0x74 then ⟨.plain, s.depth, 0x09 :: s.done⟩
  else if b = 0x62 then ⟨.plain, s.depth, 0x08 :: s.done⟩
  else if b = 0x66 then ⟨.plain, s.depth, 0x0C :: s.done⟩
  else if isOctal b then ⟨.octal 1 (b.toNat - 0x30), s.depth, s.done⟩
  else if b = 0x0D then ⟨.lineEnd, s.depth, s.done⟩
  else if b = 0x0A then ⟨.plain, s.depth, s.done⟩
  else ⟨.plain, s.depth, b :: s.done⟩

def step (s : Literal) (b : UInt8) : Literal :=
  match s.mode with
  | .plain => s.plain b
  | .escape => s.escape b
  | .octal digits value =>
    if digits < 3 ∧ isOctal b then
      ⟨.octal (digits + 1) (8 * value + (b.toNat - 0x30)), s.depth, s.done⟩
    else plain ⟨.plain, s.depth, value.toUInt8 :: s.done⟩ b
  -- a line feed belongs to the carriage return that was escaped
  | .lineEnd => if b = 0x0A then ⟨.plain, s.depth, s.done⟩ else s.plain b

end Literal

def literalBody (s : Literal) (position : Nat) : Bytes → Scan Token
  | [] => fail "Unterminated string" ⟨position, []⟩
  | b :: rest =>
    let next := s.step b
    if next.depth = 0 then (.ok (.str next.done.reverse), ⟨position + 1, rest⟩)
    else literalBody next (position + 1) rest

def closeHex (high : Option Nat) (done : Bytes) : Bytes :=
  match high with
  | some h => (Bytes.ofNibbles h 0 :: done).reverse
  | none => done.reverse

def hexBody (high : Option Nat) (done : Bytes) (position : Nat) : Bytes → Scan Token
  | [] => fail "Unterminated hex string" ⟨position, []⟩
  | b :: rest =>
    if b = 0x3E then (.ok (.hexStr (closeHex high done)), ⟨position + 1, rest⟩)
    else if Bytes.isSpace b then hexBody high done (position + 1) rest
    else
      match Bytes.hexValue? b with
      | none => fail "Invalid character in hex string" ⟨position + 1, rest⟩
      | some value =>
        match high with
        | some h => hexBody none (Bytes.ofNibbles h value :: done) (position + 1) rest
        | none => hexBody (some value) done (position + 1) rest

structure Numeral where
  negative : Bool
  whole : Bytes
  fraction : Option Bytes
  deriving DecidableEq, Repr

namespace Numeral

def sign (c : Cursor) : Bool × Cursor :=
  match c.rest with
  | b :: rest =>
    if b = 0x2D then (true, ⟨c.position + 1, rest⟩)
    else if b = 0x2B then (false, ⟨c.position + 1, rest⟩)
    else (false, c)
  | [] => (false, c)

def places (c : Cursor) : Option Bytes × Cursor :=
  match c.rest with
  | b :: rest =>
    if b = 0x2E then
      let (digits, stop) := (Cursor.mk (c.position + 1) rest).run Bytes.isDigit
      (some digits, stop)
    else (none, c)
  | [] => (none, c)

def read (c : Cursor) : Numeral × Cursor :=
  let (negative, unsigned) := sign c
  let (whole, behind) := unsigned.run Bytes.isDigit
  let (fraction, stop) := places behind
  (⟨negative, whole, fraction⟩, stop)

def text (n : Numeral) : String :=
  (if n.negative then "-" else "") ++ Utf8.decodeLossy n.whole ++
    match n.fraction with
    | some places => "." ++ Utf8.decodeLossy places
    | none => ""

def signed (n : Numeral) (size : Nat) : Int := if n.negative then -(size : Int) else size

def token (n : Numeral) : Except String Token :=
  match n.fraction with
  | none =>
    let value := n.signed (Bytes.decimalValue n.whole)
    if n.whole = [] ∨ value < Int64.minValue.toInt ∨ Int64.maxValue.toInt < value then
      .error s!"Invalid integer: '{n.text}'"
    else .ok (.int (Int64.ofInt value))
  | some places =>
    if n.whole = [] ∧ places = [] then .error s!"Invalid real number: '{n.text}'"
    else
      .ok (.real (.ofRatio n.negative (Bytes.decimalValue (n.whole ++ places))
        (Binary64.tenTo places.length)))

end Numeral

def number (c : Cursor) : Scan Token :=
  let (numeral, stop) := Numeral.read c
  match numeral.token with
  | .ok token => (.ok token, stop)
  | .error text => fail text stop

def word (c : Cursor) : Scan Token :=
  let (bytes, stop) := c.run Bytes.isRegular
  let text := Utf8.decodeLossy bytes
  (.ok (if text = "true" then .bool true
    else if text = "false" then .bool false
    else if text = "null" then .null
    else .word text), stop)

def comment (c : Cursor) : Scan Token :=
  let (bytes, stop) := c.run fun b => b != 0x0A && b != 0x0D
  (.ok (.comment bytes), stop)

def token (b : UInt8) (inside : Cursor) (c : Cursor) : Scan Token :=
  if b = 0x25 then comment inside
  else if b = 0x2F then nameBody [] inside.position inside.rest
  else if b = 0x28 then literalBody ⟨.plain, 1, []⟩ inside.position inside.rest
  else if b = 0x3C then
    match inside.rest with
    | 0x3C :: more => (.ok .dictOpen, ⟨inside.position + 1, more⟩)
    | _ => hexBody none [] inside.position inside.rest
  else if b = 0x3E then
    match inside.rest with
    | 0x3E :: more => (.ok .dictClose, ⟨inside.position + 1, more⟩)
    | _ :: more => fail "Expected '>' after '>'" ⟨inside.position + 1, more⟩
    | [] => fail "Expected '>' after '>'" inside
  else if b = 0x5B then (.ok .arrOpen, inside)
  else if b = 0x5D then (.ok .arrClose, inside)
  else if b = 0x2B || b = 0x2D || b = 0x2E || Bytes.isDigit b then number c
  else if Bytes.isDelimiter b then fail s!"Unexpected character: {Bytes.latin b}" c
  else word c

def next (c : Cursor) : Scan Token :=
  let (_, c) := c.run Bytes.isSpace
  match c.rest with
  | [] => (.ok .done, c)
  | b :: rest => token b ⟨c.position + 1, rest⟩ c

end Lexer
end PdfBody
