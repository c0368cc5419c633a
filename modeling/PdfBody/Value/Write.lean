import PdfBody.Value.Basic
import PdfBody.Binary64.Decimal
import PdfBody.Utf8

/-! Values as document text. The compact layout has no white space but one blank before each bare
word or number, which is what keeps it apart from the token before it; all other tokens begin with
a delimiter. The clean layout separates everything and puts entries on lines of their own. -/
namespace PdfBody

inductive Layout where
  | compact
  | clean
  deriving DecidableEq, Repr

namespace Layout

def choose : Layout → String → String → Bytes
  | .compact, short, _ => Bytes.ascii short
  | .clean, _, long => Bytes.ascii long

def bare (layout : Layout) (word : String) : Bytes := layout.choose " " "" ++ Bytes.ascii word

end Layout

namespace Value

def writeReal (layout : Layout) (x : Binary64) : String :=
  match layout with
  | .compact => x.brief
  | .clean => x.sixPlaces

def escaped (b : UInt8) : Bytes :=
  if b = 0x28 ∨ b = 0x29 ∨ b = 0x5C then [0x5C, b]
  else if b = 0x0A then Bytes.ascii "\\n"
  else if b = 0x0D then Bytes.ascii "\\r"
  else if b = 0x09 then Bytes.ascii "\\t"
  else if b = 0x08 then Bytes.ascii "\\b"
  else if b = 0x0C then Bytes.ascii "\\f"
  else [b]

def writeString (bytes : Bytes) (hex : Bool) : Bytes :=
  if hex then 0x3C :: (bytes.flatMap Bytes.hexPair ++ [0x3E])
  else 0x28 :: (bytes.flatMap escaped ++ [0x29])

def isPlainInName (b : UInt8) : Bool :=
  0x21 ≤ b && b ≤ 0x7E && !Bytes.isDelimiter b && b != 0x23

def spelledInName (b : UInt8) : Bytes :=
  if isPlainInName b then [b] else 0x23 :: Bytes.hexPair b

def writeName (name : String) : Bytes := 0x2F :: (Utf8.encode name).flatMap spelledInName

mutual

def write (layout : Layout) : Value → Bytes
  | null => layout.bare "null"
  | bool b => layout.bare (if b then "true" else "false")
  | int n => layout.bare (toString n.toInt)
  | real x => layout.bare (writeReal layout x)
  | ref id => layout.bare id.text
  | str bytes hex => writeString bytes hex
  | name text => writeName text
  | raw bytes => bytes
  | arr items => layout.choose "[" "[ " ++ (writeItems layout 1 items ++ Bytes.ascii "]")
  | dict entries =>
    layout.choose "<<" "<<\n" ++
      (writeEntries layout true entries ++ (writeEntries layout false entries ++ Bytes.ascii ">>"))

def writeItems (layout : Layout) (place : Nat) : List Value → Bytes
  | [] => []
  | v :: rest =>
    write layout v ++ (layout.choose "" (if place % 10 = 0 then "\n" else " ") ++
      writeItems layout (place + 1) rest)

def writeEntries (layout : Layout) (typeEntry : Bool) : List (String × Value) → Bytes
  | [] => []
  | (key, v) :: rest =>
    if (key == "Type") = typeEntry then
      writeName key ++ (layout.choose "" " " ++ (write layout v ++ (layout.choose "" "\n" ++
        writeEntries layout typeEntry rest)))
    else writeEntries layout typeEntry rest

end

def writeText (layout : Layout) (v : Value) : String := Utf8.decodeLossy (v.write layout)

end Value
end PdfBody
