import PdfBody.Value.Access

/-! The filters a stream can name, and the dictionary entries that name them. A stream lists its
filters in the order a reader undoes them. -/
namespace PdfBody

inductive FilterName where
  | asciiHex | ascii85 | lzw | flate | runLength | ccittFax | jbig2 | dct | jpx | crypt
  deriving DecidableEq, Repr

namespace FilterName

def all : List FilterName :=
  [asciiHex, ascii85, lzw, flate, runLength, ccittFax, jbig2, dct, jpx, crypt]

def text : FilterName → String
  | asciiHex => "ASCIIHexDecode"
  | ascii85 => "ASCII85Decode"
  | lzw => "LZWDecode"
  | flate => "FlateDecode"
  | runLength => "RunLengthDecode"
  | ccittFax => "CCITTFaxDecode"
  | jbig2 => "JBIG2Decode"
  | dct => "DCTDecode"
  | jpx => "JPXDecode"
  | crypt => "Crypt"

def ofText? (text : String) : Option FilterName := all.find? fun f => f.text == text

theorem ofTextText (f : FilterName) : ofText? f.text = some f := by
  cases f <;> decide

end FilterName

namespace Entries

def filterOfName (text : String) : Except Fault FilterName :=
  match FilterName.ofText? text with
  | some f => .ok f
  | none => .error (.unsupportedFilter text)

def filterOfItem : Value → Except Fault FilterName
  | .name text => filterOfName text
  | v => .error (.filter s!"Invalid filter in array: {v.kind.text}")

def filters (entries : Entries) : Except Fault (List FilterName) :=
  match entries.lookup filterKey with
  | none | some .null => .ok []
  | some (.name text) => (filterOfName text).map fun f => [f]
  | some (.arr items) => items.mapM filterOfItem
  | some v => .error (.filter s!"Invalid Filter type: {v.kind.text}")

def setFilters (filters : List FilterName) (entries : Entries) : Entries :=
  match filters with
  | [] => erase filterKey entries
  | [f] => put filterKey (.name f.text) entries
  | many => put filterKey (.arr (many.map fun f => .name f.text)) entries

def params (entries : Entries) (place count : Nat) : Option Entries :=
  match entries.lookup paramsKey with
  | some (.dict params) => if count = 1 then some params else none
  | some (.arr items) => items[place]? >>= Value.entries?
  | _ => none

end Entries
end PdfBody
