import PdfBody.ObjId

/-! What can go wrong, and the sentence that says so. -/
namespace PdfBody

inductive Kind where
  | bool | integer | real | string | name | array | dictionary | reference | null | rawData
  deriving DecidableEq, Repr

def Kind.text : Kind → String
  | .bool => "Bool"
  | .integer => "Integer"
  | .real => "Real"
  | .string => "String"
  | .name => "Name"
  | .array => "Array"
  | .dictionary => "Dictionary"
  | .reference => "Reference"
  | .null => "Null"
  | .rawData => "RawData"

inductive Fault where
  | io (text : String)
  | mismatch (expected : String) (found : Kind)
  | noStream
  | notImplemented (text : String)
  | missing (id : ObjId)
  | state (text : String)
  | outOfRange (text : String)
  | unsupportedFilter (name : String)
  | filter (text : String)
  | parse (position : Nat) (text : String)
  deriving DecidableEq, Repr

def Fault.message : Fault → String
  | .io text => "IO error: " ++ text
  | .mismatch expected found => s!"Invalid data type: expected {expected}, found {found.text}"
  | .noStream => "Invalid handle: value payload is missing"
  | .notImplemented text => "Not implemented: " ++ text
  | .missing id => "Missing object: " ++ id.text
  | .state text => "Invalid state: " ++ text
  | .outOfRange text => "Value out of range: " ++ text
  | .unsupportedFilter name => "Unsupported filter: " ++ name
  | .filter text => "Filter error: " ++ text
  | .parse position text => s!"Parse error at position {position}: {text}"

end PdfBody
