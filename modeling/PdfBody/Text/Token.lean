import PdfBody.Bytes
import PdfBody.Text.Quoted
import PdfBody.Binary64.Decimal

/-! The tokens of document text, and how messages show them. -/
namespace PdfBody

inductive Token where
  | bool (b : Bool)
  | int (n : Int64)
  | real (x : Binary64)
  | str (bytes : Bytes)
  | hexStr (bytes : Bytes)
  | name (bytes : Bytes)
  | arrOpen
  | arrClose
  | dictOpen
  | dictClose
  | null
  | word (text : String)
  | comment (bytes : Bytes)
  | done
  deriving DecidableEq, Repr

namespace Token

def listing (bytes : Bytes) : String := "[" ++ ", ".intercalate (bytes.map toString) ++ "]"

def describe : Token → String
  | bool b => s!"Boolean({b})"
  | int n => s!"Integer({n})"
  | real x => s!"Real({x.shortestText})"
  | str bytes => s!"String({listing bytes})"
  | hexStr bytes => s!"HexString({listing bytes})"
  | name bytes => s!"Name({listing bytes})"
  | arrOpen => "ArrayStart"
  | arrClose => "ArrayEnd"
  | dictOpen => "DictStart"
  | dictClose => "DictEnd"
  | null => "Null"
  | word text => s!"Keyword({Quoted.text text})"
  | comment bytes => s!"Comment({listing bytes})"
  | done => "Eof"

end Token
end PdfBody
