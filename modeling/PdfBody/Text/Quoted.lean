import PdfBody.Text.Hidden

/-! Words as messages quote them: whatever a reader could not see or could mistake is escaped. -/
namespace PdfBody.Quoted

def escaped (c : Char) : String :=
  if c = '"' then "\\\""
  else if c = '\\' then "\\\\"
  else if c = '\n' then "\\n"
  else if c = '\r' then "\\r"
  else if c = '\t' then "\\t"
  else if c.toNat = 0 then "\\0"
  else if Hidden.contains c then
    "\\u\x7b" ++ String.ofList (Nat.toDigits 16 c.toNat) ++ "\x7d"
  else c.toString

def text (word : String) : String := "\"" ++ String.join (word.toList.map escaped) ++ "\""

end PdfBody.Quoted
