import PdfBody.Text.Lexer
import PdfBody.Value.Entries

/-! Document text read back into values. The text is cut into lexemes first; the reader then walks
them with the containers that are still open in a stack, innermost first. -/
namespace PdfBody

structure Lexeme where
  token : Except Fault Token
  stop : Cursor
  deriving Repr

namespace Parser

def lexemesWithin : Nat → Cursor → List Lexeme
  | 0, _ => []
  | count + 1, c =>
    match Lexer.next c with
    | (.ok .done, stop) => [⟨.ok .done, stop⟩]
    | (.ok token, stop) => ⟨.ok token, stop⟩ :: lexemesWithin count stop
    | (.error fault, stop) => [⟨.error fault, stop⟩]

def lexemes (c : Cursor) : List Lexeme := lexemesWithin (c.rest.length + 1) c

def depthLimit : Nat := 512

inductive Frame where
  | array (items : List Value)
  | dict (entries : Entries)
  | entry (key : String) (entries : Entries)
  deriving Repr

def reference? (number generation : Int64) (letter : String) : Option ObjId :=
  let n := number.toInt
  let g := generation.toInt
  if letter = "R" ∧ 0 ≤ n ∧ n < 0x100000000 ∧ 0 ≤ g ∧ g < 0x10000 then
    some ⟨UInt32.ofNat n.toNat, UInt16.ofNat g.toNat⟩
  else none

def awaitsValue : List Frame → Bool
  | .dict _ :: _ => false
  | _ => true

inductive Turn where
  | stop (outcome : Except Fault Value)
  | go (stack : List Frame)
  deriving Repr

def deliver (v : Value) : List Frame → Turn
  | [] => .stop (.ok v)
  | .array items :: outer => .go (.array (v :: items) :: outer)
  | .entry key entries :: outer => .go (.dict (Entries.put key v entries) :: outer)
  | .dict entries :: outer => .go (.dict entries :: outer)

def refuse (position : Nat) (text : String) : Turn := .stop (.error (.parse position text))

def enter (position : Nat) (stack : List Frame) (frame : Frame) : Turn :=
  if depthLimit ≤ stack.length then refuse position "Maximum nesting depth exceeded"
  else .go (frame :: stack)

def beginValue (position : Nat) (stack : List Frame) : Token → Turn
  | .bool b => deliver (.bool b) stack
  | .int n => deliver (.int n) stack
  | .real x => deliver (.real x) stack
  | .str bytes => deliver (.str bytes false) stack
  | .hexStr bytes => deliver (.str bytes true) stack
  | .name bytes => deliver (.name (Utf8.decodeLossy bytes)) stack
  | .null => deliver .null stack
  | .arrOpen => enter position stack (.array [])
  | .dictOpen => enter position stack (.dict [])
  | .done => refuse position "Unexpected end of input"
  | token => refuse position s!"Unexpected token: {token.describe}"

def take (position : Nat) (stack : List Frame) (token : Token) : Turn :=
  match stack, token with
  | stack, .comment _ => .go stack
  | .array items :: outer, .arrClose => deliver (.arr items.reverse) outer
  | .array _ :: _, .done => refuse position "Unterminated array"
  | .dict entries :: outer, .dictClose => deliver (.dict entries) outer
  | .dict entries :: outer, .name bytes => .go (.entry (Utf8.decodeLossy bytes) entries :: outer)
  | .dict _ :: _, .done => refuse position "Unterminated dictionary"
  | .dict _ :: _, token => refuse position s!"Expected dictionary key, found {token.describe}"
  | stack, token => beginValue position stack token

/-- One value from the lexemes; `last` is the cursor behind those already taken. A number whose
very next lexemes, comments not skipped, complete a reference is taken together with them. -/
def readFrom (stack : List Frame) (last : Cursor) : List Lexeme → Scan Value
  | [] => (.error (.parse last.position "Unexpected end of input"), last)
  | ⟨.error fault, stop⟩ :: _ => (.error fault, stop)
  | ⟨.ok (.int n), stop⟩ :: ⟨.ok (.int g), middle⟩ :: ⟨.ok (.word letter), behind⟩ :: more =>
    match awaitsValue stack, reference? n g letter with
    | true, some id =>
      match deliver (.ref id) stack with
      | .stop outcome => (outcome, behind)
      | .go stack => readFrom stack behind more
    | _, _ =>
      match take stop.position stack (.int n) with
      | .stop outcome => (outcome, stop)
      | .go stack =>
        readFrom stack stop (⟨.ok (.int g), middle⟩ :: ⟨.ok (.word letter), behind⟩ :: more)
  | ⟨.ok token, stop⟩ :: more =>
    match take stop.position stack token with
    | .stop outcome => (outcome, stop)
    | .go stack => readFrom stack stop more

def next (c : Cursor) : Scan Value := readFrom [] c (lexemes c)

def nextToken (c : Cursor) : Scan Token :=
  skip c (lexemes c)
where
  skip (last : Cursor) : List Lexeme → Scan Token
  | [] => (.ok .done, last)
  | ⟨.ok (.comment _), stop⟩ :: more => skip stop more
  | ⟨token, stop⟩ :: _ => (token, stop)

def parse (text : Bytes) : Except Fault Value :=
  match next (.start text) with
  | (.error fault, _) => .error fault
  | (.ok v, c) =>
    match nextToken c with
    | (.ok .done, _) => .ok v
    | (.ok token, stop) =>
      .error (.parse stop.position s!"Trailing data after value: {token.describe}")
    | (.error fault, _) => .error fault

def parseMany : Nat → Cursor → List (Except Fault Value)
  | 0, _ => []
  | count + 1, c =>
    let (result, stop) := next c
    result :: parseMany count stop

end Parser
end PdfBody
