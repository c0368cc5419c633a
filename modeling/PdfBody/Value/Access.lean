import PdfBody.Value.Entries
import PdfBody.Binary64.Nearest

/-! Looking into a value and changing it in place. A view asks for one kind of value; its failing
form names the kinds that would have done. A setter never changes the kind of what it sets. -/
namespace PdfBody

structure Text where
  bytes : Bytes
  hex : Bool
  deriving DecidableEq, Repr

namespace Value

def isNumeric (v : Value) : Bool := v.kind = .integer || v.kind = .real

def bool? : Value → Option Bool
  | bool b => some b
  | _ => none

def int? : Value → Option Int64
  | int n => some n
  | _ => none

def nearestInt? : Value → Option Int64
  | int n => some n
  | real x => some x.toInt64
  | _ => none

def widened? : Value → Option Binary64
  | real x => some x
  | int n => some (.ofInt n.toInt)
  | _ => none

def real? : Value → Option Binary64
  | real x => some x
  | _ => none

def text? : Value → Option Text
  | str bytes hex => some ⟨bytes, hex⟩
  | _ => none

def name? : Value → Option String
  | name text => some text
  | _ => none

def ref? : Value → Option ObjId
  | ref id => some id
  | _ => none

def items? : Value → Option (List Value)
  | arr items => some items
  | _ => none

def entries? : Value → Option Entries
  | dict entries => some entries
  | _ => none

def raw? : Value → Option Bytes
  | raw bytes => some bytes
  | _ => none

def require {α : Type} (expected : String) (view : Value → Option α) (v : Value) :
    Except Fault α :=
  match view v with
  | some found => .ok found
  | none => .error (.mismatch expected v.kind)

def getBool : Value → Except Fault Bool := require "Bool" bool?
def getInt : Value → Except Fault Int64 := require "Integer" int?
def getNearestInt : Value → Except Fault Int64 := require "Integer or Real" nearestInt?
def getWidened : Value → Except Fault Binary64 := require "Real or Integer" widened?
def getReal : Value → Except Fault Binary64 := require "Real" real?
def getText : Value → Except Fault Text := require "String" text?
def getName : Value → Except Fault String := require "Name" name?
def getRef : Value → Except Fault ObjId := require "Reference" ref?
def getItems : Value → Except Fault (List Value) := require "Array" items?
def getEntries : Value → Except Fault Entries := require "Dictionary" entries?
def getRaw : Value → Except Fault Bytes := require "RawData" raw?

def setBool (b : Bool) : Value → Except Fault Value
  | bool _ => .ok (bool b)
  | v => .error (.mismatch "Bool" v.kind)

def setInt (n : Int64) : Value → Except Fault Value
  | int _ => .ok (int n)
  | real _ => .ok (real (.ofInt n.toInt))
  | v => .error (.mismatch "Integer or Real" v.kind)

def setReal (x : Binary64) : Value → Except Fault Value
  | real _ => .ok (real x)
  | int _ => .ok (int x.toInt64)
  | v => .error (.mismatch "Real or Integer" v.kind)

def setName (text : String) : Value → Except Fault Value
  | name _ => .ok (name text)
  | v => .error (.mismatch "Name" v.kind)

def setText (text : Text) : Value → Except Fault Value
  | str _ _ => .ok (str text.bytes text.hex)
  | v => .error (.mismatch "String" v.kind)

def setRef (id : ObjId) : Value → Except Fault Value
  | ref _ => .ok (ref id)
  | v => .error (.mismatch "Reference" v.kind)

def insertItem? (place : Nat) (v : Value) (items : List Value) : Option (List Value) :=
  if place ≤ items.length then some (items.take place ++ v :: items.drop place) else none

def removeItem? (place : Nat) (items : List Value) : Option (Value × List Value) :=
  match items[place]? with
  | some v => some (v, items.eraseIdx place)
  | none => none

end Value

namespace Entries

def name? (key : String) (entries : Entries) : Option String := entries.lookup key >>= Value.name?

def items? (key : String) (entries : Entries) : Option (List Value) :=
  entries.lookup key >>= Value.items?

def entries? (key : String) (entries : Entries) : Option Entries :=
  entries.lookup key >>= Value.entries?

def typeName? (entries : Entries) : Option String := name? typeKey entries

end Entries
end PdfBody
