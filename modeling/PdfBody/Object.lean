import PdfBody.Stream.Basic
import PdfBody.Value.Write

/-! Indirect objects: a value with an id, perhaps a stream, and a mark for writers that only
write what changed. -/
namespace PdfBody

structure Object where
  id : ObjId
  value : Value
  stream : Option DataStream
  dirty : Bool

namespace Object

def make (id : ObjId) (value : Value) : Object := ⟨id, value, none, false⟩

def setValue (value : Value) (o : Object) : Object := ⟨o.id, value, o.stream, true⟩

def setDirty (dirty : Bool) (o : Object) : Object := ⟨o.id, o.value, o.stream, dirty⟩

def getStream (o : Object) : Except Fault DataStream :=
  match o.stream with
  | some stream => .ok stream
  | none => .error .noStream

def write (layout : Layout) (o : Object) : Bytes :=
  Bytes.ascii s!"{o.id.number} {o.id.generation} obj" ++ layout.choose "" "\n" ++
    o.value.write layout ++
    (match o.stream with
      | some stream => Bytes.ascii "\nstream\n" ++ stream.raw ++ Bytes.ascii "\nendstream"
      | none => []) ++
    Bytes.ascii "\nendobj\n"

end Object
end PdfBody
