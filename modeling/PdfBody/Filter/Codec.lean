import PdfBody.Filter.Name

/-! Codecs, and the registry that finds one by filter name. -/
namespace PdfBody

/-- An encoder in use. What it remembers between calls is an octet string, which a push replaces
even when it fails. Output may be held back until the flush, which ends the use. -/
structure Encoder where
  held : Bytes
  push : Bytes → Bytes → Except Fault Bytes × Bytes
  flush : Bytes → Except Fault Bytes

namespace Encoder

def feed (e : Encoder) (input : Bytes) : Except Fault Bytes × Encoder :=
  let (out, held) := e.push e.held input
  (out, ⟨held, e.push, e.flush⟩)

def finish (e : Encoder) : Except Fault Bytes := e.flush e.held

def direct (encode : Bytes → Bytes) (trailer : Bytes) : Encoder :=
  ⟨[], fun held input => (.ok (encode input), held), fun _ => .ok trailer⟩

def whole (encode : Bytes → Bytes) : Encoder :=
  ⟨[], fun held input => (.ok [], held ++ input), fun held => .ok (encode held)⟩

end Encoder

structure Codec where
  filter : FilterName
  encoder : Option Entries → Except Fault Encoder
  decode : Option Entries → Bytes → Except Fault Bytes

structure Registry where
  codecs : List Codec

namespace Registry

def empty : Registry := ⟨[]⟩

def find? (registry : Registry) (f : FilterName) : Option Codec :=
  registry.codecs.find? fun codec => codec.filter == f

def get (registry : Registry) (f : FilterName) : Except Fault Codec :=
  match registry.find? f with
  | some codec => .ok codec
  | none => .error (.unsupportedFilter f.text)

def contains (registry : Registry) (f : FilterName) : Bool := (registry.find? f).isSome

def unregister (registry : Registry) (f : FilterName) : Registry :=
  ⟨registry.codecs.filter fun codec => codec.filter != f⟩

def register (registry : Registry) (codec : Codec) : Registry :=
  ⟨codec :: (registry.unregister codec.filter).codecs⟩

end Registry
end PdfBody
