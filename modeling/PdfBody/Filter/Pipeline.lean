import PdfBody.Filter.Codec

/-! Filters in a row. The last filter listed encodes first and its output feeds the one before it,
so that a reader can undo the list from the front. -/
namespace PdfBody

structure Pipeline where
  stages : List Encoder

namespace Pipeline

/-- The encoders of the listed filters from `place` on, last filter first; filters are looked up
in that order too, so the last one that cannot encode is the one complained about. -/
def stagesFrom (registry : Registry) (entries : Entries) (count : Nat) :
    Nat → List FilterName → Except Fault (List Encoder)
  | _, [] => .ok []
  | place, f :: rest =>
    match stagesFrom registry entries count (place + 1) rest with
    | .error fault => .error fault
    | .ok later =>
      match registry.get f with
      | .error fault => .error fault
      | .ok codec =>
        match codec.encoder (entries.params place count) with
        | .error fault => .error fault
        | .ok encoder => .ok (later ++ [encoder])

def make (registry : Registry) (filters : List FilterName) (entries : Entries) :
    Except Fault Pipeline :=
  (stagesFrom registry entries filters.length 0 filters).map Pipeline.mk

def isPassthrough (p : Pipeline) : Bool := p.stages.isEmpty

def feedAll : List Encoder → Bytes → Except Fault Bytes × List Encoder
  | [], data => (.ok data, [])
  | e :: rest, data =>
    match e.feed data with
    | (.ok out, e) =>
      let (result, rest) := feedAll rest out
      (result, e :: rest)
    | (.error fault, e) => (.error fault, e :: rest)

def feed (p : Pipeline) (data : Bytes) : Except Fault Bytes × Pipeline :=
  let (result, stages) := feedAll p.stages data
  (result, ⟨stages⟩)

def finishAll : List Encoder → Bytes → Except Fault Bytes
  | [], carry => .ok carry
  | e :: rest, carry =>
    let (fed, e) := if carry = [] then (.ok [], e) else e.feed carry
    match fed with
    | .error fault => .error fault
    | .ok head =>
      match e.finish with
      | .error fault => .error fault
      | .ok tail => finishAll rest (head ++ tail)

def finish (p : Pipeline) : Except Fault Bytes := finishAll p.stages []

end Pipeline

namespace Registry

def decodeFrom (registry : Registry) (entries : Entries) (count : Nat) :
    Nat → List FilterName → Bytes → Except Fault Bytes
  | _, [], data => .ok data
  | place, f :: rest, data =>
    match registry.get f with
    | .error fault => .error fault
    | .ok codec =>
      match codec.decode (entries.params place count) data with
      | .error fault => .error fault
      | .ok out => decodeFrom registry entries count (place + 1) rest out

def decode (registry : Registry) (filters : List FilterName) (entries : Entries) (data : Bytes) :
    Except Fault Bytes :=
  decodeFrom registry entries filters.length 0 filters data

end Registry
end PdfBody
