import PdfBody.Event

/-! Write access to the stream of one object. A handle keeps the object's mark and tells observers
about transactions; what they are to hear collects in `events`, oldest first. -/
namespace PdfBody

structure Handle where
  owner : ObjId
  content : Content
  dirty : Bool
  events : List Event
  registry : Registry
  defaultFilter : Option FilterName

namespace Handle

def pieceSize : Nat := 4096

def withContent (content : Content) (h : Handle) : Handle :=
  ⟨h.owner, content, h.dirty, h.events, h.registry, h.defaultFilter⟩

def mark (h : Handle) : Handle :=
  ⟨h.owner, h.content, true, h.events, h.registry, h.defaultFilter⟩

def tell (event : Event) (h : Handle) : Handle :=
  ⟨h.owner, h.content, h.dirty, h.events ++ [event], h.registry, h.defaultFilter⟩

def tellOpened (h : Handle) : Handle := h.tell (.streamOpened h.owner h.content.stream)

def tellClosed (h : Handle) : Handle := h.tell (.streamClosed h.owner h.content.stream)

def defaultFilters (h : Handle) : List FilterName := h.defaultFilter.toList

def begin (filters : List FilterName) (discard markDirty : Bool) (h : Handle) :
    Except Fault Unit × Handle :=
  match h.content.prepare h.registry filters discard with
  | .error fault => (.error fault, h)
  | .ok prepared =>
    let h := (if markDirty then h.mark else h).tellOpened
    match h.content.commit prepared with
    | (.error fault, content) => (.error fault, (h.withContent content).tellClosed)
    | (.ok (), content) => (.ok (), h.withContent content)

def beginDefault (discard : Bool) (h : Handle) : Except Fault Unit × Handle :=
  h.begin h.defaultFilters discard true

def append (data : Bytes) (h : Handle) : Except Fault Unit × Handle :=
  let (result, content) := h.content.append data
  (result, h.withContent content)

def close (h : Handle) : Except Fault Unit × Handle :=
  match h.content.close with
  | (.error fault, content) => (.error fault, h.withContent content)
  | (.ok (), content) => (.ok (), (h.withContent content).tellClosed)

def closeAfter (first : Except Fault Unit) (h : Handle) : Except Fault Unit × Handle :=
  let (second, h) := h.close
  match first with
  | .error fault => (.error fault, h)
  | .ok () => (second, h)

def setWith (data : Bytes) (filters : List FilterName) (h : Handle) :
    Except Fault Unit × Handle :=
  if data = [] then (.ok (), h)
  else
    match h.begin filters true true with
    | (.error fault, h) => (.error fault, h)
    | (.ok (), h) =>
      let (appended, h) := h.append data
      h.closeAfter appended

def set (data : Bytes) (h : Handle) : Except Fault Unit × Handle :=
  h.setWith data h.defaultFilters

def appendPieces (data : Bytes) (h : Handle) : Except Fault Unit × Handle × Bytes :=
  match data with
  | [] => (.ok (), h, [])
  | b :: rest =>
    match h.append ((b :: rest).take pieceSize) with
    | (.error fault, h) => (.error fault, h, (b :: rest).drop pieceSize)
    | (.ok (), h) => appendPieces ((b :: rest).drop pieceSize) h
termination_by data.length
decreasing_by simp only [pieceSize, List.length_drop, List.length_cons]; omega

def appendSource : Source → Handle → Except Fault Unit × Handle × Source
  | [], h => (.ok (), h, [])
  | .interrupted :: rest, h => appendSource rest h
  | .broken text :: rest, h => (.error (.io text), h, rest)
  | .bytes data :: rest, h =>
    match h.appendPieces data with
    | (.error fault, h, left) => (.error fault, h, .bytes left :: rest)
    | (.ok (), h, _) => appendSource rest h

def setFromWith (source : Source) (filters : List FilterName) (h : Handle) :
    Except Fault Unit × Handle × Source :=
  match h.begin filters true true with
  | (.error fault, h) => (.error fault, h, source)
  | (.ok (), h) =>
    let (copied, h, rest) := h.appendSource source
    let (result, h) := h.closeAfter copied
    (result, h, rest)

def setFrom (source : Source) (h : Handle) : Except Fault Unit × Handle × Source :=
  h.setFromWith source h.defaultFilters

def setRaw (source : Source) (limit : Option Nat) (markDirty : Bool) (h : Handle) :
    Except Fault Unit × Handle × Source :=
  match h.content.stream.ensureIdle with
  | .error fault => (.error fault, h, source)
  | .ok () =>
    let h := if markDirty then h.mark else h
    let (result, content, rest) := h.content.setRaw source limit
    (result, h.withContent content, rest)

def copyFrom (other : DataStream) (h : Handle) : Except Fault Unit × Handle :=
  let (result, h, _) := h.setRaw [.bytes other.raw] none true
  (result, h)

def decoded (h : Handle) : Except Fault Bytes := h.content.decoded h.registry

end Handle
end PdfBody
