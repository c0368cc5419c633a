import PdfBody.Store.Basic
import PdfBody.Stream.Handle

/-! The streams of stored objects. -/
namespace PdfBody.Store

def streamOf (o : Object) (s : Store) : DataStream × List Notice :=
  match o.stream with
  | some stream => (stream, [])
  | none =>
    match s.streamMaker with
    | some make => (make o.id, [.streamMade o.id])
    | none => (.empty, [])

def withStream {α : Type} (id : ObjId) (use : Handle → α × Handle) (s : Store) :
    Except Fault α × Store :=
  match s.find? id with
  | none => (.error (.missing id), s)
  | some o =>
    match o.value.getEntries with
    | .error fault => (.error fault, s)
    | .ok entries =>
      let (stream, made) := s.streamOf o
      let (result, h) :=
        use ⟨id, ⟨stream, entries⟩, o.dirty, [], s.registry, s.options.defaultFilter⟩
      let s := s.alter id fun _ => ⟨id, .dict h.content.entries, some h.content.stream, h.dirty⟩
      (.ok result, s.post (made ++ h.events.flatMap s.observers.notify))

def onStream (id : ObjId) (use : Handle → Except Fault Unit × Handle) (s : Store) :
    Except Fault Unit × Store :=
  match s.withStream id use with
  | (.error fault, s) => (.error fault, s)
  | (.ok result, s) => (result, s)

def stream? (id : ObjId) (s : Store) : Option DataStream := s.find? id >>= Object.stream

def getStream (id : ObjId) (s : Store) : Except Fault DataStream :=
  match s.get id with
  | .error fault => .error fault
  | .ok o => o.getStream

def decoded (id : ObjId) (s : Store) : Except Fault Bytes :=
  match s.get id with
  | .error fault => .error fault
  | .ok o =>
    match o.getStream with
    | .error fault => .error fault
    | .ok stream => o.value.getEntries.bind fun entries => Content.decoded s.registry ⟨stream, entries⟩

def takeStream (id : ObjId) (s : Store) : Except Fault (Option DataStream) × Store :=
  match s.find? id with
  | none => (.error (.missing id), s)
  | some o => (.ok o.stream, s.alter id fun o => ⟨o.id, o.value, none, true⟩)

def putOrErase (key : String) (value : Option Value) (entries : Entries) : Entries :=
  match value with
  | some v => Entries.put key v entries
  | none => Entries.erase key entries

def copyStream (source target : ObjId) (s : Store) : Except Fault Unit × Store :=
  match s.get source with
  | .error fault => (.error fault, s)
  | .ok o =>
    match o.getStream with
    | .error fault => (.error fault, s)
    | .ok stream =>
      match o.value.getEntries with
      | .error fault => (.error fault, s)
      | .ok described =>
        s.onStream target fun h =>
          let entries :=
            putOrErase Entries.paramsKey (described.lookup Entries.paramsKey)
              (putOrErase Entries.filterKey (described.lookup Entries.filterKey) h.content.entries)
          (h.withContent ⟨h.content.stream, entries⟩).copyFrom stream

end PdfBody.Store
