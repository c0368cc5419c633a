import PdfBody.Stream.Buffer
import PdfBody.Filter.Pipeline

/-! A stream and the dictionary that describes it. The dictionary names the filters and the length
of the octets, so every change of the stream is a change of both. Content is added in transactions:
the filters are chosen when one begins, and the length is set when it ends. -/
namespace PdfBody

structure DataStream where
  buffer : Buffer
  filters : List FilterName
  open? : Option Pipeline

namespace DataStream

def ofBuffer (buffer : Buffer) : DataStream := ⟨buffer, [], none⟩

def empty : DataStream := ofBuffer .memory

def raw (s : DataStream) : Bytes := s.buffer.content

def length (s : DataStream) : Nat := s.raw.length

def isAppending (s : DataStream) : Bool := s.open?.isSome

def ensureIdle (s : DataStream) : Except Fault Unit :=
  if s.isAppending then
    .error (.state "BeginAppend() failed because EndAppend() was not yet called")
  else .ok ()

end DataStream

structure Content where
  stream : DataStream
  entries : Entries

structure Prepared where
  filters : List FilterName
  pipeline : Pipeline
  carried : Bytes

namespace Content

def decoded (registry : Registry) (c : Content) : Except Fault Bytes :=
  match c.entries.filters with
  | .error fault => .error fault
  | .ok [] => .ok c.stream.raw
  | .ok filters => registry.decode filters c.entries c.stream.raw

def prepare (registry : Registry) (filters : List FilterName) (discard : Bool) (c : Content) :
    Except Fault Prepared :=
  match c.stream.ensureIdle with
  | .error fault => .error fault
  | .ok () =>
    match Pipeline.make registry filters c.entries with
    | .error fault => .error fault
    | .ok pipeline =>
      if discard || c.stream.raw.isEmpty then .ok ⟨filters, pipeline, []⟩
      else
        match c.decoded registry with
        | .error fault => .error fault
        | .ok kept =>
          match pipeline.feed kept with
          | (.error fault, _) => .error fault
          | (.ok carried, pipeline) => .ok ⟨filters, pipeline, carried⟩

def commit (prepared : Prepared) (c : Content) : Except Fault Unit × Content :=
  match c.stream.buffer.clear.write prepared.carried with
  | (.error fault, buffer) =>
    (.error fault, ⟨⟨buffer, c.stream.filters, c.stream.open?⟩, c.entries⟩)
  | (.ok (), buffer) =>
    (.ok (), ⟨⟨buffer, prepared.filters, some prepared.pipeline⟩,
      c.entries.setFilters prepared.filters⟩)

def begin (registry : Registry) (filters : List FilterName) (discard : Bool) (c : Content) :
    Except Fault Unit × Content :=
  match c.prepare registry filters discard with
  | .error fault => (.error fault, c)
  | .ok prepared => c.commit prepared

def append (data : Bytes) (c : Content) : Except Fault Unit × Content :=
  match c.stream.open? with
  | none => (.error (.state "Append() failed because BeginAppend() was not yet called"), c)
  | some pipeline =>
    match pipeline.feed data with
    | (.error fault, pipeline) =>
      (.error fault, ⟨⟨c.stream.buffer, c.stream.filters, some pipeline⟩, c.entries⟩)
    | (.ok encoded, pipeline) =>
      let (result, buffer) := c.stream.buffer.write encoded
      (result, ⟨⟨buffer, c.stream.filters, some pipeline⟩, c.entries⟩)

def refreshLength (c : Content) : Content :=
  ⟨c.stream, Entries.put Entries.lengthKey (.int (Int64.ofNat c.stream.length)) c.entries⟩

def close (c : Content) : Except Fault Unit × Content :=
  match c.stream.open? with
  | none => (.error (.state "EndAppend() failed because BeginAppend() was not yet called"), c)
  | some pipeline =>
    match pipeline.finish with
    | .error fault => (.error fault, ⟨⟨c.stream.buffer, c.stream.filters, none⟩, c.entries⟩)
    | .ok tail =>
      match c.stream.buffer.write tail with
      | (.error fault, buffer) => (.error fault, ⟨⟨buffer, c.stream.filters, none⟩, c.entries⟩)
      | (.ok (), buffer) =>
        (.ok (), refreshLength ⟨⟨buffer, c.stream.filters, none⟩, c.entries⟩)

def setRaw (source : Source) (limit : Option Nat) (c : Content) :
    Except Fault Unit × Content × Source :=
  match c.stream.ensureIdle with
  | .error fault => (.error fault, c, source)
  | .ok () =>
    match source.read limit with
    | (.error fault, rest) => (.error fault, c, rest)
    | (.ok data, rest) =>
      -- an entry that cannot be read counts as none
      let filters := c.entries.filters.toOption.getD []
      match c.stream.buffer.clear.write data with
      | (.error fault, buffer) =>
        (.error fault, ⟨⟨buffer, filters, c.stream.open?⟩, c.entries⟩, rest)
      | (.ok (), buffer) =>
        (.ok (), refreshLength ⟨⟨buffer, filters, c.stream.open?⟩, c.entries⟩, rest)

end Content
end PdfBody
