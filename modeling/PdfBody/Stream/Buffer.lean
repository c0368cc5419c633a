import PdfBody.Fault
import PdfBody.Bytes

/-! Where a stream keeps its encoded octets, and where new ones are read from. -/
namespace PdfBody

/-- Storage that may refuse writes: `refuse n data` is why the `n`-th write since the buffer was
made, counted from one, fails on the data. A refused write stores nothing but is counted. -/
structure Buffer where
  content : Bytes
  writes : Nat
  refuse : Nat → Bytes → Option Fault

namespace Buffer

def memory : Buffer := ⟨[], 0, fun _ _ => none⟩

def clear (buffer : Buffer) : Buffer := ⟨[], buffer.writes, buffer.refuse⟩

def write (buffer : Buffer) (data : Bytes) : Except Fault Unit × Buffer :=
  match buffer.refuse (buffer.writes + 1) data with
  | some fault => (.error fault, ⟨buffer.content, buffer.writes + 1, buffer.refuse⟩)
  | none => (.ok (), ⟨buffer.content ++ data, buffer.writes + 1, buffer.refuse⟩)

end Buffer

/-- What one read comes to. A delivery of no octets stands for no read at all: a reader that gives nothing
has come to its end, which is the end of the list. -/
inductive Delivery where
  | bytes (data : Bytes)
  | interrupted
  | broken (text : String)
  deriving DecidableEq, Repr

abbrev Source := List Delivery

namespace Source

def readFrom (done : Bytes) : Option Nat → Source → Except Fault Bytes × Source
  | some 0, source => (.ok done, source)
  | _, [] => (.ok done, [])
  | limit, .interrupted :: rest => readFrom done limit rest
  | _, .broken text :: rest => (.error (.io text), rest)
  | none, .bytes data :: rest => readFrom (done ++ data) none rest
  | some limit, .bytes data :: rest =>
    if data.length ≤ limit then readFrom (done ++ data) (some (limit - data.length)) rest
    else (.ok (done ++ data.take limit), .bytes (data.drop limit) :: rest)

def read (limit : Option Nat) (source : Source) : Except Fault Bytes × Source :=
  readFrom [] limit source

end Source
end PdfBody
