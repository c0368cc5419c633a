import PdfBody.Event
import PdfBody.Filter.Standard
import PdfBody.Store.Numbering

/-! The store of a document's indirect objects. It issues their ids, takes back the ids of removed
objects, and hands out the objects by id. -/
namespace PdfBody

abbrev Table := Ordered Object fun o => o.id.rank

namespace Table

def find? (id : ObjId) (table : Table) : Option Object := Ordered.find? (fun o => o.id == id) table

def contains (id : ObjId) (table : Table) : Bool := (table.find? id).isSome

def ids (table : Table) : List ObjId := table.items.map Object.id

def remove (id : ObjId) (table : Table) : Table := table.keep fun o => o.id != id

def alter (id : ObjId) (change : Object → Object) (table : Table) : Table :=
  table.update
    (fun o => if o.id = id then
      let new := change o
      ⟨o.id, new.value, new.stream, new.dirty⟩
    else o)
    (by intro o; dsimp only; split <;> rfl)

def usesNumber (number : UInt32) (table : Table) : Bool :=
  table.items.any fun o => o.id.number == number

end Table

structure Options where
  reuse : Bool
  defaultFilter : Option FilterName
  maxGeneration : UInt16
  maxNumber : UInt32
  deriving DecidableEq, Repr

def Options.standard : Options := ⟨true, some .flate, 65535, 8388607⟩

def Options.numbering (options : Options) : Numbering :=
  .make options.reuse options.maxGeneration options.maxNumber

structure Store where
  objects : Table
  numbering : Numbering
  observers : Observers
  outbox : List Notice
  streamMaker : Option (ObjId → DataStream)
  registry : Registry
  options : Options

namespace Store

def make (zlib : Zlib) (options : Options) : Store :=
  ⟨.empty, options.numbering, .none, [], none, .standard zlib, options⟩

def withObjects (objects : Table) (s : Store) : Store :=
  ⟨objects, s.numbering, s.observers, s.outbox, s.streamMaker, s.registry, s.options⟩

def withNumbering (numbering : Numbering) (s : Store) : Store :=
  ⟨s.objects, numbering, s.observers, s.outbox, s.streamMaker, s.registry, s.options⟩

def withRegistry (registry : Registry) (s : Store) : Store :=
  ⟨s.objects, s.numbering, s.observers, s.outbox, s.streamMaker, registry, s.options⟩

def withStreamMaker (maker : Option (ObjId → DataStream)) (s : Store) : Store :=
  ⟨s.objects, s.numbering, s.observers, s.outbox, maker, s.registry, s.options⟩

def withOptions (options : Options) (s : Store) : Store :=
  ⟨s.objects, s.numbering, s.observers, s.outbox, s.streamMaker, s.registry, options⟩

def setDefaultFilter (filter : Option FilterName) (s : Store) : Store :=
  s.withOptions ⟨s.options.reuse, filter, s.options.maxGeneration, s.options.maxNumber⟩

def ids (s : Store) : List ObjId := s.objects.ids

def freeIds (s : Store) : List ObjId := s.numbering.pool.items

def find? (id : ObjId) (s : Store) : Option Object := s.objects.find? id

def get (id : ObjId) (s : Store) : Except Fault Object :=
  match s.find? id with
  | some o => .ok o
  | none => .error (.missing id)

def alter (id : ObjId) (change : Object → Object) (s : Store) : Store :=
  s.withObjects (s.objects.alter id change)

def create (value : Value) (s : Store) : Except Fault ObjId × Store :=
  match s.numbering.allocate with
  | (.error fault, numbering) => (.error fault, s.withNumbering numbering)
  | (.ok id, numbering) =>
    let s := s.withNumbering (numbering.cover id).2
    if s.objects.contains id then
      (.error (.state s!"Allocated id {id.text} is already in use"), s)
    else (.ok id, s.withObjects (s.objects.put (.make id value)))

def createDictionary (type : Option String) (s : Store) : Except Fault ObjId × Store :=
  s.create (.dict (match type with
    | some name => [(Entries.typeKey, .name name)]
    | none => []))

def push (id : ObjId) (value : Value) (s : Store) : Except Fault ObjId × Store :=
  if id.number = 0 ∨ s.options.maxNumber < id.number then
    (.error (.outOfRange s!"Object number {id.number} is outside 1..={s.options.maxNumber}"), s)
  else
    let s := s.withNumbering ((s.numbering.claim id.number).cover id).2
    (.ok id, s.withObjects (s.objects.put (.make id value)))

def remove (id : ObjId) (free : Bool) (s : Store) : Option Object × Store :=
  match s.find? id with
  | none => (none, s)
  | some o =>
    let s := s.withObjects (s.objects.remove id)
    (some o, if free then s.withNumbering (s.numbering.release id).2 else s)

def clear (s : Store) : Store := (s.withObjects .empty).withNumbering s.options.numbering

def addFree (id : ObjId) (s : Store) : Store :=
  if s.objects.usesNumber id.number then s
  else s.withNumbering (s.numbering.addFree id).2

def offerFree (id : ObjId) (s : Store) : Bool × Store :=
  if s.objects.usesNumber id.number then (false, s)
  else
    let (pooled, numbering) := s.numbering.offer id
    (pooled, s.withNumbering numbering)

def releaseFree (id : ObjId) (s : Store) : Option UInt16 × Store :=
  if s.objects.usesNumber id.number then (none, s)
  else
    let (generation, numbering) := s.numbering.release id
    (generation, s.withNumbering numbering)

def reserve (number : UInt32) (s : Store) : Store :=
  s.withNumbering (s.numbering.reserve number)

def setReuse (reuse : Bool) (s : Store) : Store :=
  (s.withOptions ⟨reuse, s.options.defaultFilter, s.options.maxGeneration,
    s.options.maxNumber⟩).withNumbering (s.numbering.setReuse reuse)

def cover (id : ObjId) (s : Store) : Bool × Store :=
  let (raised, numbering) := s.numbering.cover id
  (raised, s.withNumbering numbering)

def setValue (id : ObjId) (value : Value) (s : Store) : Except Fault Value × Store :=
  match s.find? id with
  | none => (.error (.missing id), s)
  | some o => (.ok o.value, s.alter id (Object.setValue value))

def setEntry (id : ObjId) (key : String) (value : Value) (s : Store) : Except Fault Unit × Store :=
  match s.find? id with
  | none => (.error (.missing id), s)
  | some o =>
    match o.value.getEntries with
    | .error fault => (.error fault, s.alter id (Object.setDirty true))
    | .ok entries => (.ok (), s.alter id (Object.setValue (.dict (Entries.put key value entries))))

def getEntry (id : ObjId) (key : String) (s : Store) : Except Fault (Option Value) :=
  match s.get id with
  | .error fault => .error fault
  | .ok o => o.value.getEntries.map fun entries => entries.lookup key

def setDirty (id : ObjId) (dirty : Bool) (s : Store) : Except Fault Unit × Store :=
  match s.find? id with
  | none => (.error (.missing id), s)
  | some _ => (.ok (), s.alter id (Object.setDirty dirty))

def resetDirty (s : Store) : Store :=
  s.withObjects (s.objects.update (Object.setDirty false) fun _ => rfl)

def post (notices : List Notice) (s : Store) : Store :=
  ⟨s.objects, s.numbering, s.observers, s.outbox ++ notices, s.streamMaker, s.registry, s.options⟩

def withObservers (observers : Observers) (s : Store) : Store :=
  ⟨s.objects, s.numbering, observers, s.outbox, s.streamMaker, s.registry, s.options⟩

def attach (s : Store) : Nat × Store :=
  let (token, observers) := s.observers.attach
  (token, s.withObservers observers)

def detach (token : Nat) (s : Store) : Bool × Store :=
  let (found, observers) := s.observers.detach token
  (found, s.withObservers observers)

def notify (event : Event) (s : Store) : Store := s.post (s.observers.notify event)

def announce (id : ObjId) (s : Store) : Except Fault Unit × Store :=
  match s.find? id with
  | none => (.error (.missing id), s)
  | some o => (.ok (), s.notify (.written o))

def takeOutbox (s : Store) : List Notice × Store :=
  (s.outbox, ⟨s.objects, s.numbering, s.observers, [], s.streamMaker, s.registry, s.options⟩)

end Store
end PdfBody
