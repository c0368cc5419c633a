import PdfBody.Store.Basic
import PdfBody.Value.Path

/-! Where references stand: in the root or in an object, and on what path from there. -/
namespace PdfBody

namespace Value

def within (step : Step) (found : Path × ObjId) : Path × ObjId := (step :: found.1, found.2)

mutual

def refPlaces : Value → List (Path × ObjId)
  | ref id => [([], id)]
  | arr items => refPlacesItems 0 items
  | dict entries => refPlacesEntries entries
  | _ => []

def refPlacesItems (place : Nat) : List Value → List (Path × ObjId)
  | [] => []
  | v :: rest =>
    (refPlaces v).map (within (.index place)) ++ refPlacesItems (place + 1) rest

def refPlacesEntries : List (String × Value) → List (Path × ObjId)
  | [] => []
  | (key, v) :: rest => (refPlaces v).map (within (.key key)) ++ refPlacesEntries rest

end

end Value

inductive Holder where
  | root
  | object (id : ObjId)
  deriving DecidableEq, Repr

structure Location where
  holder : Holder
  path : Path
  target : ObjId
  deriving DecidableEq, Repr

def Location.inside (holder : Holder) (v : Value) : List Location :=
  v.refPlaces.map fun found => ⟨holder, found.1, found.2⟩

def Store.locations (root : Value) (s : Store) : List Location :=
  Location.inside .root root ++
    s.objects.items.flatMap fun o => Location.inside (.object o.id) o.value

end PdfBody
