import PdfBody.Store.Collect
import PdfBody.Store.Locate

/-! Renumbering: the objects get the ids from `1 0` on without gaps, in their present order, and
every reference to one of them follows. The places of all references are noted down before the ids
change; afterwards each is patched where its holder now stands. -/
namespace PdfBody

abbrev Renaming := List (ObjId × ObjId)

def numberLimit : Nat := 0xFFFFFFFF

def denseId (place : Nat) : ObjId := ⟨UInt32.ofNat place, 0⟩

namespace Table

def dense (place : Nat) : List Object → List Object
  | [] => []
  | o :: rest =>
    ⟨denseId place, o.value, o.stream, o.dirty || o.id != denseId place⟩ :: dense (place + 1) rest

theorem memDense {place : Nat} {objects : List Object} {b : Object}
    (found : b ∈ dense place objects) :
    ∃ q, place ≤ q ∧ q < place + objects.length ∧ b.id = denseId q := by
  induction objects generalizing place with
  | nil => simp [dense] at found
  | cons o rest ih =>
    rcases List.mem_cons.mp found with here | later
    · exact ⟨place, Nat.le_refl _, by simp, by rw [here]⟩
    · obtain ⟨q, low, high, same⟩ := ih later
      exact ⟨q, by omega, by simp only [List.length_cons]; omega, same⟩

theorem denseIdRank {place : Nat} (small : place < UInt32.size) :
    (denseId place).rank = place * 0x10000 := by
  have number : (UInt32.ofNat place).toNat = place := UInt32.toNat_ofNat_of_lt' small
  simp only [denseId, ObjId.rank, number, UInt16.toNat_zero, Nat.add_zero]

theorem denseAscending {place : Nat} {objects : List Object}
    (few : place + objects.length ≤ UInt32.size) :
    (dense place objects).Pairwise fun a b => a.id.rank < b.id.rank := by
  induction objects generalizing place with
  | nil => exact .nil
  | cons o rest ih =>
    simp only [List.length_cons] at few
    refine List.pairwise_cons.mpr ⟨fun b found => ?_, ih (by omega)⟩
    obtain ⟨q, low, high, same⟩ := memDense found
    rw [same, denseIdRank (by omega), denseIdRank (by omega)]
    omega

def renumbered (table : Table) : Table :=
  ⟨dense 1 (table.items.take numberLimit),
    denseAscending (by simp only [List.length_take, numberLimit, UInt32.size]; omega)⟩

def renames (table : Table) : Renaming :=
  table.ids.zip ((List.range' 1 table.ids.length).map denseId)

end Table

namespace Value

/-- The program would fail at a place without a reference. In a renumbering there is none
(`Store.notedStands`), so that no failure is lost here. -/
def redirect (path : Path) (target : ObjId) (v : Value) : Value :=
  match v.at? path with
  | some (.ref _) => replaceAt (.ref target) path v
  | _ => v

end Value

def Location.patch (renames : Renaming) (state : Value × Table) (place : Location) :
    Value × Table :=
  match renames.lookup place.target with
  | none => state
  | some target =>
    if target = place.target then state
    else
      match place.holder with
      | .root => (state.1.redirect place.path target, state.2)
      | .object old =>
        match renames.lookup old with
        | none => state
        | some id =>
          (state.1, state.2.alter id fun o =>
            ⟨o.id, o.value.redirect place.path target, o.stream, true⟩)

namespace Store

def renumber (root : Value) (kept : IdSet) (collectFirst : Bool) (s : Store) :
    Except Fault (Renaming × Value) × Store :=
  let s := if collectFirst then (s.collect root kept).2 else s
  let noted := s.locations root
  let renames := s.objects.renames
  let objects := s.objects.renumbered
  if numberLimit < s.objects.items.length then
    (.error (.outOfRange "Too many objects to renumber"), s.withObjects objects)
  else
    let (root, objects) := noted.foldl (Location.patch renames) (root, objects)
    (.ok (renames, root), (s.withObjects objects).withNumbering
      (s.numbering.reset (UInt32.ofNat objects.items.length)))

end Store
end PdfBody
