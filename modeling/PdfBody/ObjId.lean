/-! Ids of indirect objects: an object number and the generation of that number. -/
namespace PdfBody

structure ObjId where
  number : UInt32
  generation : UInt16
  deriving DecidableEq, Repr, Inhabited

namespace ObjId

def nobody : ObjId := ⟨0, 0⟩

def rank (id : ObjId) : Nat := id.number.toNat * 0x10000 + id.generation.toNat

theorem rankInjective {a b : ObjId} (same : a.rank = b.rank) : a = b := by
  obtain ⟨n, g⟩ := a
  obtain ⟨m, h⟩ := b
  have hg := g.toNat_lt
  have hh := h.toNat_lt
  simp only [rank] at same
  have number : n.toNat = m.toNat := by omega
  have generation : g.toNat = h.toNat := by omega
  rw [UInt32.toNat_inj.mp number, UInt16.toNat_inj.mp generation]

def text (id : ObjId) : String := s!"{id.number} {id.generation} R"

def sort (ids : List ObjId) : List ObjId := ids.mergeSort fun a b => a.rank ≤ b.rank

end ObjId
end PdfBody
