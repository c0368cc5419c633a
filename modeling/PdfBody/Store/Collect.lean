import PdfBody.Store.Reach

/-! Garbage collection: objects that neither the root nor a kept id reaches are removed, and their
ids given up. -/
namespace PdfBody

namespace Table

def reachWith (table : Table) (root : Value) (kept : IdSet) : IdSet :=
  kept.items.foldl (fun seen id => table.reachFrom seen [id]) (table.reach root)

end Table

namespace Store

def releaseAll (ids : List ObjId) (numbering : Numbering) : Numbering :=
  ids.foldl (fun n id => (n.release id).2) numbering

def collect (root : Value) (kept : IdSet) (s : Store) : Nat × Store :=
  let reached := s.objects.reachWith root kept
  let garbage := s.ids.filter fun id => !IdSet.contains id reached
  let objects : Table := s.objects.keep fun o => IdSet.contains o.id reached
  -- a number that stays in use leaves the pool, whoever had put it there
  let numbering := (releaseAll garbage s.numbering).claimAll (objects.ids.map ObjId.number)
  (garbage.length, (s.withObjects objects).withNumbering numbering)

end Store
end PdfBody
