import PdfBody.Proofs.Store.Reach
import PdfBody.Proofs.Store.Numbering
import PdfBody.Proofs.Store.Renumber

/-! Garbage collection removes exactly the objects that nothing reaches. What it leaves is what a second
collection would leave, so that one changes nothing. -/
namespace PdfBody.Store

def Apart (s : Store) : Prop := ∀ free ∈ s.freeIds, ∀ id ∈ s.ids, free.number ≠ id.number

def Alive (root : Value) (kept : IdSet) (s : Store) : ObjId → Prop :=
  s.objects.Reached fun id => root.Names id ∨ id ∈ kept.items

theorem memIds {s : Store} {id : ObjId} : id ∈ s.ids ↔ ∃ o ∈ s.objects.items, o.id = id :=
  List.mem_map

variable (root : Value) (kept : IdSet) (s : Store)

theorem reachWithAlive {id : ObjId} :
    IdSet.contains id (s.objects.reachWith root kept) = true ↔ s.Alive root kept id :=
  List.contains_iff_mem.trans (Table.findsIff (s.objects.reachWithFinds root kept))

theorem collectMem {o : Object} :
    o ∈ (s.collect root kept).2.objects.items ↔ o ∈ s.objects.items ∧ s.Alive root kept o.id := by
  rw [← reachWithAlive]
  exact List.mem_filter

theorem collectFind (id : ObjId) (o : Object) :
    (s.collect root kept).2.find? id = some o ↔ s.find? id = some o ∧ s.Alive root kept id := by
  unfold find?
  rw [Table.findIff, Table.findIff, collectMem]
  constructor
  · rintro ⟨⟨stored, alive⟩, rfl⟩
    exact ⟨⟨stored, rfl⟩, alive⟩
  · rintro ⟨⟨stored, rfl⟩, alive⟩
    exact ⟨⟨stored, alive⟩, rfl⟩

theorem collectIds : (s.collect root kept).2.ids =
    s.ids.filter fun id => IdSet.contains id (s.objects.reachWith root kept) :=
  List.filter_map.symm

theorem collectCount :
    (s.collect root kept).1 + (s.collect root kept).2.ids.length = s.ids.length := by
  let reached := fun id => IdSet.contains id (s.objects.reachWith root kept)
  have removed : (s.collect root kept).1 = s.ids.countP fun id => !reached id :=
    List.countP_eq_length_filter.symm
  have survivors : (s.collect root kept).2.ids.length = s.ids.countP reached := by
    rw [List.countP_eq_length_filter, collectIds]
  have split := List.length_eq_countP_add_countP reached (l := s.ids)
  simp only [Bool.not_eq_true, Bool.decide_eq_false] at split
  rw [removed, survivors, split, Nat.add_comm]

theorem collectApart : (s.collect root kept).2.Apart := by
  intro free pooled id stored same
  refine (Numbering.memClaimAll.mp pooled).2 ?_
  rw [same]
  exact List.mem_map_of_mem stored

theorem collectAlive {id : ObjId} (alive : s.Alive root kept id) :
    (s.collect root kept).2.Alive root kept id := by
  induction alive with
  | start first => exact .start first
  | step found stored names ih =>
    exact .step ih ((collectFind root kept s _ _).mpr ⟨stored, found⟩) names

theorem collectNothing {s : Store} (alive : ∀ id ∈ s.ids, s.Alive root kept id) (apart : s.Apart) :
    s.collect root kept = (0, s) := by
  have reached : ∀ id ∈ s.ids, IdSet.contains id (s.objects.reachWith root kept) = true :=
    fun id stored => (reachWithAlive root kept s).mpr (alive id stored)
  have objects : s.objects.keep (fun o => IdSet.contains o.id (s.objects.reachWith root kept)) =
      s.objects :=
    Ordered.ext (List.filter_eq_self.mpr fun o stored => reached o.id (memIds.mpr ⟨o, stored, rfl⟩))
  have garbage : (s.ids.filter fun id => !IdSet.contains id (s.objects.reachWith root kept)) = [] :=
    List.filter_eq_nil_iff.mpr fun id stored => by simp [reached id stored]
  have unpooled : ∀ free ∈ s.numbering.pool.items, free.number ∉ s.objects.ids.map ObjId.number := by
    intro free pooled used
    obtain ⟨id, stored, same⟩ := List.mem_map.mp used
    exact apart free pooled id stored same.symm
  have pool : s.numbering.pool.keep (fun id => !(s.objects.ids.map ObjId.number).contains id.number) =
      s.numbering.pool :=
    Ordered.ext (List.filter_eq_self.mpr fun free pooled => by simpa using unpooled free pooled)
  unfold collect
  simp only [garbage, objects, releaseAll, List.foldl_nil, Numbering.claimAll, pool]
  rfl

theorem collectExact (s : Store) (root : Value) (kept : IdSet) :
    let after := (s.collect root kept).2
    (∀ id o, after.find? id = some o ↔ s.find? id = some o ∧ s.Alive root kept id) ∧
      (s.collect root kept).1 + after.ids.length = s.ids.length ∧
      (∀ free ∈ after.freeIds, ∀ id ∈ after.ids, free.number ≠ id.number) ∧
      after.collect root kept = (0, after) := by
  refine ⟨collectFind root kept s, collectCount root kept s, collectApart root kept s,
    collectNothing root kept (fun id stored => ?_) (collectApart root kept s)⟩
  obtain ⟨o, survives, rfl⟩ := memIds.mp stored
  exact collectAlive root kept s ((collectMem root kept s).mp survives).2

end PdfBody.Store
