import PdfBody.Proofs.Store.Reach
import PdfBody.Proofs.Store.Meaning

/-! Which objects count as changed after a renumbering: those that did before, those with another id, and
those that name an object with another id. -/
namespace PdfBody

theorem Table.renamesMapped (table : Table) :
    table.renames = table.ids.map fun id => (id, table.renames.apply id) := by
  rw [List.map_prod_left_eq_zip, table.renamedIds]
  rfl

theorem Object.renameDirty {f : ObjId → ObjId} {o : Object} :
    (o.rename f).dirty = true ↔ o.dirty = true ∨ f o.id ≠ o.id ∨
      ∃ target, o.value.Names target ∧ f target ≠ target := by
  simp only [rename, Bool.or_eq_true, bne_iff_ne, List.any_eq_true, Value.refsNames, or_assoc,
    ne_comm (a := o.id)]

namespace Store

structure Marked (before after : Store) (renames : Renaming) : Prop where
  stored : renames.map Prod.fst = before.ids
  images : renames.map Prod.snd = after.ids
  marks : ∀ id new, (id, new) ∈ renames → ∃ o o', before.find? id = some o ∧
    after.find? new = some o' ∧ (o'.dirty = true ↔ o.dirty = true ∨ new ≠ id ∨
      ∃ target moved, o.value.Names target ∧ (target, moved) ∈ renames ∧ moved ≠ target)

theorem memRenames {s : Store} {id new : ObjId} :
    (id, new) ∈ s.objects.renames ↔ id ∈ s.ids ∧ s.newId id = new := by
  rw [s.objects.renamesMapped, List.mem_map]
  constructor
  · rintro ⟨old, stored, same⟩
    cases same
    exact ⟨stored, rfl⟩
  · rintro ⟨stored, rfl⟩
    exact ⟨id, stored, rfl⟩

theorem renumberedMarked {before after : Store} (renumbered : Renumbered before after) :
    Marked before after before.objects.renames where
  stored := by
    rw [before.objects.renamesMapped, List.map_map]
    exact List.map_id _
  images := by
    rw [renumbered.ids, before.objects.renamesMapped, List.map_map]
    exact before.objects.renamedIds
  marks id new among := by
    obtain ⟨stored, rfl⟩ := memRenames.mp among
    obtain ⟨o, member, rfl⟩ := List.mem_map.mp stored
    have found := Table.findIff.mpr ⟨member, rfl⟩
    refine ⟨o, _, found, findMoved renumbered found, ?_⟩
    rw [Object.renameDirty]
    refine or_congr_right (or_congr_right ⟨?_, ?_⟩)
    · rintro ⟨target, names, other⟩
      have stored : target ∈ before.ids := Classical.byContradiction fun outside =>
        other (renumbered.others target outside)
      exact ⟨target, _, names, memRenames.mpr ⟨stored, rfl⟩, other⟩
    · rintro ⟨target, moved, names, among, other⟩
      obtain ⟨-, rfl⟩ := memRenames.mp among
      exact ⟨target, names, other⟩

theorem renumberedFew {s after : Store} {root : Value} {kept : IdSet} {outcome : Renaming × Value}
    (ran : s.renumber root kept false = (.ok outcome, after)) : s.ids.length < UInt32.size := by
  rw [ids, Table.ids, List.length_map]
  exact numbersSuffice.mp (renumberedWithin ran)

theorem renumberMarks {s : Store} {root : Value} (kept : IdSet) (keyed : s.Keyed)
    (rootKeyed : root.Keyed) :
    ((∃ outcome, (s.renumber root kept false).1 = .ok outcome) ↔ s.ids.length < UInt32.size) ∧
      ∀ renames root' after, s.renumber root kept false = (.ok (renames, root'), after) →
        Marked s after renames := by
  constructor
  · constructor
    · rintro ⟨outcome, done⟩
      exact renumberedFew (Prod.ext done rfl)
    · exact fun few => ⟨_, (renumberedPlain kept few keyed rootKeyed).1⟩
  · intro renames root' after ran
    obtain ⟨result, renumbered⟩ := renumberedPlain kept (renumberedFew ran) keyed rootKeyed
    rw [ran] at result renumbered
    cases result
    exact renumberedMarked renumbered

def partlyMoved : Store :=
  let s := make .storing .standard
  let s := (s.push ⟨1, 0⟩ (.arr [.ref ⟨1, 0⟩, .ref ⟨9, 0⟩])).2
  let s := (s.push ⟨2, 0⟩ .null).2
  let s := (s.push ⟨3, 0⟩ (.dict [("Next", .arr [.ref ⟨7, 2⟩])])).2
  let s := (s.push ⟨7, 2⟩ (.ref ⟨1, 0⟩)).2
  (s.setDirty ⟨2, 0⟩ true).2

theorem partlyMovedKeyed : partlyMoved.Keyed := by
  have stored : partlyMoved.objects.items =
      [⟨⟨1, 0⟩, .arr [.ref ⟨1, 0⟩, .ref ⟨9, 0⟩], none, false⟩, ⟨⟨2, 0⟩, .null, none, true⟩,
        ⟨⟨3, 0⟩, .dict [("Next", .arr [.ref ⟨7, 2⟩])], none, false⟩,
        ⟨⟨7, 2⟩, .ref ⟨1, 0⟩, none, false⟩] := rfl
  intro o found
  rw [stored] at found
  simp only [List.mem_cons, List.not_mem_nil, or_false] at found
  rcases found with rfl | rfl | rfl | rfl <;>
    simp [Value.Keyed, Value.KeyedItems, Value.KeyedEntries]

theorem partlyMovedMarks :
    let after := (partlyMoved.renumber .null .empty false).2
    (∃ o, after.find? ⟨1, 0⟩ = some o ∧ ¬ o.dirty = true) ∧
      (∃ o, after.find? ⟨2, 0⟩ = some o ∧ o.dirty = true) ∧
      (∃ o, after.find? ⟨3, 0⟩ = some o ∧ o.dirty = true) ∧
      ∃ o, after.find? ⟨4, 0⟩ = some o ∧ o.dirty = true := by
  have ran : partlyMoved.renumber .null .empty false = (.ok (partlyMoved.objects.renames, .null),
      (partlyMoved.renumber .null .empty false).2) := rfl
  have rootKeyed : Value.null.Keyed := trivial
  have marks := ((renumberMarks .empty partlyMovedKeyed rootKeyed).2 _ _ _ ran).marks
  refine ⟨?_, ?_, ?_, ?_⟩
  · obtain ⟨o, o', was, is, dirty⟩ := marks ⟨1, 0⟩ ⟨1, 0⟩ (by decide)
    cases was
    refine ⟨o', is, fun marked => ?_⟩
    rcases dirty.mp marked with before | other | ⟨target, moved, names, among, other⟩
    · cases before
    · exact other rfl
    · obtain ⟨-, rfl⟩ := memRenames.mp among
      have named : target ∈ [⟨1, 0⟩, ⟨9, 0⟩] := (Value.refsNames target _).mpr names
      simp only [List.mem_cons, List.not_mem_nil, or_false] at named
      rcases named with rfl | rfl <;> exact other rfl
  · obtain ⟨o, o', was, is, dirty⟩ := marks ⟨2, 0⟩ ⟨2, 0⟩ (by decide)
    cases was
    exact ⟨o', is, dirty.mpr (.inl rfl)⟩
  · obtain ⟨o, o', was, is, dirty⟩ := marks ⟨3, 0⟩ ⟨3, 0⟩ (by decide)
    cases was
    have names : Value.Names ⟨7, 2⟩ (.dict [("Next", .arr [.ref ⟨7, 2⟩])]) :=
      .entry List.mem_cons_self (.item List.mem_cons_self .ref)
    exact ⟨o', is, dirty.mpr (.inr (.inr ⟨⟨7, 2⟩, ⟨4, 0⟩, names, by decide, by decide⟩))⟩
  · obtain ⟨o, o', was, is, dirty⟩ := marks ⟨7, 2⟩ ⟨4, 0⟩ (by decide)
    cases was
    exact ⟨o', is, dirty.mpr (.inr (.inl (by decide)))⟩

end Store
end PdfBody
