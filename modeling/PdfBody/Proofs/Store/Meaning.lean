import PdfBody.Proofs.Store.Renumber

/-! What references mean across a renumbering. A reference to a stored object follows it; one that
leads nowhere keeps its id. The new ids leave out none from `1 0` on, so such an id may become
another object's, and nothing guards against it. -/
namespace PdfBody

def Holder.move (f : ObjId → ObjId) : Holder → Holder
  | root => root
  | object id => object (f id)

namespace Store

def held (root : Value) (s : Store) : Holder → Option Value
  | .root => some root
  | .object id => (s.find? id).map Object.value

def Refers (root : Value) (s : Store) (place : Location) : Prop :=
  ∃ v, s.held root place.holder = some v ∧ v.at? place.path = some (.ref place.target)

def Follows (before after : Store) (root : Value) (place : Location) : Prop :=
  ∃ target, after.Refers root ⟨place.holder.move before.newId, place.path, target⟩ ∧
    after.find? target = (before.find? place.target).map (Object.rename before.newId)

theorem refersOnce {s : Store} {root : Value} {holder : Holder} {path : Path} {a b : ObjId}
    (first : s.Refers root ⟨holder, path, a⟩) (second : s.Refers root ⟨holder, path, b⟩) : a = b := by
  obtain ⟨v, holds, leads⟩ := first
  obtain ⟨w, holds', leads'⟩ := second
  cases holds.symm.trans holds'
  cases leads.symm.trans leads'
  rfl

section

variable {before after : Store} (renumbered : Renumbered before after)

include renumbered

theorem findMoved {id : ObjId} {o : Object} (stored : before.find? id = some o) :
    after.find? (before.newId id) = some (o.rename before.newId) := by
  obtain ⟨member, rfl⟩ := Table.findIff.mp stored
  obtain ⟨k, found⟩ := List.getElem?_of_mem member
  rw [renumbered.moved k o.id (Table.idAt found)]
  exact renumbered.objects k o found

theorem refersMoved {root : Value} {place : Location} (refers : before.Refers root place) :
    after.Refers (root.rename before.newId)
      ⟨place.holder.move before.newId, place.path, before.newId place.target⟩ := by
  obtain ⟨v, holds, leads⟩ := refers
  refine ⟨v.rename before.newId, ?_, by rw [Value.renameAt, leads]; rfl⟩
  cases holder : place.holder with
  | root =>
    rw [holder] at holds
    cases holds
    rfl
  | object id =>
    rw [holder, held, Option.map_eq_some_iff] at holds
    obtain ⟨o, stored, rfl⟩ := holds
    rw [Holder.move, held, findMoved renumbered stored]
    rfl

theorem followsIff {root : Value} {place : Location} (refers : before.Refers root place) :
    before.Follows after (root.rename before.newId) place ↔
      (before.find? place.target).isSome ∨ place.target ∉ after.ids := by
  have stands := refersMoved renumbered refers
  constructor
  · rintro ⟨target, stands', leads⟩
    cases refersOnce stands stands'
    cases stored : before.find? place.target with
    | some o => exact .inl rfl
    | none =>
      rw [stored, renumbered.others _ (Table.findNone.mp stored)] at leads
      exact .inr (Table.findNone.mp leads)
  · intro safe
    refine ⟨_, stands, ?_⟩
    cases stored : before.find? place.target with
    | some o => exact findMoved renumbered stored
    | none =>
      rw [stored] at safe
      rw [renumbered.others _ (Table.findNone.mp stored)]
      exact Table.findNone.mpr (safe.resolve_left (by simp))

end

theorem renumberedWithin {s after : Store} {root : Value} {kept : IdSet}
    {outcome : Renaming × Value} (ran : s.renumber root kept false = (.ok outcome, after)) :
    s.objects.items.length ≤ numberLimit := by
  refine Nat.le_of_not_lt fun many => ?_
  unfold renumber at ran
  simp only [Bool.false_eq_true, if_false, if_pos many] at ran
  cases ran

theorem renumberFollows {s after : Store} {root root' : Value} {kept : IdSet} {renames : Renaming}
    (keyed : s.Keyed) (rootKeyed : root.Keyed)
    (ran : s.renumber root kept false = (.ok (renames, root'), after)) :
    ∀ place, s.Refers root place →
      (s.Follows after root' place ↔ (s.find? place.target).isSome ∨
        place.target ∉ (List.range' 1 s.ids.length).map denseId) := by
  have within := renumberedWithin ran
  have few : s.ids.length < UInt32.size := by
    rw [ids, Table.ids, List.length_map]
    exact numbersSuffice.mp within
  obtain ⟨result, renumbered⟩ := renumberedPlain kept few keyed rootKeyed
  rw [ran] at result renumbered
  cases result
  intro place refers
  rw [← renumbered.ids]
  exact followsIff renumbered refers

theorem overlappingFollows :
    let after := (overlapping.renumber (.ref ⟨2, 1⟩) .empty false).2
    overlapping.Follows after (.ref ⟨2, 0⟩) ⟨.object ⟨3, 0⟩, [.index 0], ⟨2, 1⟩⟩ ∧
      overlapping.Follows after (.ref ⟨2, 0⟩) ⟨.object ⟨3, 0⟩, [.index 1], ⟨7, 0⟩⟩ := by
  have ran : overlapping.renumber (.ref ⟨2, 1⟩) .empty false =
      (.ok (overlapping.objects.renames, .ref ⟨2, 0⟩),
        (overlapping.renumber (.ref ⟨2, 1⟩) .empty false).2) := rfl
  have rootKeyed : (Value.ref ⟨2, 1⟩).Keyed := trivial
  have follows := renumberFollows overlappingKeyed rootKeyed ran
  exact ⟨(follows ⟨.object ⟨3, 0⟩, [.index 0], ⟨2, 1⟩⟩ ⟨_, rfl, rfl⟩).mpr (.inl (by decide)),
    (follows ⟨.object ⟨3, 0⟩, [.index 1], ⟨7, 0⟩⟩ ⟨_, rfl, rfl⟩).mpr (.inr (by decide))⟩

def capturing : Store :=
  (((make .storing .standard).push ⟨2, 0⟩ .null).2.push ⟨3, 0⟩ (.arr [.ref ⟨1, 0⟩])).2

theorem capturingKeyed : capturing.Keyed := by
  refine pushKeyed (pushKeyed (makeKeyed .storing .standard) ?_) ?_ <;> simp [Value.Keyed, Value.KeyedItems]

theorem danglingCaptured :
    ¬ ∀ (s after : Store) (root root' : Value) (renames : Renaming), s.Keyed → root.Keyed →
      s.renumber root .empty false = (.ok (renames, root'), after) →
        ∀ place, s.Refers root place → s.Follows after root' place := by
  intro always
  have rootKeyed : (Value.ref ⟨3, 0⟩).Keyed := trivial
  obtain ⟨result, renumbered⟩ := renumberedPlain .empty (by decide) capturingKeyed rootKeyed
  have refers : capturing.Refers (.ref ⟨3, 0⟩) ⟨.object ⟨3, 0⟩, [.index 0], ⟨1, 0⟩⟩ :=
    ⟨_, rfl, rfl⟩
  have follows := always capturing _ _ _ _ capturingKeyed rootKeyed (Prod.ext result rfl) _ refers
  rcases (followsIff renumbered refers).mp follows with stored | outside
  · exact absurd stored (by decide)
  · rw [renumbered.ids] at outside
    exact outside (by decide)

end Store
end PdfBody
