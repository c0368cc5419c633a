import PdfBody.Proofs.Value.Entries
import PdfBody.Proofs.Store.Handles
import PdfBody.Proofs.Store.Locations

/-! While a renumbering patches the places that it has noted, each of them still holds its reference when
its turn comes: no place lies inside another, and no two objects have got one id. Setting a reference there
cannot fail, so that nothing is lost where a failure is not passed on. -/
namespace PdfBody

namespace Value

variable {v w new : Value} {step other : Step} {p q : Path} {a b : ObjId}

theorem childReplaced (part : child? step v = some w) :
    child? step (replaceAt new (step :: p) v) = some (replaceAt new p w) := by
  cases step with
  | index place =>
    cases v with
    | arr items =>
      have found : items[place]? = some w := part
      have inside : place < items.length := (List.getElem?_eq_some_iff.mp found).1
      rw [replaceAt, found]
      exact List.getElem?_set_self inside
    | _ => cases part
  | key key =>
    cases v with
    | dict entries =>
      have found : entries.lookup key = some w := part
      rw [replaceAt, found]
      exact Entries.lookupPut
    | _ => cases part

theorem childKept (part : child? step v = some w) (different : step ≠ other) :
    child? other (replaceAt new (step :: p) v) = child? other v := by
  cases step with
  | index place =>
    cases v with
    | arr items =>
      have found : items[place]? = some w := part
      rw [replaceAt, found]
      cases other with
      | index place' => exact List.getElem?_set_ne fun same => different (congrArg _ same)
      | key key => rfl
    | _ => cases part
  | key key =>
    cases v with
    | dict entries =>
      have found : entries.lookup key = some w := part
      rw [replaceAt, found]
      cases other with
      | index place => rfl
      | key key' => exact Entries.lookupPutOther fun same => different (congrArg _ same.symm)
    | _ => cases part

theorem replaceOther (first : v.at? p = some (.ref a)) (second : v.at? q = some (.ref b))
    (apart : p ≠ q) : (replaceAt new p v).at? q = some (.ref b) := by
  -- along the two paths up to where they part; neither ends there, as nothing stands in a reference
  induction p generalizing v q with
  | nil =>
    cases first
    cases q with
    | nil => exact absurd rfl apart
    | cons step q => cases step <;> cases second
  | cons step p ih =>
    obtain ⟨w, part, inside⟩ := Option.bind_eq_some_iff.mp first
    cases q with
    | nil =>
      cases second
      cases step <;> cases part
    | cons other q =>
      obtain ⟨w', part', inside'⟩ := Option.bind_eq_some_iff.mp second
      by_cases same : step = other
      · subst same
        cases part.symm.trans part'
        have further := ih inside inside' fun ends => apart (congrArg _ ends)
        rw [at?, childReplaced part]
        exact further
      · rw [at?, childKept part same]
        exact second

theorem redirectOther {target : ObjId} (first : v.at? p = some (.ref a))
    (second : v.at? q = some (.ref b)) (apart : p ≠ q) :
    (v.redirect p target).at? q = some (.ref b) := by
  rw [redirect, first]
  exact replaceOther first second apart

end Value

namespace Location

variable {renames : Renaming} {state : Value × Table} {place : Location}

def heldNow (renames : Renaming) (state : Value × Table) : Holder → Option Value
  | .root => some state.1
  | .object old => (renames.lookup old).bind fun id => (state.2.find? id).map Object.value

def Stands (renames : Renaming) (state : Value × Table) (place : Location) : Prop :=
  ∃ v, heldNow renames state place.holder = some v ∧ v.at? place.path = some (.ref place.target)

def Distinct (renames : Renaming) : Prop :=
  ∀ first second id, renames.lookup first = some id → renames.lookup second = some id → first = second

theorem heldStored {old : ObjId} {v : Value} (held : heldNow renames state (.object old) = some v) :
    ∃ id o, renames.lookup old = some id ∧ state.2.find? id = some o ∧ o.value = v := by
  obtain ⟨id, moved, inside⟩ := Option.bind_eq_some_iff.mp held
  obtain ⟨o, stored, same⟩ := Option.map_eq_some_iff.mp inside
  exact ⟨id, o, moved, stored, same⟩

theorem heldAltered {root : Value} {table : Table} {old id id' : ObjId} {o : Object}
    (change : Object → Object) (moved : renames.lookup old = some id) (stored : table.find? id = some o) :
    heldNow renames (root, table.alter id' change) (.object old) =
      some (if id = id' then change o else o).value := by
  have named := (Table.findIff.mp stored).2
  simp only [heldNow, moved, Option.bind_some, Table.findAlter, stored, Option.map_some, named]
  split <;> rfl

theorem patchStands (distinct : Distinct renames) {patched : Location}
    (apart : patched.spot ≠ place.spot) (here : Stands renames state patched)
    (there : Stands renames state place) : Stands renames (patch renames state patched) place := by
  by_cases same : renames.apply patched.target = patched.target
  · rwa [patchSame same]
  · rw [patchMoved same]
    obtain ⟨holder, path, target⟩ := patched
    obtain ⟨holder', path', target'⟩ := place
    obtain ⟨v, held, stands⟩ := here
    obtain ⟨v', held', stands'⟩ := there
    cases holder with
    | root =>
      cases holder' with
      | root =>
        cases held
        cases held'
        have other : path ≠ path' := fun same => apart (congrArg (Prod.mk _) same)
        exact ⟨_, rfl, Value.redirectOther stands stands' other⟩
      | object old => exact ⟨v', held', stands'⟩
    | object old =>
      obtain ⟨id, o, moved, stored, rfl⟩ := heldStored held
      simp only [moved]
      cases holder' with
      | root => exact ⟨v', held', stands'⟩
      | object old' =>
        obtain ⟨id', o', moved', stored', rfl⟩ := heldStored held'
        refine ⟨_, heldAltered _ moved' stored', ?_⟩
        by_cases one : id' = id
        · subst one
          obtain rfl := distinct old old' id' moved moved'
          cases stored.symm.trans stored'
          have other : path ≠ path' := fun same => apart (congrArg (Prod.mk _) same)
          rw [if_pos rfl]
          exact Value.redirectOther stands stands' other
        · rw [if_neg one]
          exact stands'

theorem patchesStand (distinct : Distinct renames) {earlier later : List Location}
    (stand : ∀ place ∈ earlier ++ later, Stands renames state place)
    (once : ((earlier ++ later).map spot).Nodup) :
    ∀ place ∈ later, Stands renames (earlier.foldl (patch renames) state) place := by
  induction earlier generalizing state with
  | nil => exact stand
  | cons patched earlier ih =>
    rw [List.cons_append, List.map_cons] at once
    obtain ⟨new, once⟩ := List.nodup_cons.mp once
    refine ih (fun place noted => ?_) once
    refine patchStands distinct (fun same => new ?_) (stand _ List.mem_cons_self)
      (stand place (List.mem_cons_of_mem _ noted))
    rw [same]
    exact List.mem_map_of_mem noted

end Location

namespace Table

theorem denseAt (place : Nat) {k : Nat} {objects : List Object} {o : Object} (found : objects[k]? = some o) :
    ∃ o', (dense place objects)[k]? = some o' ∧ o'.id = denseId (place + k) ∧ o'.value = o.value := by
  induction objects generalizing place k with
  | nil => cases found
  | cons first objects ih =>
    cases k with
    | zero =>
      cases found
      exact ⟨_, rfl, rfl, rfl⟩
    | succ k =>
      obtain ⟨o', stands, id, value⟩ := ih (place + 1) found
      exact ⟨o', stands, id.trans (congrArg denseId (by omega)), value⟩

theorem renamedAt {table : Table} {old id : ObjId} (moved : table.renames.lookup old = some id) :
    ∃ k, table.ids[k]? = some old ∧ id = denseId (k + 1) := by
  have stored : old ∈ table.ids := Classical.byContradiction fun outside => by
    rw [lookupOutside outside] at moved
    cases moved
  obtain ⟨k, found⟩ := List.mem_iff_getElem?.mp stored
  exact ⟨k, found, Option.some.inj (moved.symm.trans (lookupRenames found))⟩

theorem renamesDistinct {table : Table} (few : table.ids.length < UInt32.size) :
    Location.Distinct table.renames := by
  intro first second id moved moved'
  obtain ⟨k, found, here⟩ := renamedAt moved
  obtain ⟨k', found', there⟩ := renamedAt moved'
  have inside := (List.getElem?_eq_some_iff.mp found).1
  have inside' := (List.getElem?_eq_some_iff.mp found').1
  have same := denseIdInjective (by omega) (by omega) (here.symm.trans there)
  obtain rfl : k = k' := Nat.succ.inj same
  exact Option.some.inj (found.symm.trans found')

end Table

namespace Store

variable {s : Store} {root : Value}

theorem refersStands (few : s.ids.length < UInt32.size) {place : Location}
    (refers : s.Refers root place) :
    Location.Stands s.objects.renames (root, s.objects.renumbered) place := by
  obtain ⟨v, held, stands⟩ := refers
  refine ⟨v, ?_, stands⟩
  generalize place.holder = holder at held ⊢
  cases holder with
  | root => exact held
  | object id =>
    obtain ⟨o, stored, rfl⟩ := Option.map_eq_some_iff.mp held
    obtain ⟨among, rfl⟩ := Table.findIff.mp stored
    obtain ⟨k, found⟩ := List.mem_iff_getElem?.mp among
    rw [ids, Table.ids, List.length_map] at few
    obtain ⟨o', stands, id, value⟩ := Table.denseAt 1 found
    rw [← Table.renumberedItems (numbersSuffice.mpr few)] at stands
    have renamed : s.objects.renumbered.find? (denseId (k + 1)) = some o' :=
      Table.findIff.mpr ⟨List.mem_of_getElem? stands, id.trans (congrArg denseId (Nat.add_comm 1 k))⟩
    simp only [Location.heldNow, Table.lookupRenames (Table.idAt found), Option.bind_some, renamed,
      Option.map_some, value]

theorem notedStands (few : s.ids.length < UInt32.size) (keyed : s.Keyed) (rootKeyed : root.Keyed)
    {earlier later : List Location} {place : Location}
    (noted : s.locations root = earlier ++ place :: later) :
    Location.Stands s.objects.renames
      (earlier.foldl (Location.patch s.objects.renames) (root, s.objects.renumbered)) place := by
  obtain ⟨-, exactly, -, -, once⟩ := locationsExact keyed rootKeyed
  rw [noted] at once
  refine Location.patchesStand (Table.renamesDistinct few) (fun other among => ?_) once place
    List.mem_cons_self
  rw [← noted] at among
  exact refersStands few ((exactly other).mp among)

end Store
end PdfBody
