import PdfBody.Filter.Zlib
import PdfBody.Proofs.Store.Rename

/-! Renumbering as one substitution. The ids are permuted in place and the patches are made under the
new ids, so an old id may equal another object's new one; each object is patched at its own noted
places all the same. -/
namespace PdfBody

theorem Ordered.ext {α : Type} {key : α → Nat} {a b : Ordered α key} (same : a.items = b.items) :
    a = b := by
  cases a
  cases b
  cases same
  rfl

theorem IdSet.nodup (ids : IdSet) : ids.items.Nodup := by
  refine ids.ascending.imp fun less same => ?_
  rw [same] at less
  exact Nat.lt_irrefl _ less

theorem denseIdNumber {place : Nat} (small : place < UInt32.size) :
    (denseId place).number.toNat = place := UInt32.toNat_ofNat_of_lt' small

theorem denseIdInjective {m n : Nat} (first : m < UInt32.size) (second : n < UInt32.size)
    (same : denseId m = denseId n) : m = n := by
  rw [← denseIdNumber first, same, denseIdNumber second]

theorem denseIdOther {m n : Nat} (first : m < UInt32.size) (second : n < UInt32.size)
    (other : m ≠ n) : denseId m ≠ denseId n := fun same =>
  other (denseIdInjective first second same)

theorem numbersSuffice {count : Nat} : count ≤ numberLimit ↔ count < UInt32.size := by
  unfold numberLimit UInt32.size
  omega

def Renaming.apply (renames : Renaming) (id : ObjId) : ObjId := (renames.lookup id).getD id

namespace Object

def rename (f : ObjId → ObjId) (o : Object) : Object :=
  ⟨f o.id, o.value.rename f, o.stream,
    o.dirty || o.id != f o.id || o.value.refs.any fun target => f target != target⟩

def patch (f : ObjId → ObjId) (o : Object) (found : Path × ObjId) : Object :=
  if f found.2 = found.2 then o
  else ⟨o.id, o.value.redirect found.1 (f found.2), o.stream, true⟩

theorem patchId (f : ObjId → ObjId) (o : Object) (found : Path × ObjId) :
    (patch f o found).id = o.id := by
  unfold patch
  split <;> rfl

theorem patchPlaces (f : ObjId → ObjId) (places : List (Path × ObjId)) (o : Object) :
    places.foldl (patch f) o =
      ⟨o.id, places.foldl (Value.patch f) o.value, o.stream,
        o.dirty || places.any fun found => f found.2 != found.2⟩ := by
  induction places generalizing o with
  | nil => simp
  | cons found places ih =>
    by_cases same : f found.2 = found.2
    · have object : patch f o found = o := if_pos same
      have value : Value.patch f o.value found = o.value := if_pos same
      rw [List.foldl_cons, List.foldl_cons, object, value, ih]
      simp [same]
    · have object : patch f o found =
          ⟨o.id, o.value.redirect found.1 (f found.2), o.stream, true⟩ := if_neg same
      have value : Value.patch f o.value found = o.value.redirect found.1 (f found.2) :=
        if_neg same
      rw [List.foldl_cons, List.foldl_cons, object, value, ih]
      simp [same]

theorem patchRenames {f : ObjId → ObjId} {o : Object} (keyed : o.value.Keyed) {id : ObjId}
    (moved : f o.id = id) :
    o.value.refPlaces.foldl (patch f) ⟨id, o.value, o.stream, o.dirty || o.id != id⟩ =
      o.rename f := by
  rw [patchPlaces, Value.patchValue f o.value keyed, rename, ← Value.targetsRefs, List.any_map, moved]
  rfl

end Object

namespace Table

theorem alterNothing (id : ObjId) (table : Table) : (table.alter id fun o => o) = table := by
  refine Ordered.ext ?_
  simp only [alter, Ordered.update, ite_self, List.map_id']

theorem alterTwice {first second : Object → Object} (keeps : ∀ o, (first o).id = o.id) (id : ObjId)
    (table : Table) :
    (table.alter id first).alter id second = table.alter id fun o => second (first o) := by
  refine Ordered.ext ?_
  simp only [alter, Ordered.update, List.map_map]
  refine List.map_congr_left fun o _ => ?_
  by_cases here : o.id = id
  · have again : (⟨o.id, (first o).value, (first o).stream, (first o).dirty⟩ : Object) = first o := by
      rw [← keeps o]
    subst here
    simp only [Function.comp_apply, if_true, again]
    rw [if_pos (keeps o), keeps o]
  · simp only [Function.comp_apply, if_neg here]

theorem alterOthers {id : ObjId} (change : Object → Object) {objects : List Object}
    (others : ∀ o ∈ objects, o.id ≠ id) :
    objects.map (fun o => if o.id = id then
      (⟨o.id, (change o).value, (change o).stream, (change o).dirty⟩ : Object) else o) = objects := by
  rw [List.map_congr_left fun o found => if_neg (others o found), List.map_id']

theorem alterAt {id : ObjId} {change : Object → Object} {table : Table} {done rest : List Object}
    {o : Object} (items : table.items = done ++ o :: rest) (before : ∀ x ∈ done, x.id ≠ id)
    (here : o.id = id) (behind : ∀ x ∈ rest, x.id ≠ id) (keeps : (change o).id = id) :
    (table.alter id change).items = done ++ change o :: rest := by
  have itself : (⟨o.id, (change o).value, (change o).stream, (change o).dirty⟩ : Object) =
      change o := by
    rw [here, ← keeps]
  simp only [alter, Ordered.update, items, List.map_append, List.map_cons]
  rw [alterOthers change before, alterOthers change behind, if_pos here, itself]

end Table

namespace Location

variable {renames : Renaming} {state : Value × Table} {place : Location}

theorem patchSame (same : renames.apply place.target = place.target) :
    patch renames state place = state := by
  unfold patch
  cases moved : renames.lookup place.target with
  | none => rfl
  | some target =>
    rw [Renaming.apply, moved] at same
    exact if_pos same

theorem patchMoved (other : renames.apply place.target ≠ place.target) :
    patch renames state place =
      match place.holder with
      | .root => (state.1.redirect place.path (renames.apply place.target), state.2)
      | .object old =>
        match renames.lookup old with
        | none => state
        | some id => (state.1, state.2.alter id fun o =>
            ⟨o.id, o.value.redirect place.path (renames.apply place.target), o.stream, true⟩) := by
  unfold patch
  cases moved : renames.lookup place.target with
  | none =>
    rw [Renaming.apply, moved] at other
    exact absurd rfl other
  | some target =>
    have applied : renames.apply place.target = target := by rw [Renaming.apply, moved]; rfl
    rw [applied] at other ⊢
    exact if_neg other

theorem patchRoot (renames : Renaming) (places : List (Path × ObjId)) (root : Value)
    (table : Table) :
    (places.map fun found => ⟨.root, found.1, found.2⟩).foldl (patch renames) (root, table) =
      (places.foldl (Value.patch renames.apply) root, table) := by
  induction places generalizing root with
  | nil => rfl
  | cons found places ih =>
    have once : patch renames (root, table) ⟨.root, found.1, found.2⟩ =
        (Value.patch renames.apply root found, table) := by
      unfold Value.patch
      split
      · next same => exact patchSame same
      · next other => exact patchMoved other
    rw [List.map_cons, List.foldl_cons, once, ih, List.foldl_cons]

theorem patchHolder {old new : ObjId} (moved : renames.lookup old = some new)
    (places : List (Path × ObjId)) (root : Value) (table : Table) :
    (places.map fun found => ⟨.object old, found.1, found.2⟩).foldl (patch renames) (root, table) =
      (root, table.alter new fun o => places.foldl (Object.patch renames.apply) o) := by
  induction places generalizing table with
  | nil => exact congrArg (Prod.mk root) (Table.alterNothing new table).symm
  | cons found places ih =>
    have once : patch renames (root, table) ⟨.object old, found.1, found.2⟩ =
        (root, table.alter new fun o => Object.patch renames.apply o found) := by
      by_cases same : renames.apply found.2 = found.2
      · have kept : (fun o => Object.patch renames.apply o found) = fun o => o :=
          funext fun o => if_pos same
        rw [kept, Table.alterNothing]
        exact patchSame same
      · have changed : (fun o => Object.patch renames.apply o found) = fun o =>
            ⟨o.id, o.value.redirect found.1 (renames.apply found.2), o.stream, true⟩ :=
          funext fun o => if_neg same
        rw [changed, patchMoved same]
        simp only [moved]
    rw [List.map_cons, List.foldl_cons, once, ih,
      Table.alterTwice fun o => Object.patchId renames.apply o found]
    rfl

end Location

namespace Table

theorem idsAscending (table : Table) : table.ids.Pairwise fun a b => a.rank < b.rank :=
  List.pairwise_map.mpr table.ascending

theorem idsNodup (table : Table) : table.ids.Nodup := IdSet.nodup ⟨table.ids, table.idsAscending⟩

theorem idAt {table : Table} {k : Nat} {o : Object} (found : table.items[k]? = some o) :
    table.ids[k]? = some o.id := by
  unfold ids
  rw [List.getElem?_map, found]
  rfl

theorem lookupDense {ids : List ObjId} (once : ids.Nodup) (place : Nat) {k : Nat} {id : ObjId}
    (found : ids[k]? = some id) :
    (ids.zip ((List.range' place ids.length).map denseId)).lookup id =
      some (denseId (place + k)) := by
  induction ids generalizing place k with
  | nil => simp at found
  | cons first ids ih =>
    obtain ⟨new, once⟩ := List.nodup_cons.mp once
    rw [List.length_cons, List.range'_succ, List.map_cons, List.zip_cons_cons]
    cases k with
    | zero =>
      cases found
      exact List.lookup_cons_self
    | succ k =>
      rw [List.getElem?_cons_succ] at found
      have other : id ≠ first := by
        rintro rfl
        exact new (List.mem_of_getElem? found)
      rw [List.lookup_cons, beq_false_of_ne other, ih once (place + 1) found, Nat.add_right_comm,
        Nat.add_assoc]

theorem lookupRenames {table : Table} {k : Nat} {id : ObjId} (found : table.ids[k]? = some id) :
    table.renames.lookup id = some (denseId (k + 1)) := by
  unfold renames
  rw [lookupDense table.idsNodup 1 found, Nat.add_comm]

theorem lookupOutside {table : Table} {id : ObjId} (outside : id ∉ table.ids) :
    table.renames.lookup id = none := by
  refine List.lookup_eq_none_iff.mpr fun moved found => ?_
  simp only [bne_iff_ne]
  rintro rfl
  exact outside (List.of_mem_zip found).1

theorem renumberedItems {table : Table} (few : table.items.length ≤ numberLimit) :
    table.renumbered.items = dense 1 table.items :=
  congrArg (dense 1) (List.take_of_length_le few)

/-- The objects that were patched stand in front, those to be patched still as the new ids left
them. No old id plays a part any more, so each block of places acts on its own holder alone. -/
theorem patchDense {renames : Renaming} (root : Value) {place : Nat} {objects done : List Object}
    (few : place + objects.length ≤ UInt32.size) {table : Table}
    (items : table.items = done ++ dense place objects)
    (earlier : ∀ o ∈ done, ∃ q, q < place ∧ o.id = denseId q)
    (moved : ∀ k o, objects[k]? = some o → renames.lookup o.id = some (denseId (place + k)))
    (keyed : ∀ o ∈ objects, o.value.Keyed) :
    ∃ table', (objects.flatMap fun o => Location.inside (.object o.id) o.value).foldl
        (Location.patch renames) (root, table) = (root, table') ∧
      table'.items = done ++ objects.map (Object.rename renames.apply) := by
  induction objects generalizing place done table with
  | nil => exact ⟨table, rfl, items⟩
  | cons o objects ih =>
    rw [List.length_cons] at few
    have here : renames.lookup o.id = some (denseId place) := moved 0 o rfl
    have applied : renames.apply o.id = denseId place := by rw [Renaming.apply, here]; rfl
    have before : ∀ x ∈ done, x.id ≠ denseId place := by
      intro x found
      obtain ⟨q, less, is⟩ := earlier x found
      rw [is]
      exact denseIdOther (by omega) (by omega) (by omega)
    have behind : ∀ x ∈ dense (place + 1) objects, x.id ≠ denseId place := by
      intro x found
      obtain ⟨q, low, high, is⟩ := memDense found
      rw [is]
      exact denseIdOther (by omega) (by omega) (by omega)
    have patched := Object.patchRenames (keyed o (by simp)) applied
    have renamed : (o.rename renames.apply).id = denseId place := applied
    have next : (table.alter (denseId place) fun x =>
        o.value.refPlaces.foldl (Object.patch renames.apply) x).items =
          (done ++ [o.rename renames.apply]) ++ dense (place + 1) objects := by
      rw [alterAt items before rfl behind (by rw [patched, renamed]), patched, List.append_cons]
    have inFront : ∀ x ∈ done ++ [o.rename renames.apply], ∃ q, q < place + 1 ∧ x.id = denseId q := by
      intro x found
      rcases List.mem_append.mp found with old | new
      · obtain ⟨q, less, is⟩ := earlier x old
        exact ⟨q, by omega, is⟩
      · exact ⟨place, by omega, by rw [List.mem_singleton.mp new, renamed]⟩
    have movedBehind : ∀ k x, objects[k]? = some x →
        renames.lookup x.id = some (denseId (place + 1 + k)) := by
      intro k x found
      rw [moved (k + 1) x (by simpa using found)]
      exact congrArg (some ∘ denseId) (by omega)
    obtain ⟨table', folded, shape⟩ :=
      ih (by omega) next inFront movedBehind fun x found => keyed x (by simp [found])
    refine ⟨table', ?_, by simpa using shape⟩
    rw [List.flatMap_cons, List.foldl_append, Location.inside, Location.patchHolder here, folded]

theorem findIff {table : Table} {id : ObjId} {o : Object} :
    table.find? id = some o ↔ o ∈ table.items ∧ o.id = id := by
  refine ⟨fun found => ⟨List.mem_of_find?_eq_some found, by simpa using List.find?_some found⟩, ?_⟩
  rintro ⟨member, rfl⟩
  obtain ⟨items, ascending⟩ := table
  simp only [find?, Ordered.find?]
  induction items with
  | nil => simp at member
  | cons first items ih =>
    rcases List.mem_cons.mp member with rfl | later
    · simp
    · have less := List.rel_of_pairwise_cons ascending later
      have other : (first.id == o.id) = false := by
        refine beq_false_of_ne fun same => ?_
        rw [same] at less
        exact Nat.lt_irrefl _ less
      rw [List.find?_cons, other]
      exact ih ascending.of_cons later

theorem findNone {table : Table} {id : ObjId} : table.find? id = none ↔ id ∉ table.ids := by
  simp [find?, Ordered.find?, ids]

theorem renamedIds (table : Table) :
    table.ids.map table.renames.apply = (List.range' 1 table.ids.length).map denseId := by
  refine List.ext_getElem? fun k => ?_
  rw [List.getElem?_map, List.getElem?_map]
  cases found : table.ids[k]? with
  | none =>
    have short : table.ids.length ≤ k := List.getElem?_eq_none_iff.mp found
    rw [List.getElem?_eq_none (by simpa using short)]
    rfl
  | some id =>
    have inside : k < table.ids.length := (List.getElem?_eq_some_iff.mp found).1
    rw [List.getElem?_range' inside, Option.map_some, Option.map_some, Renaming.apply,
      lookupRenames found, Option.getD_some]
    exact congrArg (some ∘ denseId) (by omega)

end Table

namespace Store

def Keyed (s : Store) : Prop := ∀ o ∈ s.objects.items, o.value.Keyed

theorem makeKeyed (zlib : Zlib) (options : Options) : (make zlib options).Keyed := by
  intro o found
  cases found

theorem pushKeyed {s : Store} (keyed : s.Keyed) {value : Value} (proper : value.Keyed) {id : ObjId} :
    (s.push id value).2.Keyed := by
  intro o found
  unfold push at found
  split at found
  · exact keyed o found
  · rcases Ordered.memPlace found with rfl | old
    · exact proper
    · exact keyed o old

def newId (s : Store) : ObjId → ObjId := s.objects.renames.apply

theorem renumberRuns {s : Store} {root : Value} (kept : IdSet)
    (few : s.objects.items.length ≤ numberLimit) (keyed : s.Keyed) (rootKeyed : root.Keyed) :
    ∃ objects : Table, objects.items = s.objects.items.map (Object.rename s.newId) ∧
      s.renumber root kept false = (.ok (s.objects.renames, root.rename s.newId),
        (s.withObjects objects).withNumbering
          (s.numbering.reset (UInt32.ofNat s.objects.items.length))) := by
  have all : s.objects.renumbered.items = [] ++ Table.dense 1 s.objects.items :=
    Table.renumberedItems few
  have room : s.objects.items.length < UInt32.size := numbersSuffice.mp few
  have moved : ∀ k o, s.objects.items[k]? = some o →
      s.objects.renames.lookup o.id = some (denseId (1 + k)) := by
    intro k o found
    rw [Table.lookupRenames (Table.idAt found), Nat.add_comm]
  obtain ⟨objects, folded, shape⟩ := Table.patchDense (root.rename s.newId) (by omega) all
    (by simp) moved keyed
  rw [List.nil_append] at shape
  have patched : (s.locations root).foldl (Location.patch s.objects.renames)
      (root, s.objects.renumbered) = (root.rename s.newId, objects) := by
    rw [locations, List.foldl_append, Location.inside, Location.patchRoot,
      Value.patchValue _ root rootKeyed]
    exact folded
  refine ⟨objects, shape, ?_⟩
  unfold renumber
  simp only [Bool.false_eq_true, if_false, patched]
  rw [if_neg (Nat.not_lt.mpr few), shape, List.length_map]

structure Renumbered (before after : Store) : Prop where
  ordered : before.ids.Pairwise fun a b => a.rank < b.rank
  numbers : ∀ k, k ≤ before.ids.length → (denseId k).number.toNat = k
  moved : ∀ k id, before.ids[k]? = some id → before.newId id = denseId (k + 1)
  others : ∀ id, id ∉ before.ids → before.newId id = id
  ids : after.ids = (List.range' 1 before.ids.length).map denseId
  objects : ∀ k o, before.objects.items[k]? = some o →
    after.find? (denseId (k + 1)) = some (o.rename before.newId)
  count : after.numbering.count.toNat = before.ids.length
  pool : after.freeIds = []
  retired : after.numbering.retired.items = []

theorem renumberedPlain {s : Store} {root : Value} (kept : IdSet) (few : s.ids.length < UInt32.size)
    (keyed : s.Keyed) (rootKeyed : root.Keyed) :
    (s.renumber root kept false).1 =
        .ok (s.ids.zip ((List.range' 1 s.ids.length).map denseId), root.rename s.newId) ∧
      Renumbered s (s.renumber root kept false).2 := by
  have length : s.ids.length = s.objects.items.length := List.length_map _
  have within : s.objects.items.length ≤ numberLimit := numbersSuffice.mpr (length ▸ few)
  obtain ⟨objects, shape, ran⟩ := renumberRuns kept within keyed rootKeyed
  have moved : ∀ k id, s.ids[k]? = some id → s.newId id = denseId (k + 1) := by
    intro k id found
    unfold newId Renaming.apply
    rw [Table.lookupRenames found]
    rfl
  rw [ran]
  refine ⟨rfl, s.objects.idsAscending, fun k inside => denseIdNumber (by omega), moved, ?_, ?_, ?_,
    ?_, rfl, rfl⟩
  · intro id outside
    unfold newId Renaming.apply
    rw [Table.lookupOutside outside]
    rfl
  · calc objects.items.map Object.id
        = s.ids.map s.newId := by rw [shape, ids, Table.ids, List.map_map, List.map_map]; rfl
      _ = (List.range' 1 s.ids.length).map denseId := s.objects.renamedIds
  · intro k o found
    refine Table.findIff.mpr ⟨?_, moved k o.id (Table.idAt found)⟩
    have member : o.rename s.newId ∈ s.objects.items.map (Object.rename s.newId) :=
      List.mem_map_of_mem (List.mem_of_getElem? found)
    rwa [← shape] at member
  · rw [length]
    exact denseIdNumber (by omega)

theorem renumberSubstitutes (s : Store) (root : Value) (kept : IdSet) (collectFirst : Bool)
    (few : s.ids.length < UInt32.size) (keyed : s.Keyed) (rootKeyed : root.Keyed) :
    let before := if collectFirst then (s.collect root kept).2 else s
    (s.renumber root kept collectFirst).1 =
        .ok (before.ids.zip ((List.range' 1 before.ids.length).map denseId),
          root.rename before.newId) ∧
      Renumbered before (s.renumber root kept collectFirst).2 := by
  cases collectFirst with
  | false => exact renumberedPlain kept few keyed rootKeyed
  | true =>
    have fewer : (s.collect root kept).2.ids.length < UInt32.size := by
      have := List.length_filter_le (fun o => IdSet.contains o.id (s.objects.reachWith root kept))
        s.objects.items
      simp only [ids, Table.ids, List.length_map] at few ⊢
      exact Nat.lt_of_le_of_lt this few
    have kept' : (s.collect root kept).2.Keyed := fun o found =>
      keyed o (List.mem_filter.mp found).1
    exact renumberedPlain kept fewer kept' rootKeyed

def overlapping : Store :=
  let s := make .storing .standard
  let s := (s.push ⟨3, 0⟩ (.arr [.ref ⟨2, 1⟩, .ref ⟨7, 0⟩])).2
  let s := (s.push ⟨2, 1⟩ (.dict [("Kids", .arr [.ref ⟨2, 0⟩, .ref ⟨3, 0⟩])])).2
  (s.push ⟨2, 0⟩ (.ref ⟨2, 0⟩)).2

theorem overlappingKeyed : overlapping.Keyed := by
  refine pushKeyed (pushKeyed (pushKeyed (makeKeyed .storing .standard) ?_) ?_) ?_ <;>
    simp [Value.Keyed, Value.KeyedItems, Value.KeyedEntries]

theorem overlappingRenumbered :
    (overlapping.renumber (.ref ⟨2, 1⟩) .empty false).1 =
        .ok ([(⟨2, 0⟩, ⟨1, 0⟩), (⟨2, 1⟩, ⟨2, 0⟩), (⟨3, 0⟩, ⟨3, 0⟩)], .ref ⟨2, 0⟩) ∧
      Renumbered overlapping (overlapping.renumber (.ref ⟨2, 1⟩) .empty false).2 :=
  renumberSubstitutes overlapping (.ref ⟨2, 1⟩) .empty false (by decide) overlappingKeyed trivial

end Store
end PdfBody
