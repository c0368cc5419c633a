import PdfBody.Proofs.Value.Parts
import PdfBody.Proofs.Store.Meaning

/-! The listing of all references. It has every place at which a reference stands, once, and goes through
each value from left to right; the same listing comes of a search with a stack. -/
namespace PdfBody

namespace Value

inductive LeftOf : Value → Path → Path → Prop where
  | apart {v : Value} {a b : Step} (earlier : [a, b].Sublist (v.parts.map Prod.fst)) (p q : Path) :
      LeftOf v (a :: p) (b :: q)
  | inside {v w : Value} {step : Step} {p q : Path} (part : (step, w) ∈ v.parts)
      (left : LeftOf w p q) : LeftOf v (step :: p) (step :: q)

theorem earlierOnce {α : Type} {l : List α} {a b : α} (once : l.Nodup) (earlier : [a, b].Sublist l) :
    ¬ [b, a].Sublist l := by
  induction l with
  | nil => cases earlier
  | cons x l ih =>
    obtain ⟨new, once⟩ := List.nodup_cons.mp once
    intro back
    cases earlier with
    | cons x earlier =>
      cases back with
      | cons x back => exact ih once earlier back
      | cons_cons x back => exact new (earlier.subset (List.mem_cons_of_mem _ List.mem_cons_self))
    | cons_cons x behind =>
      cases back with
      | cons x back => exact new (back.subset (List.mem_cons_of_mem _ List.mem_cons_self))
      | cons_cons x back => exact new (back.subset List.mem_cons_self)

theorem leftAsymm {v : Value} {p q : Path} (keyed : v.Keyed) (left : v.LeftOf p q) :
    ¬ v.LeftOf q p := by
  induction left with
  | apart earlier p q =>
    intro back
    have once := stepsNodup keyed
    cases back with
    | apart later => exact earlierOnce once earlier later
    | inside part left => exact earlierOnce once earlier earlier
  | inside part left ih =>
    intro back
    cases back with
    | apart earlier => exact earlierOnce (stepsNodup keyed) earlier earlier
    | inside part' back =>
      have same := ((childPart keyed).mpr part).symm.trans ((childPart keyed).mpr part')
      cases same
      exact ih (partKeyed keyed part) back

theorem placesOrdered (v : Value) : v.refPlaces.Pairwise fun a b => v.LeftOf a.1 b.1 := by
  induction v using throughParts with
  | whole v ih =>
    rcases referenceOr v with ⟨id, rfl⟩ | container
    · exact List.pairwise_singleton _ _
    · rw [placesParts container, List.pairwise_flatMap]
      constructor
      · intro part among
        exact List.pairwise_map.mpr ((ih part among).imp fun left => .inside among left)
      · refine List.pairwise_iff_forall_sublist.mpr fun {a b} earlier x fromA y fromB => ?_
        obtain ⟨x, -, rfl⟩ := List.mem_map.mp fromA
        obtain ⟨y, -, rfl⟩ := List.mem_map.mp fromB
        exact .apart (earlier.map Prod.fst) x.1 y.1

theorem memPlaces {v : Value} (keyed : v.Keyed) (path : Path) (target : ObjId) :
    (path, target) ∈ v.refPlaces ↔ v.at? path = some (.ref target) := by
  induction path generalizing v with
  | nil =>
    rw [at?, Option.some_inj]
    rcases referenceOr v with ⟨id, rfl⟩ | container
    · simp [refPlaces, eq_comm]
    · refine iff_of_false (fun found => ?_) (container target)
      rw [placesParts container] at found
      obtain ⟨part, -, inside⟩ := List.mem_flatMap.mp found
      obtain ⟨place, -, same⟩ := List.mem_map.mp inside
      cases same
  | cons step path ih =>
    rcases referenceOr v with ⟨id, rfl⟩ | container
    · have nothing : child? step (ref id) = none := by cases step <;> rfl
      simp [refPlaces, at?, nothing]
    · rw [placesParts container, at?, Option.bind_eq_bind, Option.bind_eq_some_iff,
        List.mem_flatMap]
      constructor
      · rintro ⟨⟨first, w⟩, among, inside⟩
        obtain ⟨place, found, same⟩ := List.mem_map.mp inside
        cases same
        exact ⟨w, (childPart keyed).mpr among, (ih (partKeyed keyed among)).mp found⟩
      · rintro ⟨w, leads, stands⟩
        have among := (childPart keyed).mp leads
        exact ⟨(step, w), among,
          List.mem_map.mpr ⟨(path, target), (ih (partKeyed keyed among)).mpr stands, rfl⟩⟩

def gather (stack : List (Path × Value)) : List (Path × ObjId) :=
  match stack with
  | [] => []
  | (path, .ref target) :: stack => (path, target) :: gather stack
  | (path, v) :: stack => gather (v.parts.map (fun part => (path ++ [part.1], part.2)) ++ stack)
termination_by weight (stack.map Prod.snd)
decreasing_by
  · exact weightPopped (.ref target) (stack.map Prod.snd)
  · rw [List.map_append, List.map_map]
    exact weightParted (.refl _) (stack.map Prod.snd)

def behind (path : Path) (found : Path × ObjId) : Path × ObjId := (path ++ found.1, found.2)

theorem gatherStack (stack : List (Path × Value)) :
    gather stack = stack.flatMap fun place => place.2.refPlaces.map (behind place.1) := by
  fun_induction gather stack with
  | case1 => rfl
  | case2 path target stack ih => simp [ih, refPlaces, behind]
  | case3 path v stack container ih =>
    have deeper (part : Step × Value) :
        part.2.refPlaces.map (behind (path ++ [part.1])) =
          (part.2.refPlaces.map (within part.1)).map (behind path) := by
      simp [behind, within]
    simp only [ih, List.flatMap_append, List.flatMap_map, List.flatMap_cons, deeper,
      placesParts container, List.map_flatMap]

theorem gatherPlaces (v : Value) : gather [([], v)] = v.refPlaces := by
  have whole : behind [] = id := rfl
  rw [gatherStack, List.flatMap_singleton, whole, List.map_id]

end Value

def Location.spot (place : Location) : Holder × Path := (place.holder, place.path)

namespace Store

inductive Ahead (root : Value) (s : Store) : Holder × Path → Holder × Path → Prop where
  | root {p q : Path} {id : ObjId} : Ahead root s (.root, p) (.object id, q)
  | object {p q : Path} {first second : ObjId} (less : first.rank < second.rank) :
      Ahead root s (.object first, p) (.object second, q)
  | inside {holder : Holder} {v : Value} {p q : Path} (holds : s.held root holder = some v)
      (left : v.LeftOf p q) : Ahead root s (holder, p) (holder, q)

variable {root : Value} {s : Store}

theorem heldKeyed (keyed : s.Keyed) (rootKeyed : root.Keyed) {holder : Holder} {v : Value}
    (holds : s.held root holder = some v) : v.Keyed := by
  cases holder with
  | root =>
    cases holds
    exact rootKeyed
  | object id =>
    obtain ⟨o, stored, rfl⟩ := Option.map_eq_some_iff.mp holds
    exact keyed o (Table.findIff.mp stored).1

theorem heldObject {o : Object} (stored : o ∈ s.objects.items) :
    s.held root (.object o.id) = some o.value :=
  Option.map_eq_some_iff.mpr ⟨o, Table.findIff.mpr ⟨stored, rfl⟩, rfl⟩

theorem memInside {holder : Holder} {v : Value} {place : Location} :
    place ∈ Location.inside holder v ↔
      place.holder = holder ∧ (place.path, place.target) ∈ v.refPlaces := by
  simp only [Location.inside, List.mem_map, Prod.exists]
  constructor
  · rintro ⟨path, target, found, rfl⟩
    exact ⟨rfl, found⟩
  · rintro ⟨rfl, found⟩
    exact ⟨_, _, found, rfl⟩

theorem memLocations (keyed : s.Keyed) (rootKeyed : root.Keyed) (place : Location) :
    place ∈ s.locations root ↔ s.Refers root place := by
  have stands {v : Value} (holds : s.held root place.holder = some v) :=
    Value.memPlaces (heldKeyed keyed rootKeyed holds) place.path place.target
  rw [locations, List.mem_append, List.mem_flatMap]
  constructor
  · rintro (inRoot | ⟨o, stored, inObject⟩)
    · obtain ⟨held, found⟩ := memInside.mp inRoot
      have holds : s.held root place.holder = some root := by rw [held]; rfl
      exact ⟨root, holds, (stands holds).mp found⟩
    · obtain ⟨held, found⟩ := memInside.mp inObject
      have holds : s.held root place.holder = some o.value := by rw [held, heldObject stored]
      exact ⟨o.value, holds, (stands holds).mp found⟩
  · rintro ⟨v, holds, leads⟩
    have found := (stands holds).mpr leads
    cases held : place.holder with
    | root =>
      rw [held] at holds
      cases holds
      exact .inl (memInside.mpr ⟨held, found⟩)
    | object id =>
      rw [held] at holds
      obtain ⟨o, stored, rfl⟩ := Option.map_eq_some_iff.mp holds
      obtain ⟨member, rfl⟩ := Table.findIff.mp stored
      exact .inr ⟨o, member, memInside.mpr ⟨held, found⟩⟩

theorem insideOrdered {holder : Holder} {v : Value} (holds : s.held root holder = some v) :
    (Location.inside holder v).Pairwise fun a b => s.Ahead root a.spot b.spot :=
  List.pairwise_map.mpr (v.placesOrdered.imp fun left => .inside holds left)

theorem locationsOrdered (root : Value) (s : Store) :
    (s.locations root).Pairwise fun a b => s.Ahead root a.spot b.spot := by
  refine List.pairwise_append.mpr ⟨insideOrdered rfl, List.pairwise_flatMap.mpr ⟨?_, ?_⟩, ?_⟩
  · exact fun o stored => insideOrdered (heldObject stored)
  · refine s.objects.ascending.imp fun less a inFirst b inSecond => ?_
    obtain ⟨found, -, rfl⟩ := List.mem_map.mp inFirst
    obtain ⟨later, -, rfl⟩ := List.mem_map.mp inSecond
    exact .object less
  · intro a inRoot b inObjects
    obtain ⟨o, -, inObject⟩ := List.mem_flatMap.mp inObjects
    obtain ⟨found, -, rfl⟩ := List.mem_map.mp inRoot
    obtain ⟨later, -, rfl⟩ := List.mem_map.mp inObject
    exact .root

theorem aheadAsymm (keyed : s.Keyed) (rootKeyed : root.Keyed) {a b : Holder × Path}
    (ahead : s.Ahead root a b) : ¬ s.Ahead root b a := by
  intro back
  cases ahead with
  | root => cases back
  | object less =>
    cases back with
    | object more => exact Nat.lt_asymm less more
    | inside holds left => exact Nat.lt_irrefl _ less
  | inside holds left =>
    cases back with
    | object less => exact Nat.lt_irrefl _ less
    | inside holds' back =>
      cases holds.symm.trans holds'
      exact Value.leftAsymm (heldKeyed keyed rootKeyed holds) left back

theorem locationsExact (keyed : s.Keyed) (rootKeyed : root.Keyed) :
    s.locations root =
        (Value.gather [([], root)]).map (fun found => ⟨.root, found.1, found.2⟩) ++
          s.objects.items.flatMap (fun o => (Value.gather [([], o.value)]).map
            fun found => ⟨.object o.id, found.1, found.2⟩) ∧
      (∀ place, place ∈ s.locations root ↔ s.Refers root place) ∧
      ((s.locations root).map Location.spot).Pairwise (s.Ahead root) ∧
      (∀ a b, s.Ahead root a b → ¬ s.Ahead root b a) ∧
      ((s.locations root).map Location.spot).Nodup := by
  have ordered := List.pairwise_map.mpr (locationsOrdered root s)
  have strict : ∀ a b, s.Ahead root a b → ¬ s.Ahead root b a := fun _ _ => aheadAsymm keyed rootKeyed
  refine ⟨?_, memLocations keyed rootKeyed, ordered, strict, ?_⟩
  · simp only [locations, Location.inside, Value.gatherPlaces]
  · refine ordered.imp fun ahead same => ?_
    subst same
    exact strict _ _ ahead ahead

def trailer : Value := .dict [("Root", .ref ⟨2, 1⟩), ("Kids", .arr [.null, .ref ⟨3, 0⟩, .ref ⟨3, 0⟩])]

theorem overlappingLocated :
    overlapping.Refers trailer ⟨.root, [.key "Kids", .index 2], ⟨3, 0⟩⟩ ∧
      ¬ overlapping.Refers trailer ⟨.object ⟨2, 1⟩, [.key "Kids", .index 1], ⟨2, 0⟩⟩ ∧
      ((overlapping.locations trailer).map Location.spot).Nodup := by
  have trailerKeyed : trailer.Keyed := by
    simp [trailer, Value.Keyed, Value.KeyedItems, Value.KeyedEntries]
  obtain ⟨-, exactly, -, -, once⟩ := locationsExact overlappingKeyed trailerKeyed
  exact ⟨(exactly _).mp (by decide), fun refers => absurd ((exactly _).mpr refers) (by decide), once⟩

end Store
end PdfBody
