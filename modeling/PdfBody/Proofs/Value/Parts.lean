import Mathlib.Algebra.GroupWithZero.Nat
import PdfBody.Store.Locate
import PdfBody.Proofs.Value.Shape

/-! The parts of a container in their order, each with the step that leads to it. All that is found inside a
value is found in a part of it, and what is found further left comes first. -/
namespace PdfBody.Value

def parts : Value → List (Step × Value)
  | arr items => items.zipIdx.map fun item => (.index item.2, item.1)
  | dict entries => entries.map fun entry => (.key entry.1, entry.2)
  | _ => []

theorem memItemParts {items : List Value} {step : Step} {v : Value} :
    (step, v) ∈ (arr items).parts ↔ ∃ place, step = .index place ∧ items[place]? = some v := by
  simp only [parts, List.mem_map, Prod.mk.injEq, Prod.exists, List.mem_zipIdx_iff_getElem?]
  constructor
  · rintro ⟨w, place, found, rfl, rfl⟩
    exact ⟨place, rfl, found⟩
  · rintro ⟨place, rfl, found⟩
    exact ⟨v, place, found, rfl, rfl⟩

theorem memEntryParts {entries : Entries} {step : Step} {v : Value} :
    (step, v) ∈ (dict entries).parts ↔ ∃ key, step = .key key ∧ (key, v) ∈ entries := by
  simp only [parts, List.mem_map, Prod.mk.injEq, Prod.exists]
  constructor
  · rintro ⟨key, w, among, rfl, rfl⟩
    exact ⟨key, rfl, among⟩
  · rintro ⟨key, rfl, among⟩
    exact ⟨key, v, among, rfl, rfl⟩

theorem leafParts {v : Value} (notArray : v.kind ≠ .array) (notDictionary : v.kind ≠ .dictionary) :
    v.parts = [] := by
  cases v with
  | arr => exact absurd rfl notArray
  | dict => exact absurd rfl notDictionary
  | _ => rfl

theorem throughParts {motive : Value → Prop}
    (whole : ∀ v : Value, (∀ part ∈ v.parts, motive part.2) → motive v) (v : Value) : motive v := by
  induction v using byParts with
  | leaf v notArray notDictionary =>
    refine whole v fun part found => ?_
    rw [leafParts notArray notDictionary] at found
    exact absurd found List.not_mem_nil
  | arrays items ih =>
    refine whole _ fun part found => ?_
    obtain ⟨place, -, here⟩ := memItemParts.mp found
    exact ih part.2 (List.mem_of_getElem? here)
  | dictionaries entries ih =>
    refine whole _ fun part found => ?_
    obtain ⟨key, -, among⟩ := memEntryParts.mp found
    exact ih _ among

section

variable {v w : Value} {step : Step}

theorem partKeyed (keyed : v.Keyed) (part : (step, w) ∈ v.parts) : w.Keyed := by
  cases v with
  | arr items =>
    obtain ⟨place, -, here⟩ := memItemParts.mp part
    exact keyedItemIff.mp keyed w (List.mem_of_getElem? here)
  | dict entries =>
    obtain ⟨key, -, among⟩ := memEntryParts.mp part
    exact keyedEntryIff.mp keyed.2 _ among
  | _ => cases part

theorem stepsNodup (keyed : v.Keyed) : (v.parts.map Prod.fst).Nodup := by
  cases v with
  | arr items =>
    have steps : (arr items).parts.map Prod.fst = (List.range' 0 items.length).map Step.index := by
      rw [← List.zipIdx_map_snd 0 items, parts, List.map_map, List.map_map]
      rfl
    have places : (List.range' 0 items.length).Nodup := List.nodup_range'
    rw [steps]
    exact List.pairwise_map.mpr (places.imp fun other same => other (Step.index.inj same))
  | dict entries =>
    have steps : (dict entries).parts.map Prod.fst = (entries.map Prod.fst).map Step.key := by
      rw [parts, List.map_map, List.map_map]
      rfl
    rw [steps]
    exact List.pairwise_map.mpr (keyed.1.imp fun other same => other (Step.key.inj same))
  | _ => exact .nil

theorem childPart (keyed : v.Keyed) : child? step v = some w ↔ (step, w) ∈ v.parts := by
  cases v with
  | arr items =>
    rw [memItemParts]
    cases step with
    | index place => simp [child?]
    | key key => simp [child?]
  | dict entries =>
    rw [memEntryParts]
    cases step with
    | index place => simp [child?]
    | key key =>
      have looked : entries.lookup key = some w ↔ (key, w) ∈ entries :=
        ⟨Entries.lookupMem, Entries.memLookup keyed.1⟩
      simp [child?, looked]
  | _ => cases step <;> simp [child?, parts]

end

theorem referenceOr (v : Value) : (∃ id, v = ref id) ∨ ∀ id, v ≠ ref id := by
  cases v with
  | ref id => exact .inl ⟨id, rfl⟩
  | _ => exact .inr nofun

theorem placesItemsParts (items : List Value) (place : Nat) :
    refPlacesItems place items =
      (items.zipIdx place).flatMap fun item => item.1.refPlaces.map (within (.index item.2)) := by
  induction items generalizing place with
  | nil => rfl
  | cons v items ih => rw [refPlacesItems, ih, List.zipIdx_cons, List.flatMap_cons]

theorem placesEntriesParts (entries : Entries) :
    refPlacesEntries entries =
      entries.flatMap fun entry => entry.2.refPlaces.map (within (.key entry.1)) := by
  induction entries with
  | nil => rfl
  | cons entry entries ih => rw [refPlacesEntries, ih, List.flatMap_cons]

theorem placesParts {v : Value} (container : ∀ id, v ≠ ref id) :
    v.refPlaces = v.parts.flatMap fun part => part.2.refPlaces.map (within part.1) := by
  cases v with
  | ref id => exact absurd rfl (container id)
  | arr items => rw [refPlaces, placesItemsParts, parts, List.flatMap_map]
  | dict entries => rw [refPlaces, placesEntriesParts, parts, List.flatMap_map]
  | _ => rfl

theorem itemsSmaller (items : List Value) (place : Nat) :
    ((items.zipIdx place).map fun item => sizeOf item.1).sum ≤ sizeOf items := by
  induction items generalizing place with
  | nil => exact Nat.zero_le _
  | cons v items ih =>
    have := ih (place + 1)
    simp only [List.zipIdx_cons, List.map_cons, List.sum_cons, List.cons.sizeOf_spec]
    omega

theorem entriesSmaller (entries : Entries) :
    (entries.map fun entry => sizeOf entry.2).sum ≤ sizeOf entries := by
  induction entries with
  | nil => exact Nat.zero_le _
  | cons entry entries ih =>
    simp only [List.map_cons, List.sum_cons, List.cons.sizeOf_spec]
    cases entry
    simp only [Prod.mk.sizeOf_spec]
    omega

theorem partsSmaller (v : Value) : (v.parts.map fun part => sizeOf part.2).sum < sizeOf v := by
  cases v with
  | arr items =>
    have := itemsSmaller items 0
    simp only [parts, List.map_map, Function.comp_def, arr.sizeOf_spec]
    omega
  | dict entries =>
    have := entriesSmaller entries
    simp only [parts, List.map_map, Function.comp_def, dict.sizeOf_spec]
    omega
  | _ => simp +arith [parts]

noncomputable def weight (stack : List Value) : Nat := (stack.map sizeOf).sum

theorem weightPopped (v : Value) (stack : List Value) : weight stack < weight (v :: stack) := by
  have := v.partsSmaller
  simp only [weight, List.map_cons, List.sum_cons]
  omega

theorem weightParted {v : Value} {pushed : List Value} (same : pushed.Perm (v.parts.map Prod.snd))
    (stack : List Value) : weight (pushed ++ stack) < weight (v :: stack) := by
  have := v.partsSmaller
  have pushed' : (pushed.map sizeOf).sum = (v.parts.map fun part => sizeOf part.2).sum := by
    rw [(same.map sizeOf).sum_nat, List.map_map]
    rfl
  simp only [weight, List.map_append, List.sum_append, List.map_cons, List.sum_cons, pushed']
  omega

end PdfBody.Value
