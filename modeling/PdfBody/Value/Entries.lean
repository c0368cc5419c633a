import PdfBody.Value.Basic

/-! Dictionaries as entry lists in insertion order. `put` keeps the place of a key it replaces, so
a list built by `put` and `erase` binds every key once. -/
namespace PdfBody.Entries

def typeKey : String := "Type"
def filterKey : String := "Filter"
def paramsKey : String := "DecodeParms"
def lengthKey : String := "Length"

variable {α : Type}

def put (key : String) (value : α) : List (String × α) → List (String × α)
  | [] => [(key, value)]
  | (k, v) :: rest => if k = key then (k, value) :: rest else (k, v) :: put key value rest

def erase (key : String) : List (String × α) → List (String × α)
  | [] => []
  | (k, v) :: rest => if k = key then rest else (k, v) :: erase key rest

def ofPairs (pairs : List (String × α)) : List (String × α) :=
  pairs.foldl (fun entries pair => put pair.1 pair.2 entries) []

def fill (value : α) (entries : List (String × α)) : List (String × α) :=
  entries.map fun entry => (entry.1, value)

theorem memKeysPut (key : String) (value : α) (entries : List (String × α)) (k : String) :
    k ∈ (put key value entries).map Prod.fst ↔ k = key ∨ k ∈ entries.map Prod.fst := by
  induction entries with
  | nil => simp [put]
  | cons entry rest ih =>
    obtain ⟨j, v⟩ := entry
    by_cases h : j = key
    · simp [put, h]
    · simp only [put, if_neg h, List.map_cons, List.mem_cons, ih]
      constructor
      · rintro (h | h | h) <;> simp [h]
      · rintro (h | h | h) <;> simp [h]

theorem keysNodupPut {key : String} {value : α} {entries : List (String × α)}
    (once : (entries.map Prod.fst).Nodup) : ((put key value entries).map Prod.fst).Nodup := by
  induction entries with
  | nil => simp [put]
  | cons entry rest ih =>
    obtain ⟨j, v⟩ := entry
    simp only [List.map_cons, List.nodup_cons] at once
    by_cases h : j = key
    · simpa [put, h] using once
    · simp only [put, if_neg h, List.map_cons, List.nodup_cons, memKeysPut]
      exact ⟨fun found => found.elim h once.1, ih once.2⟩

theorem memOfMemErase {key : String} {entries : List (String × α)} {entry : String × α}
    (found : entry ∈ erase key entries) : entry ∈ entries := by
  induction entries with
  | nil => simp [erase] at found
  | cons head rest ih =>
    obtain ⟨j, v⟩ := head
    by_cases h : j = key
    · simp only [erase, h, if_true] at found
      exact List.mem_cons_of_mem _ found
    · simp only [erase, if_neg h, List.mem_cons] at found
      exact found.elim (fun same => by simp [same]) fun later => List.mem_cons_of_mem _ (ih later)

theorem keysNodupErase {key : String} {entries : List (String × α)}
    (once : (entries.map Prod.fst).Nodup) : ((erase key entries).map Prod.fst).Nodup := by
  induction entries with
  | nil => simp [erase]
  | cons entry rest ih =>
    obtain ⟨j, v⟩ := entry
    simp only [List.map_cons, List.nodup_cons] at once
    by_cases h : j = key
    · simpa [erase, h] using once.2
    · simp only [erase, if_neg h, List.map_cons, List.nodup_cons]
      refine ⟨fun found => once.1 ?_, ih once.2⟩
      obtain ⟨e, he, hk⟩ := List.mem_map.mp found
      exact List.mem_map.mpr ⟨e, memOfMemErase he, hk⟩

end PdfBody.Entries
