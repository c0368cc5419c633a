import PdfBody.Value.Entries

/-! Shapes of values: what holds of every part, and the form in which each dictionary has its
`Type` entry in front. -/
namespace PdfBody

namespace Entries

def typeFirst {α : Type} (entries : List (String × α)) : List (String × α) :=
  entries.filter (fun entry => entry.1 == typeKey) ++
    entries.filter (fun entry => entry.1 != typeKey)

theorem putBehind {α : Type} {key : String} {value : α} {done : List (String × α)}
    (new : key ∉ done.map Prod.fst) (entries : List (String × α)) :
    put key value (done ++ entries) = done ++ put key value entries := by
  induction done with
  | nil => rfl
  | cons entry done ih =>
    obtain ⟨k, v⟩ := entry
    simp only [List.map_cons, List.mem_cons, not_or] at new
    rw [List.cons_append, put, if_neg (Ne.symm new.1), ih new.2, List.cons_append]

theorem putNew {α : Type} {key : String} {value : α} {entries : List (String × α)}
    (new : key ∉ entries.map Prod.fst) : put key value entries = entries ++ [(key, value)] := by
  have behind : put key value (entries ++ []) = entries ++ put key value [] := putBehind new []
  rwa [List.append_nil] at behind

theorem lookupBehind {α : Type} {key : String} {value : α} {done : List (String × α)}
    (new : key ∉ done.map Prod.fst) (entries : List (String × α)) :
    (done ++ (key, value) :: entries).lookup key = some value := by
  refine List.lookup_eq_some_iff.mpr ⟨done, entries, rfl, fun entry found => ?_⟩
  simp only [bne_iff_ne]
  rintro rfl
  exact new (List.mem_map_of_mem found)

theorem lookupMem {α : Type} {key : String} {value : α} {entries : List (String × α)}
    (found : entries.lookup key = some value) : (key, value) ∈ entries := by
  obtain ⟨front, back, rfl, -⟩ := List.lookup_eq_some_iff.mp found
  exact List.mem_append_right front List.mem_cons_self

theorem memLookup {α : Type} {key : String} {value : α} {entries : List (String × α)}
    (once : (entries.map Prod.fst).Nodup) (among : (key, value) ∈ entries) :
    entries.lookup key = some value := by
  obtain ⟨front, back, rfl⟩ := List.append_of_mem among
  rw [List.map_append, List.map_cons] at once
  exact lookupBehind (List.nodup_append.mp once |>.2.2 _ · _ List.mem_cons_self rfl) back

end Entries

namespace Value

mutual

def Every (p : Value → Prop) : Value → Prop
  | arr items => p (arr items) ∧ EveryItems p items
  | dict entries => p (dict entries) ∧ EveryEntries p entries
  | v => p v

def EveryItems (p : Value → Prop) : List Value → Prop
  | [] => True
  | v :: rest => Every p v ∧ EveryItems p rest

def EveryEntries (p : Value → Prop) : List (String × Value) → Prop
  | [] => True
  | (_, v) :: rest => Every p v ∧ EveryEntries p rest

end

section

variable {p : Value → Prop} {items : List Value} {entries : Entries}

theorem everyItemIff : EveryItems p items ↔ ∀ v ∈ items, v.Every p := by
  induction items with
  | nil => simp [EveryItems]
  | cons v rest ih => simp [EveryItems, ih]

theorem everyEntryIff : EveryEntries p entries ↔ ∀ entry ∈ entries, entry.2.Every p := by
  induction entries with
  | nil => simp [EveryEntries]
  | cons entry rest ih => simp [EveryEntries, ih]

theorem keyedItemIff : KeyedItems items ↔ ∀ v ∈ items, v.Keyed := by
  induction items with
  | nil => simp [KeyedItems]
  | cons v rest ih => simp [KeyedItems, ih]

theorem keyedEntryIff : KeyedEntries entries ↔ ∀ entry ∈ entries, entry.2.Keyed := by
  induction entries with
  | nil => simp [KeyedEntries]
  | cons entry rest ih => simp [KeyedEntries, ih]

end

mutual

theorem byParts {motive : Value → Prop}
    (leaf : ∀ v : Value, v.kind ≠ .array → v.kind ≠ .dictionary → motive v)
    (arrays : ∀ items : List Value, (∀ v ∈ items, motive v) → motive (arr items))
    (dictionaries : ∀ entries : Entries, (∀ entry ∈ entries, motive entry.2) → motive (dict entries)) :
    ∀ v, motive v
  | arr items => arrays items (byPartsItems leaf arrays dictionaries items)
  | dict entries => dictionaries entries (byPartsEntries leaf arrays dictionaries entries)
  | null | bool _ | int _ | real _ | str _ _ | name _ | ref _ | raw _ => leaf _ nofun nofun

theorem byPartsItems {motive : Value → Prop}
    (leaf : ∀ v : Value, v.kind ≠ .array → v.kind ≠ .dictionary → motive v)
    (arrays : ∀ items : List Value, (∀ v ∈ items, motive v) → motive (arr items))
    (dictionaries : ∀ entries : Entries, (∀ entry ∈ entries, motive entry.2) → motive (dict entries)) :
    ∀ items : List Value, ∀ v ∈ items, motive v
  | [] => nofun
  | v :: rest => List.forall_mem_cons.mpr
    ⟨byParts leaf arrays dictionaries v, byPartsItems leaf arrays dictionaries rest⟩

theorem byPartsEntries {motive : Value → Prop}
    (leaf : ∀ v : Value, v.kind ≠ .array → v.kind ≠ .dictionary → motive v)
    (arrays : ∀ items : List Value, (∀ v ∈ items, motive v) → motive (arr items))
    (dictionaries : ∀ entries : Entries, (∀ entry ∈ entries, motive entry.2) → motive (dict entries)) :
    ∀ entries : Entries, ∀ entry ∈ entries, motive entry.2
  | [] => nofun
  | (_, v) :: rest => List.forall_mem_cons.mpr
    ⟨byParts leaf arrays dictionaries v, byPartsEntries leaf arrays dictionaries rest⟩

end

mutual

def typeFirst : Value → Value
  | arr items => arr (typeFirstItems items)
  | dict entries => dict (Entries.typeFirst (typeFirstEntries entries))
  | v => v

def typeFirstItems : List Value → List Value
  | [] => []
  | v :: rest => typeFirst v :: typeFirstItems rest

def typeFirstEntries : List (String × Value) → List (String × Value)
  | [] => []
  | (key, v) :: rest => (key, typeFirst v) :: typeFirstEntries rest

end

end Value
end PdfBody
