import PdfBody.Store.Renumber
import PdfBody.Proofs.Value.Shape

/-! References renamed inside a value. The places noted in a value stay good while it is patched, so
patching them one after the other renames every reference once. -/
namespace PdfBody.Value

mutual

def rename (f : ObjId → ObjId) : Value → Value
  | ref id => ref (f id)
  | arr items => arr (renameItems f items)
  | dict entries => dict (renameEntries f entries)
  | v => v

def renameItems (f : ObjId → ObjId) : List Value → List Value
  | [] => []
  | v :: rest => rename f v :: renameItems f rest

def renameEntries (f : ObjId → ObjId) : List (String × Value) → List (String × Value)
  | [] => []
  | (key, v) :: rest => (key, rename f v) :: renameEntries f rest

end

def patch (f : ObjId → ObjId) (v : Value) (found : Path × ObjId) : Value :=
  if f found.2 = found.2 then v else v.redirect found.1 (f found.2)

theorem redirectItem (done items : List Value) (v : Value) (path : Path) (target : ObjId) :
    (arr (done ++ v :: items)).redirect (.index done.length :: path) target =
      arr (done ++ v.redirect path target :: items) := by
  have child : (done ++ v :: items)[done.length]? = some v := by simp
  have inside : (arr (done ++ v :: items)).at? (.index done.length :: path) = v.at? path := by
    simp only [at?, child?, child, Option.bind_eq_bind, Option.bind_some]
  rw [redirect, redirect, inside]
  split
  · rw [replaceAt, child]
    simp
  · rfl

theorem redirectEntry {key : String} {done : Entries} (new : key ∉ done.map Prod.fst)
    (entries : Entries) (v : Value) (path : Path) (target : ObjId) :
    (dict (done ++ (key, v) :: entries)).redirect (.key key :: path) target =
      dict (done ++ (key, v.redirect path target) :: entries) := by
  have child : (done ++ (key, v) :: entries).lookup key = some v := Entries.lookupBehind new entries
  have inside : (dict (done ++ (key, v) :: entries)).at? (.key key :: path) = v.at? path := by
    simp only [at?, child?, child, Option.bind_eq_bind, Option.bind_some]
  rw [redirect, redirect, inside]
  split
  · rw [replaceAt, child]
    simp only [Entries.putBehind new, Entries.put, if_true]
  · rfl

theorem patchWithin (f : ObjId → ObjId) {step : Step} {around : Value → Value}
    (kept : ∀ v path target, (around v).redirect (step :: path) target =
      around (v.redirect path target)) (places : List (Path × ObjId)) (v : Value) :
    (places.map (within step)).foldl (patch f) (around v) = around (places.foldl (patch f) v) := by
  induction places generalizing v with
  | nil => rfl
  | cons found places ih =>
    have once : patch f (around v) (within step found) = around (patch f v found) := by
      by_cases same : f found.2 = found.2
      · have outside : patch f (around v) (within step found) = around v := if_pos same
        have inside : patch f v found = v := if_pos same
        rw [outside, inside]
      · have outside : patch f (around v) (within step found) =
            (around v).redirect (step :: found.1) (f found.2) := if_neg same
        have inside : patch f v found = v.redirect found.1 (f found.2) := if_neg same
        rw [outside, inside, kept]
    rw [List.map_cons, List.foldl_cons, once, ih, List.foldl_cons]

mutual

theorem patchValue (f : ObjId → ObjId) :
    ∀ v : Value, v.Keyed → v.refPlaces.foldl (patch f) v = v.rename f
  | ref id, _ => by
    simp only [refPlaces, List.foldl_cons, List.foldl_nil, patch, redirect, at?, replaceAt, rename]
    split
    · next same => rw [same]
    · rfl
  | arr items, keyed => patchItems f items [] keyed
  | dict entries, keyed => patchEntries f entries [] keyed.2 keyed.1
  | null, _ | bool _, _ | int _, _ | real _, _ | str _ _, _ | name _, _ | raw _, _ => rfl

theorem patchItems (f : ObjId → ObjId) : ∀ items done : List Value, KeyedItems items →
    (refPlacesItems done.length items).foldl (patch f) (arr (done ++ items)) =
      arr (done ++ renameItems f items)
  | [], _, _ => rfl
  | v :: items, done, keyed => by
    have head := patchWithin f (redirectItem done items) v.refPlaces v
    have tail := patchItems f items (done ++ [v.rename f]) keyed.2
    rw [refPlacesItems, List.foldl_append, head, patchValue f v keyed.1]
    simpa [renameItems] using tail

theorem patchEntries (f : ObjId → ObjId) : ∀ entries done : Entries, KeyedEntries entries →
    ((done ++ entries).map Prod.fst).Nodup →
    (refPlacesEntries entries).foldl (patch f) (dict (done ++ entries)) =
      dict (done ++ renameEntries f entries)
  | [], _, _, _ => rfl
  | (key, v) :: entries, done, keyed, once => by
    have new : key ∉ done.map Prod.fst := by
      rw [List.map_append, List.nodup_append] at once
      exact fun found => once.2.2 key found key (by simp) rfl
    have head := patchWithin f (redirectEntry new entries) v.refPlaces v
    have tail := patchEntries f entries (done ++ [(key, v.rename f)]) keyed.2 (by simpa using once)
    rw [refPlacesEntries, List.foldl_append, head, patchValue f v keyed.1]
    simpa [renameEntries] using tail

end

theorem renameItemsMap (f : ObjId → ObjId) (items : List Value) :
    renameItems f items = items.map (rename f) := by
  induction items with
  | nil => rfl
  | cons v items ih => rw [renameItems, ih, List.map_cons]

theorem renameLookup (f : ObjId → ObjId) (key : String) (entries : Entries) :
    (renameEntries f entries).lookup key = (entries.lookup key).map (rename f) := by
  induction entries with
  | nil => rfl
  | cons entry entries ih =>
    obtain ⟨k, v⟩ := entry
    simp only [renameEntries, List.lookup_cons, ih]
    split <;> rfl

theorem renameChild (f : ObjId → ObjId) (step : Step) (v : Value) :
    child? step (v.rename f) = (child? step v).map (rename f) := by
  cases step with
  | index place => cases v <;> simp [rename, child?, renameItemsMap]
  | key key => cases v <;> simp [rename, child?, renameLookup]

theorem renameAt (f : ObjId → ObjId) (path : Path) (v : Value) :
    (v.rename f).at? path = (v.at? path).map (rename f) := by
  induction path generalizing v with
  | nil => rfl
  | cons step path ih =>
    rw [at?, at?, renameChild]
    cases child? step v with
    | none => rfl
    | some child => exact ih child

mutual

theorem targetsRefs : ∀ v : Value, v.refPlaces.map Prod.snd = v.refs
  | ref _ => rfl
  | arr items => targetsItems items 0
  | dict entries => targetsEntries entries
  | null | bool _ | int _ | real _ | str _ _ | name _ | raw _ => rfl

theorem targetsItems : ∀ (items : List Value) (place : Nat),
    (refPlacesItems place items).map Prod.snd = refsItems items
  | [], _ => rfl
  | v :: items, place => by
    rw [refPlacesItems, refsItems, List.map_append, List.map_map, ← targetsRefs v,
      targetsItems items (place + 1)]
    rfl

theorem targetsEntries : ∀ entries : List (String × Value),
    (refPlacesEntries entries).map Prod.snd = refsEntries entries
  | [] => rfl
  | (_, v) :: entries => by
    rw [refPlacesEntries, refsEntries, List.map_append, List.map_map, ← targetsRefs v,
      targetsEntries entries]
    rfl

end

end PdfBody.Value
