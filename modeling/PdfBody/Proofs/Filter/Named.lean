import PdfBody.Filter.Pipeline
import PdfBody.Proofs.Value.Entries

/-! The dictionary entries that a stream's filters depend on. A list of filters that is set is the list
that is read, and no entry but its own is touched. -/
namespace PdfBody

namespace Entries

theorem filterOfNames (filters : List FilterName) :
    (filters.map fun f => Value.name f.text).mapM filterOfItem = .ok filters := by
  induction filters with
  | nil => rfl
  | cons f filters ih =>
    have first : filterOfItem (.name f.text) = .ok f := by
      rw [filterOfItem, filterOfName, FilterName.ofTextText]
    rw [List.map_cons, List.mapM_cons, first, ih]
    rfl

theorem filtersSet {entries : Entries} (once : (entries.map Prod.fst).Nodup)
    (filters : List FilterName) : (setFilters filters entries).filters = .ok filters := by
  unfold Entries.filters
  match filters with
  | [] => rw [setFilters, lookupErase once]
  | [f] =>
    rw [setFilters, lookupPut]
    dsimp only
    rw [filterOfName, FilterName.ofTextText]
    rfl
  | f :: g :: rest =>
    have several : setFilters (f :: g :: rest) entries =
        put filterKey (.arr ((f :: g :: rest).map fun f => .name f.text)) entries := rfl
    rw [several, lookupPut]
    exact filterOfNames (f :: g :: rest)

theorem lookupSetFilters {k : String} (other : k ≠ filterKey) (filters : List FilterName)
    (entries : Entries) : (setFilters filters entries).lookup k = entries.lookup k := by
  unfold setFilters
  split
  · exact lookupEraseOther other
  · exact lookupPutOther other
  · exact lookupPutOther other

theorem onceSetFilters {entries : Entries} (once : (entries.map Prod.fst).Nodup)
    (filters : List FilterName) : ((setFilters filters entries).map Prod.fst).Nodup := by
  unfold setFilters
  split
  · exact keysNodupErase once
  · exact keysNodupPut once
  · exact keysNodupPut once

theorem filterSetFilters {keep : String × Value → Bool} (dropped : ∀ v, keep (filterKey, v) = false)
    (filters : List FilterName) (entries : Entries) :
    (setFilters filters entries).filter keep = entries.filter keep := by
  unfold setFilters
  split
  · exact filterErase dropped
  · exact filterPut dropped
  · exact filterPut dropped

theorem filtersSame {entries changed : Entries}
    (same : changed.lookup filterKey = entries.lookup filterKey) :
    changed.filters = entries.filters := by
  rw [Entries.filters, Entries.filters, same]

theorem paramsSame {entries changed : Entries}
    (same : changed.lookup paramsKey = entries.lookup paramsKey) (place count : Nat) :
    changed.params place count = entries.params place count := by
  rw [params, params, same]

end Entries

theorem Registry.decodeSame {registry : Registry} {entries changed : Entries}
    (same : changed.lookup Entries.paramsKey = entries.lookup Entries.paramsKey)
    (filters : List FilterName) (data : Bytes) :
    registry.decode filters changed data = registry.decode filters entries data := by
  have from_ : ∀ count place data, registry.decodeFrom changed count place filters data =
      registry.decodeFrom entries count place filters data := by
    intro count
    induction filters with
    | nil => exact fun place data => rfl
    | cons f filters ih =>
      intro place data
      simp only [decodeFrom, Entries.paramsSame same, ih]
  exact from_ filters.length 0 data

end PdfBody
