import PdfBody.Value.Entries

/-! What a change of one entry leaves of the others. -/
namespace PdfBody.Entries

variable {α : Type} {key k : String} {value : α} {entries : List (String × α)}

theorem lookupNext {j : String} {v : α} (other : k ≠ j) (rest : List (String × α)) :
    ((j, v) :: rest).lookup k = rest.lookup k := by
  rw [List.lookup_cons, beq_eq_false_iff_ne.mpr other]

theorem lookupPut : (put key value entries).lookup key = some value := by
  induction entries with
  | nil => exact List.lookup_cons_self
  | cons entry rest ih =>
    obtain ⟨j, v⟩ := entry
    by_cases same : j = key
    · rw [put, if_pos same, same, List.lookup_cons_self]
    · rw [put, if_neg same, lookupNext (Ne.symm same), ih]

theorem lookupPutOther (other : k ≠ key) : (put key value entries).lookup k = entries.lookup k := by
  induction entries with
  | nil => exact lookupNext other []
  | cons entry rest ih =>
    obtain ⟨j, v⟩ := entry
    by_cases same : j = key
    · subst same
      rw [put, if_pos rfl, lookupNext other, lookupNext other]
    · rw [put, if_neg same, List.lookup_cons, List.lookup_cons, ih]

theorem lookupErase (once : (entries.map Prod.fst).Nodup) : (erase key entries).lookup key = none := by
  induction entries with
  | nil => rfl
  | cons entry rest ih =>
    obtain ⟨j, v⟩ := entry
    obtain ⟨new, once⟩ := List.nodup_cons.mp once
    by_cases same : j = key
    · subst same
      rw [erase, if_pos rfl]
      refine List.lookup_eq_none_iff.mpr fun entry found => ?_
      have different : j ≠ entry.1 := by
        intro same
        apply new
        exact List.mem_map.mpr ⟨entry, found, same.symm⟩
      exact bne_iff_ne.mpr different
    · rw [erase, if_neg same, lookupNext (Ne.symm same), ih once]

theorem lookupEraseOther (other : k ≠ key) : (erase key entries).lookup k = entries.lookup k := by
  induction entries with
  | nil => rfl
  | cons entry rest ih =>
    obtain ⟨j, v⟩ := entry
    by_cases same : j = key
    · subst same
      rw [erase, if_pos rfl, lookupNext other]
    · rw [erase, if_neg same, List.lookup_cons, List.lookup_cons, ih]

theorem memPut {entry : String × α} (found : entry ∈ put key value entries) :
    entry.2 = value ∨ entry ∈ entries := by
  induction entries with
  | nil =>
    rw [put, List.mem_singleton] at found
    exact .inl (congrArg Prod.snd found)
  | cons head rest ih =>
    obtain ⟨j, w⟩ := head
    by_cases same : j = key
    · rw [put, if_pos same] at found
      rcases List.mem_cons.mp found with rfl | later
      · exact .inl rfl
      · exact .inr (List.mem_cons_of_mem _ later)
    · rw [put, if_neg same] at found
      rcases List.mem_cons.mp found with rfl | later
      · exact .inr List.mem_cons_self
      · exact (ih later).imp_right (List.mem_cons_of_mem _)

theorem keysPut {v : α} (found : entries.lookup key = some v) :
    (put key value entries).map Prod.fst = entries.map Prod.fst := by
  induction entries with
  | nil => cases found
  | cons entry rest ih =>
    obtain ⟨j, w⟩ := entry
    by_cases same : j = key
    · rw [put, if_pos same, List.map_cons, List.map_cons]
    · rw [lookupNext (Ne.symm same)] at found
      rw [put, if_neg same, List.map_cons, List.map_cons, ih found]

theorem filterPut {keep : String × α → Bool} (dropped : ∀ v, keep (key, v) = false) :
    (put key value entries).filter keep = entries.filter keep := by
  induction entries with
  | nil => simp [put, dropped]
  | cons entry rest ih =>
    obtain ⟨j, v⟩ := entry
    by_cases same : j = key
    · simp [put, same, dropped]
    · simp [put, same, List.filter_cons, ih]

theorem filterErase {keep : String × α → Bool} (dropped : ∀ v, keep (key, v) = false) :
    (erase key entries).filter keep = entries.filter keep := by
  induction entries with
  | nil => rfl
  | cons entry rest ih =>
    obtain ⟨j, v⟩ := entry
    by_cases same : j = key
    · simp [erase, same, dropped]
    · simp [erase, same, List.filter_cons, ih]

theorem putSame (found : entries.lookup key = some value) : put key value entries = entries := by
  induction entries with
  | nil => cases found
  | cons entry rest ih =>
    obtain ⟨j, v⟩ := entry
    by_cases same : j = key
    · subst same
      rw [List.lookup_cons_self] at found
      rw [put, if_pos rfl, Option.some.inj found]
    · rw [lookupNext (Ne.symm same)] at found
      rw [put, if_neg same, ih found]

theorem eraseSame (unbound : entries.lookup key = none) : erase key entries = entries := by
  induction entries with
  | nil => rfl
  | cons entry rest ih =>
    obtain ⟨j, v⟩ := entry
    by_cases same : j = key
    · subst same
      rw [List.lookup_cons_self] at unbound
      cases unbound
    · rw [lookupNext (Ne.symm same)] at unbound
      rw [erase, if_neg same, ih unbound]

def bindings (key : String) (entries : List (String × α)) : List (String × α) :=
  entries.filter fun entry => entry.1 == key

theorem lookupBindings : entries.lookup key = (bindings key entries).head?.map Prod.snd := by
  induction entries with
  | nil => rfl
  | cons entry rest ih =>
    obtain ⟨j, v⟩ := entry
    by_cases same : j = key
    · subst same
      simp [bindings]
    · rw [lookupNext (Ne.symm same), ih, bindings, bindings,
        List.filter_cons_of_neg (by simpa using same)]

theorem bindingsErase {v : α} (found : entries.lookup key = some v) :
    (bindings key (erase key entries)).length < (bindings key entries).length := by
  induction entries with
  | nil => cases found
  | cons entry rest ih =>
    obtain ⟨j, w⟩ := entry
    by_cases same : j = key
    · subst same
      simp [bindings, erase]
    · rw [lookupNext (Ne.symm same)] at found
      have other (rest : List (String × α)) : bindings key ((j, w) :: rest) = bindings key rest :=
        List.filter_cons_of_neg (by simpa using same)
      rw [erase, if_neg same, other, other]
      exact ih found

end PdfBody.Entries
