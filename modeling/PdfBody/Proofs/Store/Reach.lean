import PdfBody.Store.Collect

/-! What the search through the references finds: the ids that are named at its start, and those named
by a stored object that it found. The ids seen so far are shared between searches, which is sound as
long as every one of them has been followed or is about to be. -/
namespace PdfBody

namespace Value

inductive Names (target : ObjId) : Value → Prop where
  | ref : Names target (.ref target)
  | item {items : List Value} {v : Value} (among : v ∈ items) (inside : Names target v) :
      Names target (.arr items)
  | entry {entries : Entries} {key : String} {v : Value} (among : (key, v) ∈ entries)
      (inside : Names target v) : Names target (.dict entries)

mutual

theorem refsNames (target : ObjId) : ∀ v : Value, target ∈ v.refs ↔ Names target v
  | ref id => by
    rw [refs, List.mem_singleton]
    constructor
    · rintro rfl
      exact .ref
    · rintro ⟨⟩
      rfl
  | arr items => by
    rw [refs, refsItemsNames]
    constructor
    · rintro ⟨v, among, inside⟩
      exact .item among inside
    · rintro (_ | ⟨among, inside⟩)
      exact ⟨_, among, inside⟩
  | dict entries => by
    rw [refs, refsEntriesNames]
    constructor
    · rintro ⟨key, v, among, inside⟩
      exact .entry among inside
    · rintro (_ | _ | ⟨among, inside⟩)
      exact ⟨_, _, among, inside⟩
  | null | bool _ | int _ | real _ | str _ _ | name _ | raw _ => by
    simp only [refs, List.not_mem_nil, false_iff]
    rintro ⟨⟩

theorem refsItemsNames (target : ObjId) :
    ∀ items : List Value, target ∈ refsItems items ↔ ∃ v ∈ items, Names target v
  | [] => by simp [refsItems]
  | v :: items => by
    rw [refsItems, List.mem_append, refsNames target v, refsItemsNames target items]
    simp only [List.mem_cons, exists_eq_or_imp]

theorem refsEntriesNames (target : ObjId) :
    ∀ entries : Entries, target ∈ refsEntries entries ↔
      ∃ key v, (key, v) ∈ entries ∧ Names target v
  | [] => by simp [refsEntries]
  | (key, v) :: entries => by
    rw [refsEntries, List.mem_append, refsNames target v, refsEntriesNames target entries]
    constructor
    · rintro (here | ⟨k, w, among, inside⟩)
      · exact ⟨key, v, List.mem_cons_self, here⟩
      · exact ⟨k, w, List.mem_cons_of_mem _ among, inside⟩
    · rintro ⟨k, w, among, inside⟩
      rcases List.mem_cons.mp among with same | later
      · cases same
        exact .inl inside
      · exact .inr ⟨k, w, later, inside⟩

end

end Value

namespace Table

inductive Reached (table : Table) (start : ObjId → Prop) : ObjId → Prop where
  | start {id : ObjId} (first : start id) : Reached table start id
  | step {id target : ObjId} {o : Object} (found : Reached table start id)
      (stored : table.find? id = some o) (names : o.value.Names target) :
      Reached table start target

theorem memTargets {table : Table} {id target : ObjId} :
    target ∈ table.targets id ↔ ∃ o, table.find? id = some o ∧ o.value.Names target := by
  unfold targets
  cases stored : table.find? id with
  | none => simp
  | some o => simp [Value.refsNames]

theorem targetsOutside {table : Table} {id : ObjId} (outside : ¬ table.contains id) :
    table.targets id = [] := by
  unfold targets
  cases stored : table.find? id with
  | none => rfl
  | some o =>
    rw [contains, stored] at outside
    exact absurd rfl outside

theorem reachedTargets {table : Table} {start : ObjId → Prop} (id : ObjId)
    (reached : table.Reached start id) : ∀ target ∈ table.targets id, table.Reached start target := by
  intro target leads
  obtain ⟨o, stored, names⟩ := memTargets.mp leads
  exact .step reached stored names

theorem Reached.mono {table : Table} {start more : ObjId → Prop} (wider : ∀ id, start id → more id)
    {id : ObjId} (reached : table.Reached start id) : table.Reached more id := by
  induction reached with
  | start first => exact .start (wider _ first)
  | step _ stored names ih => exact .step ih stored names

section

variable {seen : IdSet} {first id : ObjId} {rest pending : List ObjId}

theorem knownOld (old : first ∈ seen.items) (known : id ∈ seen.items ∨ id ∈ first :: rest) :
    id ∈ seen.items ∨ id ∈ rest := by
  rcases known with found | later
  · exact .inl found
  · rcases List.mem_cons.mp later with rfl | behind
    · exact .inl old
    · exact .inr behind

theorem knownPut (kept : id ∈ rest → id ∈ pending) (known : id ∈ seen.items ∨ id ∈ first :: rest) :
    id ∈ (seen.put first).items ∨ id ∈ pending := by
  rcases known with found | later
  · exact .inl (IdSet.memPlace.mpr (.inr found))
  · rcases List.mem_cons.mp later with rfl | behind
    · exact .inl (IdSet.memPlace.mpr (.inl rfl))
    · exact .inr (kept behind)

theorem reachFromGrows (table : Table) (seen : IdSet) (pending : List ObjId)
    (known : id ∈ seen.items ∨ id ∈ pending) : id ∈ (table.reachFrom seen pending).items := by
  fun_induction reachFrom table seen pending with
  | case1 seen => exact known.resolve_right List.not_mem_nil
  | case2 seen first rest old ih => exact ih (knownOld (List.contains_iff_mem.mp old) known)
  | case3 seen first rest new stored ih => exact ih (knownPut (List.mem_append_right _) known)
  | case4 seen first rest new outside ih => exact ih (knownPut (fun later => later) known)

def Followed (table : Table) (seen : IdSet) (pending : List ObjId) : Prop :=
  ∀ id ∈ seen.items, ∀ target ∈ table.targets id, target ∈ seen.items ∨ target ∈ pending

theorem followedPut {table : Table} (followed : table.Followed seen (first :: rest)) :
    table.Followed (seen.put first) (table.targets first ++ rest) := by
  intro id found target leads
  rcases IdSet.memPlace.mp found with rfl | earlier
  · exact .inr (List.mem_append_left _ leads)
  · exact knownPut (List.mem_append_right _) (followed id earlier target leads)

theorem reachFromFollowed (table : Table) (seen : IdSet) (pending : List ObjId)
    (followed : table.Followed seen pending) : table.Followed (table.reachFrom seen pending) [] := by
  fun_induction reachFrom table seen pending with
  | case1 seen => exact followed
  | case2 seen first rest old ih =>
    exact ih fun id found target leads =>
      knownOld (List.contains_iff_mem.mp old) (followed id found target leads)
  | case3 seen first rest new stored ih => exact ih (followedPut followed)
  | case4 seen first rest new outside ih =>
    have next := followedPut followed
    rw [targetsOutside outside] at next
    exact ih next

theorem withinPut {found : ObjId → Prop} (old : ∀ id ∈ seen.items, found id) (here : found first) :
    ∀ id ∈ (seen.put first).items, found id := by
  intro id among
  rcases IdSet.memPlace.mp among with rfl | earlier
  · exact here
  · exact old id earlier

theorem reachFromWithin (table : Table) {found : ObjId → Prop}
    (closed : ∀ id, found id → ∀ target ∈ table.targets id, found target)
    (seen : IdSet) (pending : List ObjId) (old : ∀ id ∈ seen.items, found id)
    (begins : ∀ id ∈ pending, found id) : ∀ id ∈ (table.reachFrom seen pending).items, found id := by
  fun_induction reachFrom table seen pending with
  | case1 seen => exact old
  | case2 seen first rest known ih => exact ih old (List.forall_mem_cons.mp begins).2
  | case3 seen first rest new stored ih =>
    obtain ⟨here, behind⟩ := List.forall_mem_cons.mp begins
    refine ih (withinPut old here) fun id among => ?_
    rcases List.mem_append.mp among with leads | later
    · exact closed first here id leads
    · exact behind id later
  | case4 seen first rest new outside ih =>
    obtain ⟨here, behind⟩ := List.forall_mem_cons.mp begins
    exact ih (withinPut old here) behind

end

structure Finds (table : Table) (start : ObjId → Prop) (found : IdSet) : Prop where
  starts : ∀ id, start id → id ∈ found.items
  followed : table.Followed found []
  reached : ∀ id ∈ found.items, table.Reached start id

theorem findsIff {table : Table} {start : ObjId → Prop} {found : IdSet}
    (finds : table.Finds start found) {id : ObjId} :
    id ∈ found.items ↔ table.Reached start id := by
  refine ⟨finds.reached id, fun reached => ?_⟩
  induction reached with
  | start first => exact finds.starts _ first
  | step _ stored names ih =>
    exact (finds.followed _ ih _ (memTargets.mpr ⟨_, stored, names⟩)).resolve_right
      List.not_mem_nil

theorem reachFinds (table : Table) (root : Value) :
    table.Finds (fun id => root.Names id) (table.reach root) where
  starts id names := reachFromGrows table .empty root.refs (.inr ((Value.refsNames id root).mpr names))
  followed := reachFromFollowed table .empty root.refs fun _ found => absurd found List.not_mem_nil
  reached := reachFromWithin table reachedTargets .empty root.refs
    (fun _ found => absurd found List.not_mem_nil)
    fun id among => .start ((Value.refsNames id root).mp among)

theorem findsFurther {table : Table} {start : ObjId → Prop} {found : IdSet}
    (finds : table.Finds start found) (first : ObjId) :
    table.Finds (fun id => start id ∨ id = first) (table.reachFrom found [first]) where
  starts id begins := reachFromGrows table found [first]
    (begins.imp (finds.starts id) List.mem_singleton.mpr)
  followed := reachFromFollowed table found [first] fun id seen target leads =>
    .inl ((finds.followed id seen target leads).resolve_right List.not_mem_nil)
  reached := reachFromWithin table reachedTargets found [first]
    (fun id seen => (finds.reached id seen).mono fun _ => .inl)
    fun _ among => .start (.inr (List.mem_singleton.mp among))

theorem findsAll {table : Table} {start : ObjId → Prop} {found : IdSet}
    (finds : table.Finds start found) (ids : List ObjId) :
    table.Finds (fun id => start id ∨ id ∈ ids)
      (ids.foldl (fun seen id => table.reachFrom seen [id]) found) := by
  induction ids generalizing start found with
  | nil => simpa using finds
  | cons first ids ih =>
    have further := ih (findsFurther finds first)
    simp only [or_assoc, ← List.mem_cons] at further
    exact further

theorem reachWithFinds (table : Table) (root : Value) (kept : IdSet) :
    table.Finds (fun id => root.Names id ∨ id ∈ kept.items) (table.reachWith root kept) :=
  findsAll (reachFinds table root) kept.items

end Table
end PdfBody
