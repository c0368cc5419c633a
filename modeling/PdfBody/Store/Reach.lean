import PdfBody.Store.Basic

/-! Which ids a value reaches through stored objects. -/
namespace PdfBody

namespace Table

def targets (id : ObjId) (table : Table) : List ObjId :=
  match table.find? id with
  | some o => o.value.refs
  | none => []

def outside (table : Table) (seen : IdSet) : List Object :=
  table.items.filter fun o => !seen.contains o.id

end Table

namespace IdSet

theorem memPlace {id z : ObjId} {ids : List ObjId} :
    z ∈ Ordered.place ObjId.rank id ids ↔ z = id ∨ z ∈ ids :=
  Ordered.memPlaceIff ObjId.rankInjective

theorem containsPut (id z : ObjId) (ids : IdSet) :
    contains z (Ordered.put id ids) = (z == id || contains z ids) := by
  rw [Bool.eq_iff_iff]
  simp [contains, Ordered.put, memPlace]

end IdSet

theorem lengthFilterLe {α : Type} {p q : α → Bool} (weaker : ∀ x, p x → q x) (items : List α) :
    (items.filter p).length ≤ (items.filter q).length := by
  induction items with
  | nil => simp
  | cons x rest ih =>
    by_cases hp : p x
    · simpa [hp, weaker x hp] using ih
    · simp only [List.filter_cons, hp, Bool.false_eq_true, if_false]
      split
      · simp only [List.length_cons]; omega
      · exact ih

theorem lengthFilterLt {α : Type} {p q : α → Bool} (weaker : ∀ x, p x → q x) {items : List α}
    {x : α} (found : x ∈ items) (fails : ¬ p x) (holds : q x) :
    (items.filter p).length < (items.filter q).length := by
  induction items with
  | nil => simp at found
  | cons y rest ih =>
    rcases List.mem_cons.mp found with here | later
    · subst here
      have := lengthFilterLe weaker rest
      simp only [List.filter_cons, fails, Bool.false_eq_true, if_false, holds, if_true,
        List.length_cons]
      omega
    · have := ih later
      by_cases hp : p y
      · simpa [hp, weaker y hp] using this
      · simp only [List.filter_cons, hp, Bool.false_eq_true, if_false]
        split
        · simp only [List.length_cons]; omega
        · exact this

theorem Table.outsidePutLe (table : Table) (seen : IdSet) (id : ObjId) :
    (table.outside (seen.put id)).length ≤ (table.outside seen).length :=
  lengthFilterLe (fun o => by simp [IdSet.containsPut]) _

theorem Table.outsidePutLt {table : Table} {seen : IdSet} {id : ObjId}
    (stored : table.contains id) (new : ¬ IdSet.contains id seen) :
    (table.outside (seen.put id)).length < (table.outside seen).length := by
  simp only [Table.contains, Table.find?, Ordered.find?, List.find?_isSome, beq_iff_eq] at stored
  obtain ⟨o, found, same⟩ := stored
  subst same
  exact lengthFilterLt (fun o => by simp [IdSet.containsPut]) found
    (by simp [IdSet.containsPut]) (by simpa using new)

namespace Table

/-- The ids seen once all pending ones are followed. An id that is not stored is seen but leads
nowhere; one that was seen before is not followed again. -/
def reachFrom (table : Table) (seen : IdSet) (pending : List ObjId) : IdSet :=
  match pending with
  | [] => seen
  | id :: rest =>
    if _old : IdSet.contains id seen then reachFrom table seen rest
    else if _stored : table.contains id then
      reachFrom table (seen.put id) (table.targets id ++ rest)
    else reachFrom table (seen.put id) rest
termination_by ((table.outside seen).length, pending.length)
decreasing_by
  · exact Prod.Lex.right _ (by simp)
  · exact Prod.Lex.left _ _ (outsidePutLt _stored _old)
  · rcases Nat.lt_or_eq_of_le (outsidePutLe table seen id) with less | same
    · exact Prod.Lex.left _ _ less
    · rw [same]; exact Prod.Lex.right _ (by simp)

def reach (table : Table) (root : Value) : IdSet := table.reachFrom .empty root.refs

end Table

namespace Store

def dependencies (root : Value) (s : Store) : List ObjId := (s.objects.reach root).items

end Store
end PdfBody
