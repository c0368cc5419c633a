import PdfBody.Proofs.Store.Reach
import PdfBody.Proofs.Store.Renumber
import PdfBody.Proofs.Value.Parts

/-! What a value depends on: the ids that a search through the stored objects finds, each once and in
ascending order. The search may take up values in any order, since the ids it finds are the same. -/
namespace PdfBody

theorem Value.refsParts {v : Value} (container : ∀ id, v ≠ ref id) :
    v.refs = v.parts.flatMap fun part => part.2.refs := by
  rw [← targetsRefs, placesParts container, List.map_flatMap]
  refine congrArg (List.flatMap · v.parts) (funext fun part => ?_)
  rw [List.map_map, ← targetsRefs]
  rfl

theorem IdSet.ext {a b : IdSet} (same : ∀ id, id ∈ a.items ↔ id ∈ b.items) : a = b := by
  have shuffled := (List.perm_ext_iff_of_nodup a.nodup b.nodup).mpr same
  refine Ordered.ext (shuffled.eq_of_pairwise (fun x y _ _ less more => ?_) a.ascending b.ascending)
  exact absurd less (Nat.lt_asymm more)

namespace Table

theorem reachFromSame {table : Table} {seen : IdSet} {first second : List ObjId}
    (followed : table.Followed seen first) (same : ∀ id, id ∈ first ↔ id ∈ second) :
    table.reachFrom seen first = table.reachFrom seen second := by
  -- what either search has seen at its end is closed, and the other stays inside
  have inside : ∀ {p q : List ObjId}, table.Followed seen q → (∀ id ∈ p, id ∈ q) →
      ∀ id ∈ (table.reachFrom seen p).items, id ∈ (table.reachFrom seen q).items := by
    intro p q followed within
    have settled := reachFromFollowed table seen q followed
    refine reachFromWithin table (fun id found target leads => ?_) seen p
      (fun id old => reachFromGrows table seen q (.inl old))
      fun id among => reachFromGrows table seen q (.inr (within id among))
    exact (settled id found target leads).resolve_right List.not_mem_nil
  have followed' : table.Followed seen second := fun id found target leads =>
    (followed id found target leads).imp_right (same target).mp
  exact IdSet.ext fun id => ⟨inside followed' (fun id => (same id).mp) id,
    inside followed (fun id => (same id).mpr) id⟩

def search (table : Table) (seen : IdSet) (stack : List Value) : IdSet :=
  match stack with
  | [] => seen
  | .ref id :: stack =>
    if _old : IdSet.contains id seen then search table seen stack
    else
      match _stored : table.find? id with
      | some o => search table (seen.put id) (o.value :: stack)
      | none => search table (seen.put id) stack
  | v :: stack => search table seen (v.parts.reverse.map Prod.snd ++ stack)
termination_by ((table.outside seen).length, Value.weight stack)
decreasing_by
  · exact Prod.Lex.right _ (Value.weightPopped _ stack)
  · exact Prod.Lex.left _ _ (outsidePutLt (by rw [contains, _stored]; rfl) _old)
  · rcases Nat.lt_or_eq_of_le (outsidePutLe table seen id) with less | same
    · exact Prod.Lex.left _ _ less
    · rw [same]
      exact Prod.Lex.right _ (Value.weightPopped _ stack)
  · exact Prod.Lex.right _ (Value.weightParted (v.parts.reverse_perm.map Prod.snd) stack)

theorem searchReach (table : Table) (seen : IdSet) (stack : List Value)
    (followed : table.Followed seen (stack.flatMap Value.refs)) :
    table.search seen stack = table.reachFrom seen (stack.flatMap Value.refs) := by
  -- that all seen ids are followed carries the induction: it lets the parts come in any order
  have pushed (id : ObjId) (stack : List Value) :
      (Value.ref id :: stack).flatMap Value.refs = id :: stack.flatMap Value.refs := rfl
  fun_induction search table seen stack with
  | case1 seen => rw [List.flatMap_nil, reachFrom]
  | case2 seen id stack old ih =>
    rw [pushed] at followed ⊢
    rw [reachFrom, dif_pos old]
    exact ih fun found seen target leads =>
      knownOld (List.contains_iff_mem.mp old) (followed found seen target leads)
  | case3 seen id stack new o stored ih =>
    rw [pushed] at followed ⊢
    have known : table.contains id = true := by rw [contains, stored]; rfl
    have leads : table.targets id = o.value.refs := by rw [targets, stored]
    have next := followedPut followed
    rw [leads, ← List.flatMap_cons] at next
    rw [reachFrom, dif_neg new, dif_pos known, leads, ← List.flatMap_cons]
    exact ih next
  | case4 seen id stack new outside ih =>
    rw [pushed] at followed ⊢
    have unknown : ¬ table.contains id = true := by rw [contains, outside]; exact nofun
    have next := followedPut followed
    rw [targetsOutside unknown, List.nil_append] at next
    rw [reachFrom, dif_neg new, dif_neg unknown]
    exact ih next
  | case5 seen v stack container ih =>
    have shuffled : ∀ id, id ∈ (v :: stack).flatMap Value.refs ↔
        id ∈ (v.parts.reverse.map Prod.snd ++ stack).flatMap Value.refs := by
      intro id
      rw [List.flatMap_cons, Value.refsParts container, List.flatMap_append, List.flatMap_map]
      simp only [List.mem_append, List.mem_flatMap, List.mem_reverse]
    rw [reachFromSame followed shuffled]
    exact ih fun found seen target leads =>
      (followed found seen target leads).imp_right (shuffled target).mp

end Table

namespace Store

theorem dependenciesExact (s : Store) (root : Value) :
    s.dependencies root = (s.objects.search .empty [root]).items ∧
      (s.dependencies root).Pairwise (fun a b => a.rank < b.rank) ∧
      ∀ id, id ∈ s.dependencies root ↔ s.objects.Reached (fun first => root.Names first) id := by
  refine ⟨?_, (s.objects.reach root).ascending, fun id => Table.findsIff (s.objects.reachFinds root)⟩
  have nothing : s.objects.Followed .empty ([root].flatMap Value.refs) :=
    fun id found => absurd found List.not_mem_nil
  rw [Table.searchReach _ _ _ nothing, List.flatMap_singleton]
  rfl

end Store
end PdfBody
