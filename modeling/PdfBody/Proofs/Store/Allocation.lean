import Mathlib.Order.Bounds.Defs
import PdfBody.Proofs.Store.Numbering

/-! Which id an allocation deals out: of pooled ids the least, and where none may be taken the least number
beyond the count that is not retired. The search for that number passes over retired ones only and has
tries enough to come to the last, so it ends at an open number unless the last one is retired too. -/
namespace PdfBody

instance : LE ObjId where
  le a b := a.number < b.number ∨ a.number = b.number ∧ a.generation ≤ b.generation

theorem ObjId.leIff {a b : ObjId} :
    a ≤ b ↔ a.number < b.number ∨ a.number = b.number ∧ a.generation ≤ b.generation := .rfl

theorem ObjId.leRank {a b : ObjId} : a ≤ b ↔ a.rank ≤ b.rank := by
  have first := a.generation.toNat_lt
  have second := b.generation.toNat_lt
  rw [leIff, UInt32.lt_iff_toNat_lt, ← UInt32.toNat_inj, UInt16.le_iff_toNat_le, rank, rank]
  omega

theorem IdSet.firstLeast {ids : IdSet} {id : ObjId} {rest : List ObjId}
    (first : ids.items = id :: rest) : IsLeast {other | other ∈ ids.items} id := by
  have ascending := ids.ascending
  rw [first] at ascending ⊢
  refine ⟨List.mem_cons_self, fun other found => ObjId.leRank.mpr ?_⟩
  rcases List.mem_cons.mp found with rfl | later
  · exact Nat.le_refl _
  · exact Nat.le_of_lt (List.rel_of_pairwise_cons ascending later)

namespace Numbering

variable {n : Numbering} {number : UInt32} {retired : NumberSet}

def OpenFrom (retired : NumberSet) (number : UInt32) : Set UInt32 :=
  {other | number ≤ other ∧ NumberSet.contains other retired = false}

theorem nextLeIff (below : number < last) {other : UInt32} : number + 1 ≤ other ↔ number < other := by
  rw [UInt32.le_iff_toNat_le, UInt32.lt_iff_toNat_lt, nextNumber below]
  exact Nat.succ_le_iff

theorem openFromNext (below : number < last) (gone : NumberSet.contains number retired = true) :
    OpenFrom retired (number + 1) = OpenFrom retired number := by
  ext other
  refine and_congr_left fun unretired => ?_
  have different : number ≠ other := by
    rintro rfl
    rw [gone] at unretired
    cases unretired
  rw [nextLeIff below]
  exact ⟨UInt32.le_of_lt, fun from' => UInt32.lt_of_le_of_ne from' different⟩

theorem openLast (opens : (OpenFrom retired last).Nonempty) :
    NumberSet.contains last retired = false := by
  obtain ⟨other, from', unretired⟩ := opens
  rwa [reachedLast (UInt32.le_iff_toNat_le.mp from')] at unretired

theorem lastOpens (spare : NumberSet.contains last retired = false) :
    (OpenFrom retired number).Nonempty :=
  ⟨last, UInt32.le_iff_toNat_le.mpr (leLast number), spare⟩

theorem firstOpenLeast (opens : (OpenFrom retired number).Nonempty) {tries : Nat}
    (enough : last.toNat ≤ number.toNat + tries) :
    IsLeast (OpenFrom retired number) (firstOpen retired number tries) := by
  -- on the tries left: the one that is used up brings the number one nearer to the last
  induction tries generalizing number with
  | zero =>
    rw [reachedLast enough] at opens ⊢
    exact ⟨⟨UInt32.le_refl _, openLast opens⟩, fun _ found => found.1⟩
  | succ tries ih =>
    unfold firstOpen
    split
    · next skipped =>
      have next := nextNumber skipped.1
      rw [← openFromNext skipped.1 skipped.2] at opens ⊢
      exact ih opens (by omega)
    · next stays =>
      refine ⟨⟨UInt32.le_refl _, ?_⟩, fun _ found => found.1⟩
      rcases Nat.lt_or_ge number.toNat last.toNat with below | reached
      · exact eq_false_of_ne_true fun again => stays ⟨UInt32.lt_iff_toNat_lt.mpr below, again⟩
      · rw [reachedLast reached] at opens ⊢
        exact openLast opens

theorem soughtLeast (opens : (OpenFrom n.retired (after n.count)).Nonempty) :
    IsLeast (OpenFrom n.retired (after n.count)) n.sought := by
  refine firstOpenLeast opens ?_
  have bound := last.toNat_lt
  simp only [UInt32.size]
  omega

/-- Wherever the program's search ends, the search here ends at the same number. -/
theorem soughtUnlessEndless (empty : n.reuse = false ∨ n.pool.items = []) (ends : ¬ n.Endless) :
    IsLeast (OpenFrom n.retired (after n.count)) n.sought := by
  refine soughtLeast (Classical.byContradiction fun none => ends ⟨empty, fun number from' => ?_⟩)
  exact eq_true_of_ne_false fun unretired => none ⟨number, from', unretired⟩

theorem openBeyond (below : n.count < last) :
    OpenFrom n.retired (after n.count) =
      {number | n.count < number ∧ n.isRetired number = false} := by
  ext other
  rw [afterBelow below]
  exact and_congr_left fun _ => nextLeIff below

theorem allocateLeast (n : Numbering) (below : n.count < last) (spare : n.isRetired last = false) :
    (n.reuse = true → n.pool.items ≠ [] →
      ∃ id pool, IsLeast {free | free ∈ n.pool.items} id ∧
        (∀ free, free ∈ pool.items ↔ free ∈ n.pool.items ∧ free ≠ id) ∧
        n.allocate = (.ok id, n.withPool pool)) ∧
    (n.reuse = false ∨ n.pool.items = [] →
      ∃ number, IsLeast {other | n.count < other ∧ n.isRetired other = false} number ∧
        n.allocate = (if number ≤ n.maxNumber then .ok ⟨number, 0⟩
          else .error (.outOfRange s!"Reached the maximum number of indirect objects ({n.maxNumber})"),
          n)) := by
  constructor
  · intro on filled
    have offered : ¬ (n.reuse = false ∨ n.pool.items = []) := by simp [on, filled]
    obtain ⟨id, pool, -, first, allocates⟩ := allocatePooled offered
    exact ⟨id, pool, IdSet.firstLeast first, fun _ => memRest first, allocates⟩
  · intro empty
    refine ⟨n.sought, openBeyond below ▸ soughtLeast (lastOpens spare), ?_⟩
    rw [allocateEmpty empty]
    simp only [← UInt32.not_le, ite_not]

theorem lowestDealtOut :
    let n := (((make true 65535 9).addFree ⟨7, 2⟩).2.addFree ⟨3, 1⟩).2.reserve 8
    let off := n.setReuse false
    (n.count < last ∧ n.isRetired last = false ∧ n.pool.items = [⟨3, 1⟩, ⟨7, 2⟩] ∧
      ∃ pool, (∀ free, free ∈ pool.items ↔ free = ⟨7, 2⟩) ∧
        n.allocate = (.ok ⟨3, 1⟩, n.withPool pool)) ∧
    off.count < last ∧ off.isRetired last = false ∧ off.allocate = (.ok ⟨9, 0⟩, off) := by
  intro n off
  have pooled : n.pool.items = [⟨3, 1⟩, ⟨7, 2⟩] := rfl
  refine ⟨⟨by decide, rfl, pooled, ?_⟩, by decide, rfl, ?_⟩
  · obtain ⟨id, pool, least, left, allocates⟩ :=
      (allocateLeast n (by decide) rfl).1 rfl (pooled ▸ List.cons_ne_nil _ _)
    have stored : id ∈ n.pool.items := least.1
    have among : id = ⟨3, 1⟩ ∨ id = ⟨7, 2⟩ := by simpa [pooled] using stored
    have lowest : id ≤ ⟨3, 1⟩ := least.2 (pooled ▸ List.mem_cons_self)
    obtain rfl : id = ⟨3, 1⟩ := among.resolve_right fun higher => by
      rw [higher, ObjId.leIff] at lowest
      exact absurd lowest (by decide)
    refine ⟨pool, fun free => (left free).trans ?_, allocates⟩
    rw [pooled]
    constructor
    · rintro ⟨found, other⟩
      exact List.mem_singleton.mp ((List.mem_cons.mp found).resolve_left other)
    · rintro rfl
      exact ⟨by simp, by decide⟩
  · obtain ⟨number, ⟨open', least⟩, allocates⟩ := (allocateLeast off (by decide) rfl).2 (.inl rfl)
    have beyond : 7 < number := open'.1
    have most : number ≤ 9 := least ⟨by decide, rfl⟩
    have other : number ≠ 8 := by
      rintro rfl
      cases open'.2
    obtain rfl : number = 9 := by grind
    exact allocates

end Numbering
end PdfBody
