import PdfBody.Proofs.Store.Retired

/-! Which ids a collection leaves free. Each object that goes is given up by itself, so that a number of
which several objects go may be free in several generations, and those of removed objects among them. -/
namespace PdfBody

namespace ObjId

def next (id : ObjId) : ObjId := ⟨id.number, id.generation + 1⟩

theorem nextInjective {a b : ObjId} (same : a.next = b.next) : a = b := by
  obtain ⟨number, generation⟩ := ObjId.mk.inj same
  exact congrArg₂ ObjId.mk number ((UInt16.add_left_inj 1).mp generation)

theorem nextOther (id : ObjId) : id.next ≠ id := by
  intro same
  have generation := congrArg UInt16.toNat (ObjId.mk.inj same).2
  have bound := id.generation.toNat_lt
  rw [UInt16.toNat_add, UInt16.toNat_one] at generation
  omega

end ObjId

namespace Numbering

variable {n : Numbering} {id free : ObjId}

theorem memAddFree : free ∈ (n.addFree id).2.pool.items ↔
    free ∈ n.pool.items ∨ n.reuse = true ∧ n.isRetired id.number = false ∧ free = id := by
  have reuse : (n.cover id).2.reuse = n.reuse := (n.coverReturned id).reuse
  have retired : (n.cover id).2.isRetired id.number = n.isRetired id.number := by
    rw [isRetired, coverRetired, isRetired]
  unfold addFree
  dsimp only
  rw [reuse, retired]
  split
  · next closed =>
    rw [coverPool]
    refine (or_iff_left ?_).symm
    rintro ⟨on, unretired, -⟩
    rw [on, unretired] at closed
    cases closed
  · next opened =>
    simp only [Bool.or_eq_true, Bool.not_eq_true', not_or, Bool.not_eq_false, Bool.not_eq_true] at opened
    refine IdSet.memPlace.trans ?_
    rw [coverPool, or_comm]
    exact or_congr_right ⟨fun same => ⟨opened.1, opened.2, same⟩, fun added => added.2.2⟩

theorem memRelease : free ∈ (n.release id).2.pool.items ↔
    ¬ (id.number = free.number ∧ n.Spent id) ∧ (free ∈ n.pool.items ∨
      n.reuse = true ∧ n.isRetired free.number = false ∧ free = id.next) := by
  by_cases spent : n.Spent id
  · have reserved : (n.release id).2 = n.reserve id.number := by
      unfold release offer
      rcases spent with last | old
      · rw [if_pos last]
      · split
        · rfl
        · dsimp only
          rw [if_pos old]
    have reservedFree : free ∈ (n.reserve id.number).pool.items ↔
        free ∈ n.pool.items ∧ free.number ≠ id.number := memClaim
    rw [reserved, reservedFree, and_comm]
    constructor
    · rintro ⟨other, pooled⟩
      exact ⟨fun same => other same.1.symm, .inl pooled⟩
    · rintro ⟨other, pooled | ⟨-, -, rfl⟩⟩
      · exact ⟨fun same => other ⟨same.symm, spent⟩, pooled⟩
      · exact absurd ⟨rfl, spent⟩ other
  · have added : (n.release id).2 = (n.addFree id.next).2 := by
      obtain ⟨more, young⟩ := not_or.mp spent
      unfold release offer
      rw [if_neg more]
      dsimp only
      rw [if_neg young]
      rfl
    rw [added, memAddFree, and_iff_right fun both => spent both.2]
    refine or_congr_right (and_congr_right fun _ => ?_)
    constructor <;> rintro ⟨unretired, rfl⟩ <;> exact ⟨unretired, rfl⟩

theorem memReleaseAll {ids : List ObjId} : free ∈ (Store.releaseAll ids n).pool.items ↔
    (∀ old ∈ ids, old.number = free.number → ¬ n.Spent old) ∧ (free ∈ n.pool.items ∨
      n.reuse = true ∧ n.isRetired free.number = false ∧ ∃ old ∈ ids, free = old.next) := by
  induction ids generalizing n with
  | nil => simp [Store.releaseAll]
  | cons id ids ih =>
    have returned := n.releaseReturned id
    have spent (other : ObjId) : (n.release id).2.Spent other ↔ n.Spent other := by
      unfold Spent
      rw [returned.maxGeneration]
    have unretired : (n.release id).2.isRetired free.number = false ↔
        n.isRetired free.number = false ∧ ¬ (id.number = free.number ∧ n.Spent id) := by
      rw [Bool.eq_false_iff, ne_eq, releaseRetired, not_or, ← ne_eq, ← Bool.eq_false_iff,
        @eq_comm _ free.number]
    have later : Store.releaseAll (id :: ids) n = Store.releaseAll ids (n.release id).2 := rfl
    rw [later, ih, memRelease, returned.reuse, unretired]
    simp only [spent, List.mem_cons, forall_eq_or_imp, exists_eq_or_imp, not_and]
    constructor
    · rintro ⟨behind, ⟨here, pooled | ⟨on, unretired, new⟩⟩ | ⟨on, ⟨unretired, here⟩, new⟩⟩
      · exact ⟨⟨here, behind⟩, .inl pooled⟩
      · exact ⟨⟨here, behind⟩, .inr ⟨on, unretired, .inl new⟩⟩
      · exact ⟨⟨here, behind⟩, .inr ⟨on, unretired, .inr new⟩⟩
    · rintro ⟨⟨here, behind⟩, pooled | ⟨on, unretired, new | new⟩⟩
      · exact ⟨behind, .inl ⟨here, .inl pooled⟩⟩
      · exact ⟨behind, .inl ⟨here, .inr ⟨on, unretired, new⟩⟩⟩
      · exact ⟨behind, .inr ⟨on, ⟨unretired, here⟩, new⟩⟩

end Numbering

namespace Store

variable {s : Store} {root : Value} {kept : IdSet} {free id : ObjId} {number : UInt32}

theorem collectFree : free ∈ (s.collect root kept).2.freeIds ↔
    (∀ id ∈ s.ids, id.number = free.number → ¬ s.Alive root kept id ∧ ¬ s.numbering.Spent id) ∧
      (free ∈ s.freeIds ∨ s.numbering.reuse = true ∧ s.numbering.isRetired free.number = false ∧
        ∃ id ∈ s.ids, free = id.next) := by
  have survivors : free.number ∉ (s.collect root kept).2.ids.map ObjId.number ↔
      ∀ id ∈ s.ids, id.number = free.number → ¬ s.Alive root kept id := by
    simp only [collectIds, List.mem_map, List.mem_filter, reachWithAlive]
    exact ⟨fun unused id stored same alive => unused ⟨id, ⟨stored, alive⟩, same⟩,
      fun gone ⟨id, ⟨stored, alive⟩, same⟩ => gone id stored same alive⟩
  refine (Numbering.memClaimAll.trans (and_congr_right fun _ => survivors)).trans ?_
  rw [Numbering.memReleaseAll]
  simp only [List.mem_filter, Bool.not_eq_true', Bool.eq_false_iff, ne_eq, reachWithAlive]
  constructor
  · rintro ⟨⟨unspent, pooled⟩, gone⟩
    refine ⟨fun id stored same => ⟨gone id stored same, ?_⟩, pooled.imp_right ?_⟩
    · exact unspent id ⟨stored, gone id stored same⟩ same
    · rintro ⟨on, unretired, id, ⟨stored, -⟩, new⟩
      exact ⟨on, unretired, id, stored, new⟩
  · rintro ⟨given, pooled⟩
    refine ⟨⟨fun id stored same => (given id stored.1 same).2, pooled.imp_right ?_⟩,
      fun id stored same => (given id stored same).1⟩
    rintro ⟨on, unretired, id, stored, rfl⟩
    exact ⟨on, unretired, id, ⟨stored, (given id stored rfl).1⟩, rfl⟩

def FreeOnce (s : Store) : Prop := ∀ a ∈ s.freeIds, ∀ b ∈ s.freeIds, a.number = b.number → a = b

/-- Several objects have the number, the collection removes them all, and the number may be used again. -/
structure Crowded (root : Value) (kept : IdSet) (s : Store) (number : UInt32) : Prop where
  several : ∃ a ∈ s.ids, ∃ b ∈ s.ids, a ≠ b ∧ a.number = number ∧ b.number = number
  given : ∀ id ∈ s.ids, id.number = number → ¬ s.Alive root kept id ∧ ¬ s.numbering.Spent id
  reuse : s.numbering.reuse = true
  unretired : s.numbering.isRetired number = false

theorem crowdedFree (crowded : s.Crowded root kept number) (stored : id ∈ s.ids)
    (same : id.number = number) : id.next ∈ (s.collect root kept).2.freeIds := by
  subst same
  exact collectFree.mpr ⟨crowded.given, .inr ⟨crowded.reuse, crowded.unretired, id, stored, rfl⟩⟩

theorem crowdedTwice (crowded : s.Crowded root kept number) :
    ¬ (s.collect root kept).2.FreeOnce := by
  intro once
  obtain ⟨a, stored, b, storedToo, different, rfl, same⟩ := crowded.several
  exact different (ObjId.nextInjective (once _ (crowdedFree crowded stored rfl) _
    (crowdedFree crowded storedToo same) same.symm))

theorem newlyFree (apart : s.Apart) (found : free ∈ (s.collect root kept).2.freeIds)
    (stored : id ∈ s.ids) (same : id.number = free.number) :
    s.numbering.reuse = true ∧ s.numbering.isRetired free.number = false ∧
      ∃ old ∈ s.ids, free = old.next := by
  obtain ⟨-, pooled⟩ := collectFree.mp found
  exact pooled.resolve_left fun old => apart free old id stored same.symm

theorem pairCrowded (apart : s.Apart) (found : free ∈ (s.collect root kept).2.freeIds) {a b : ObjId}
    (first : a ∈ s.ids) (second : b ∈ s.ids) (different : a ≠ b) (same : a.number = free.number)
    (sameToo : b.number = free.number) : s.Crowded root kept free.number := by
  obtain ⟨reuse, unretired, -⟩ := newlyFree apart found first same
  exact ⟨⟨a, first, b, second, different, same, sameToo⟩, (collectFree.mp found).1, reuse, unretired⟩

section

variable (apart : s.Apart) (uncrowded : ∀ number, ¬ s.Crowded root kept number)

include apart uncrowded

theorem uncrowdedOnce (once : s.FreeOnce) : (s.collect root kept).2.FreeOnce := by
  intro a first b second same
  -- an id that was free before has no number of a stored object, and so none of a newly free id
  rcases (collectFree.mp first).2 with old | ⟨-, -, x, stored, rfl⟩
  · rcases (collectFree.mp second).2 with oldToo | ⟨-, -, y, stored, rfl⟩
    · exact once a old b oldToo same
    · exact absurd same (apart a old y stored)
  · obtain ⟨-, -, y, storedToo, rfl⟩ := newlyFree apart second stored same
    by_contra different
    refine uncrowded _ (pairCrowded apart first stored storedToo ?_ rfl same.symm)
    rintro rfl
    exact different rfl

theorem uncrowdedUnused (found : free ∈ (s.collect root kept).2.freeIds) : free ∉ s.ids := by
  intro stored
  obtain ⟨-, -, old, storedToo, next⟩ := newlyFree apart found stored rfl
  have different : free ≠ old := fun same => old.nextOther (next.symm.trans same)
  have same : old.number = free.number := by rw [next, ObjId.next]
  exact uncrowded _ (pairCrowded apart found stored storedToo different rfl same)

theorem uncrowdedCreated (covered : ∀ id ∈ s.ids, id.number ≤ s.numbering.count) {value : Value}
    (issued : ((s.collect root kept).2.create value).1 = .ok id)
    (earlier : id.number ≠ Numbering.last) : id ∉ s.ids := by
  have made := created (s.collect root kept).2 value
  rw [issued] at made
  generalize ((s.collect root kept).2.create value).2 = final at made
  cases made with
  | placed allocated new =>
    cases allocated with
    | pooled on first =>
      have free : (s.collect root kept).2.freeIds = _ :: _ := first
      exact uncrowdedUnused apart uncrowded (free ▸ List.mem_cons_self)
    | fresh empty within beyond =>
      intro stored
      refine earlier (Numbering.countedLast beyond (Nat.le_trans ?_ (collectLater s root kept).count))
      exact UInt32.le_iff_toNat_le.mp (covered _ stored)

end

theorem nothingAlive : ¬ s.Alive .null .empty id := by
  intro alive
  induction alive with
  | start first =>
    rcases first with names | held
    · cases names
    · cases held
  | step found stored names ih => exact ih

theorem freeUnusedUnlessCrowded (apart : s.Apart) (once : s.FreeOnce) (root : Value) (kept : IdSet) :
    let after := (s.collect root kept).2
    ((after.FreeOnce ∧ ∀ free ∈ after.freeIds, free ∉ s.ids) ↔
        ∀ number, ¬ s.Crowded root kept number) ∧
      (∀ number, s.Crowded root kept number →
        ∀ id ∈ s.ids, id.number = number → id.next ∈ after.freeIds) ∧
      ((∀ number, ¬ s.Crowded root kept number) →
        (∀ id ∈ s.ids, id.number ≤ s.numbering.count) →
          ∀ value id, (after.create value).1 = .ok id → id.number ≠ Numbering.last → id ∉ s.ids) := by
  refine ⟨⟨fun unused number crowded => crowdedTwice crowded unused.1, fun uncrowded => ⟨?_, ?_⟩⟩,
    fun number crowded id stored => crowdedFree crowded stored,
    fun uncrowded covered value id => uncrowdedCreated apart uncrowded covered⟩
  · exact uncrowdedOnce apart uncrowded once
  · exact fun free => uncrowdedUnused apart uncrowded

theorem pushedUnused :
    let s := (make .storing .standard).after [.push ⟨5, 0⟩ .null, .push ⟨6, 0⟩ .null, .addFree ⟨3, 2⟩]
    let after := (s.collect .null .empty).2
    s.freeIds = [⟨3, 2⟩] ∧ s.Apart ∧ s.FreeOnce ∧ ⟨5, 1⟩ ∈ after.freeIds ∧ after.FreeOnce ∧
      ∀ free ∈ after.freeIds, free ∉ s.ids := by
  intro s after
  have apart : s.Apart := by
    unfold Apart
    decide
  have once : s.FreeOnce := by
    unfold FreeOnce
    decide
  have single : ∀ a ∈ s.ids, ∀ b ∈ s.ids, a.number = b.number → a = b := by decide
  have unspent : ∀ id ∈ s.ids, id.number = 5 → ¬ s.numbering.Spent id := by
    unfold Numbering.Spent
    decide
  have added : ⟨5, 1⟩ ∈ after.freeIds := collectFree.mpr
    ⟨fun id stored same => ⟨nothingAlive, unspent id stored same⟩, .inr ⟨rfl, rfl, ⟨5, 0⟩, by decide, rfl⟩⟩
  obtain ⟨unused, -⟩ := freeUnusedUnlessCrowded apart once .null .empty
  refine ⟨rfl, apart, once, added, unused.mpr fun number crowded => ?_⟩
  obtain ⟨a, first, b, second, different, rfl, same⟩ := crowded.several
  exact different (single a first b second same.symm)

theorem usedIdFree : ¬ ∀ (s : Store) (root : Value) (kept : IdSet), s.Apart → s.FreeOnce →
    (s.collect root kept).2.FreeOnce ∧ ∀ free ∈ (s.collect root kept).2.freeIds, free ∉ s.ids := by
  intro always
  let s := (make .storing .standard).after [.push ⟨5, 0⟩ .null, .push ⟨5, 1⟩ .null]
  have crowded : s.Crowded .null .empty 5 := by
    have unspent : ∀ id ∈ s.ids, ¬ s.numbering.Spent id := by
      unfold Numbering.Spent
      decide
    exact ⟨⟨⟨5, 0⟩, by decide, ⟨5, 1⟩, by decide, by decide, rfl, rfl⟩,
      fun id stored _ => ⟨nothingAlive, unspent id stored⟩, rfl, rfl⟩
  exact crowdedTwice crowded (always s .null .empty nofun nofun).1

end Store
end PdfBody
