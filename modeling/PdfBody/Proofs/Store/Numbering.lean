import PdfBody.Store.Collect

/-! What each operation on the free ids does to the pool and to the count. An id that is given back may
be pooled, and then it is the only one that joins the pool; all else leaves it as it is or smaller. -/
namespace PdfBody.Numbering

variable {n m : Numbering} {id : ObjId} {number : UInt32}

def Idle (n : Numbering) : Prop := n.reuse = false → n.pool.items = []

structure Later (n m : Numbering) : Prop where
  maxGeneration : m.maxGeneration = n.maxGeneration
  maxNumber : m.maxNumber = n.maxNumber
  count : n.count.toNat ≤ m.count.toNat
  idle : n.Idle → m.Idle

theorem Later.refl (n : Numbering) : Later n n := ⟨rfl, rfl, Nat.le_refl _, fun idle => idle⟩

theorem Later.trans {n m l : Numbering} (first : Later n m) (second : Later m l) : Later n l where
  maxGeneration := second.maxGeneration.trans first.maxGeneration
  maxNumber := second.maxNumber.trans first.maxNumber
  count := Nat.le_trans first.count second.count
  idle := fun idle => second.idle (first.idle idle)

structure Returned (n : Numbering) (number : UInt32) (pooled : Option ObjId) (m : Numbering) :
    Prop where
  reuse : m.reuse = n.reuse
  maxGeneration : m.maxGeneration = n.maxGeneration
  maxNumber : m.maxNumber = n.maxNumber
  count : n.count.toNat ≤ m.count.toNat ∧ m.count.toNat ≤ max n.count.toNat number.toNat
  pool : ∀ free ∈ m.pool.items, free ∈ n.pool.items ∨ pooled = some free
  taken : ∀ free, pooled = some free → free.number = number ∧ free ∈ m.pool.items ∧ n.reuse = true

theorem returnedLater {pooled : Option ObjId} (returned : Returned n number pooled m) : Later n m where
  maxGeneration := returned.maxGeneration
  maxNumber := returned.maxNumber
  count := returned.count.1
  idle idle off := by
    rw [returned.reuse] at off
    refine List.eq_nil_iff_forall_not_mem.mpr fun free found => ?_
    rcases returned.pool free found with old | new
    · rw [idle off] at old
      exact List.not_mem_nil old
    · rw [(returned.taken free new).2.2] at off
      cases off

theorem memClaim : id ∈ (n.claim number).pool.items ↔ id ∈ n.pool.items ∧ id.number ≠ number := by
  simp [claim, withPool, Ordered.keep]

theorem memClaimAll {numbers : List UInt32} :
    id ∈ (n.claimAll numbers).pool.items ↔ id ∈ n.pool.items ∧ id.number ∉ numbers := by
  simp [claimAll, withPool, Ordered.keep]

theorem coverCount (n : Numbering) (id : ObjId) :
    (n.cover id).2.count.toNat = max n.count.toNat id.number.toNat := by
  unfold cover
  split
  · next less =>
    have := UInt32.lt_iff_toNat_lt.mp less
    simp only [withCount]
    omega
  · next notLess =>
    have := mt UInt32.lt_iff_toNat_lt.mpr notLess
    dsimp only
    omega

theorem coverRest (n : Numbering) (id : ObjId) :
    (n.cover id).2 = n.withCount (n.cover id).2.count := by
  unfold cover
  split <;> rfl

theorem coverPool (n : Numbering) (id : ObjId) : (n.cover id).2.pool = n.pool := by
  rw [coverRest]
  rfl

theorem coverReturned (n : Numbering) (id : ObjId) : Returned n id.number none (n.cover id).2 := by
  have count := coverCount n id
  rw [coverRest]
  refine ⟨rfl, rfl, rfl, ?_, fun free found => .inl found, fun free found => nomatch found⟩
  simp only [withCount]
  omega

theorem reserveReturned (n : Numbering) (number : UInt32) :
    Returned n number none (n.reserve number) where
  reuse := rfl
  maxGeneration := rfl
  maxNumber := rfl
  count := ⟨Nat.le_refl _, Nat.le_max_left _ _⟩
  pool _ found := .inl (memClaim.mp found).1
  taken _ found := nomatch found

theorem addFreeReturned (n : Numbering) (id : ObjId) :
    Returned n id.number (if (n.addFree id).1 then some id else none) (n.addFree id).2 := by
  have covered := coverReturned n id
  unfold addFree
  dsimp only
  split
  · exact covered
  · next open' =>
    have on : (n.cover id).2.reuse = true := by
      simp only [Bool.or_eq_true, Bool.not_eq_true', not_or, Bool.not_eq_false] at open'
      exact open'.1
    refine ⟨covered.reuse, covered.maxGeneration, covered.maxNumber, covered.count, ?_, ?_⟩
    · intro free found
      rcases IdSet.memPlace.mp found with rfl | old
      · exact .inr rfl
      · exact (covered.pool free old).imp_right nofun
    · rintro free ⟨⟩
      exact ⟨rfl, IdSet.memPlace.mpr (.inl rfl), covered.reuse ▸ on⟩

theorem offerReturned (n : Numbering) (id : ObjId) :
    Returned n id.number (if (n.offer id).1 then some id else none) (n.offer id).2 := by
  unfold offer
  split
  · exact reserveReturned n id.number
  · exact addFreeReturned n id

theorem offerYoung (pooled : (n.offer id).1 = true) : id.generation < n.maxGeneration := by
  unfold offer at pooled
  split at pooled
  · cases pooled
  · next young => exact UInt16.not_le.mp young

theorem releaseReturned (n : Numbering) (id : ObjId) :
    Returned n id.number ((n.release id).1.map (ObjId.mk id.number)) (n.release id).2 := by
  unfold release
  split
  · exact reserveReturned n id.number
  · have offered := offerReturned n ⟨id.number, id.generation + 1⟩
    dsimp only
    split at offered
    · next pooled =>
      rw [if_pos pooled]
      exact offered
    · next refused =>
      rw [if_neg refused]
      exact offered

theorem releaseNext {generation : UInt16} (pooled : (n.release id).1 = some generation) :
    generation.toNat = id.generation.toNat + 1 ∧ generation < n.maxGeneration := by
  unfold release at pooled
  split at pooled
  · cases pooled
  · next notLast =>
    dsimp only at pooled
    split at pooled
    · next taken =>
      cases pooled
      refine ⟨?_, offerYoung taken⟩
      have bound := id.generation.toNat_lt
      have other : id.generation.toNat ≠ 0xFFFF := fun same => notLast (UInt16.toNat_inj.mp same)
      rw [UInt16.toNat_add]
      simp only [UInt16.toNat_one]
      omega
    · cases pooled

theorem nextNumber (below : number < last) : (number + 1).toNat = number.toNat + 1 := by
  have less := UInt32.lt_iff_toNat_lt.mp below
  rw [UInt32.toNat_add]
  simp only [last, UInt32.toNat_ofNat] at less ⊢
  omega

theorem afterBelow (below : number < last) : after number = number + 1 :=
  if_neg (UInt32.ne_of_lt below)

theorem afterCount (below : number < last) : (after number).toNat = number.toNat + 1 := by
  rw [afterBelow below, nextNumber below]

theorem leLast (number : UInt32) : number.toNat ≤ last.toNat := Nat.le_of_lt_succ number.toNat_lt

theorem reachedLast (reached : last.toNat ≤ number.toNat) : number = last := by
  have bound := number.toNat_lt
  rw [← UInt32.toNat_inj]
  simp only [last, UInt32.toNat_ofNat] at reached ⊢
  omega

theorem countedLast {count number : UInt32} (beyond : (after count).toNat ≤ number.toNat)
    (counted : number.toNat ≤ count.toNat) : number = last := by
  have full : count = last := by
    rcases Nat.lt_or_ge count.toNat last.toNat with below | reached
    · have := afterCount (UInt32.lt_iff_toNat_lt.mpr below)
      omega
    · exact reachedLast reached
  subst full
  exact UInt32.toNat_inj.mp (Nat.le_antisymm counted beyond)

theorem firstOpenLast (retired : NumberSet) (tries : Nat) :
    firstOpen retired last tries = last := by
  cases tries with
  | zero => rfl
  | succ tries => exact if_neg fun skipped => UInt32.lt_irrefl _ skipped.1

theorem firstOpenFrom (retired : NumberSet) (number : UInt32) (tries : Nat) :
    number.toNat ≤ (firstOpen retired number tries).toNat := by
  induction tries generalizing number with
  | zero => exact Nat.le_refl _
  | succ tries ih =>
    unfold firstOpen
    split
    · next skipped =>
      have next := nextNumber skipped.1
      exact Nat.le_trans (by omega) (ih (number + 1))
    · exact Nat.le_refl _

inductive Allocated (n : Numbering) : Except Fault ObjId → Numbering → Prop where
  | pooled {id : ObjId} {pool : IdSet} (on : n.reuse = true)
      (first : n.pool.items = id :: pool.items) : Allocated n (.ok id) (n.withPool pool)
  | fresh {number : UInt32} (empty : n.reuse = false ∨ n.pool.items = [])
      (within : number ≤ n.maxNumber) (beyond : (after n.count).toNat ≤ number.toNat) :
      Allocated n (.ok ⟨number, 0⟩) n
  | full {text : String} (empty : n.reuse = false ∨ n.pool.items = []) :
      Allocated n (.error (.outOfRange text)) n

theorem takeFirstSome {pool rest : IdSet} (taken : pool.takeFirst = some (id, rest)) :
    pool.items = id :: rest.items := by
  unfold Ordered.takeFirst at taken
  split at taken
  · cases taken
  · next items =>
    cases taken
    exact items

theorem memRest {pool : IdSet} {rest : List ObjId} (first : pool.items = id :: rest) {free : ObjId} :
    free ∈ rest ↔ free ∈ pool.items ∧ free ≠ id := by
  have ascending := pool.ascending
  rw [first] at ascending ⊢
  constructor
  · intro remains
    refine ⟨List.mem_cons_of_mem _ remains, ?_⟩
    rintro rfl
    exact Nat.lt_irrefl _ (List.rel_of_pairwise_cons ascending remains)
  · rintro ⟨among, other⟩
    exact (List.mem_cons.mp among).resolve_left other

theorem takeFirstNone {pool : IdSet} : pool.takeFirst = none ↔ pool.items = [] := by
  unfold Ordered.takeFirst
  split
  · next empty => exact iff_of_true rfl empty
  · next items => exact iff_of_false nofun fun empty => nomatch items.symm.trans empty

theorem allocatePooled (filled : ¬ (n.reuse = false ∨ n.pool.items = [])) :
    ∃ id pool, n.reuse = true ∧ n.pool.items = id :: pool.items ∧
      n.allocate = (.ok id, n.withPool pool) := by
  obtain ⟨on, some⟩ := not_or.mp filled
  have on := eq_true_of_ne_false on
  cases taken : n.pool.takeFirst with
  | none => exact absurd (takeFirstNone.mp taken) some
  | some pair =>
    refine ⟨pair.1, pair.2, on, takeFirstSome taken, ?_⟩
    unfold allocate
    rw [if_pos on, taken]

def sought (n : Numbering) : UInt32 := firstOpen n.retired (after n.count) UInt32.size

theorem allocateEmpty (empty : n.reuse = false ∨ n.pool.items = []) :
    n.allocate = (if n.maxNumber < n.sought then
        .error (.outOfRange s!"Reached the maximum number of indirect objects ({n.maxNumber})")
      else .ok ⟨n.sought, 0⟩, n) := by
  have none : (if n.reuse then n.pool.takeFirst else none) = none := by
    rcases empty with off | empty
    · rw [off]
      rfl
    · rw [takeFirstNone.mpr empty, ite_self]
  unfold allocate sought
  rw [none]
  dsimp only
  split <;> rfl

theorem allocated (n : Numbering) : Allocated n n.allocate.1 n.allocate.2 := by
  by_cases empty : n.reuse = false ∨ n.pool.items = []
  · rw [allocateEmpty empty]
    dsimp only
    split
    · exact .full empty
    · next within => exact .fresh empty (UInt32.not_lt.mp within) (firstOpenFrom _ _ _)
  · obtain ⟨id, pool, on, first, allocates⟩ := allocatePooled empty
    rw [allocates]
    exact .pooled on first

theorem keepLater (n : Numbering) (test : ObjId → Bool) :
    Later n (n.withPool (n.pool.keep test)) where
  maxGeneration := rfl
  maxNumber := rfl
  count := Nat.le_refl _
  idle idle off := by
    have empty : n.pool.items = [] := idle off
    simp [withPool, Ordered.keep, empty]

theorem claimLater (n : Numbering) (number : UInt32) : Later n (n.claim number) := keepLater n _

theorem claimAllLater (n : Numbering) (numbers : List UInt32) : Later n (n.claimAll numbers) :=
  keepLater n _

theorem setReuseLater (n : Numbering) (reuse : Bool) : Later n (n.setReuse reuse) where
  maxGeneration := rfl
  maxNumber := rfl
  count := Nat.le_refl _
  idle _ off := by
    simp only [setReuse] at off ⊢
    rw [off]
    rfl

theorem allocatedLater {outcome : Except Fault ObjId} (allocated : Allocated n outcome m) :
    Later n m := by
  cases allocated with
  | pooled on first =>
    exact ⟨rfl, rfl, Nat.le_refl _, fun _ off => nomatch on.symm.trans off⟩
  | fresh | full => exact .refl n

theorem releaseAllLater (ids : List ObjId) (n : Numbering) : Later n (Store.releaseAll ids n) := by
  induction ids generalizing n with
  | nil => exact .refl n
  | cons id ids ih => exact (returnedLater (releaseReturned n id)).trans (ih _)

end PdfBody.Numbering
