import PdfBody.Proofs.Store.Allocation
import PdfBody.Proofs.Store.Apart

/-! Numbers that are out of use. A number is retired when it is reserved, and when an id of it is given up
that has no generation left. Nothing but a fresh start puts it back in use: it is not pooled, and no new
object gets it. The last number stands apart: an allocation that has come so far does not pass over it. -/
namespace PdfBody

namespace Numbering

variable {n m : Numbering} {id : ObjId} {number : UInt32}

def Spent (n : Numbering) (id : ObjId) : Prop :=
  id.generation = 0xFFFF ∨ n.maxGeneration ≤ id.generation + 1

theorem reserveRetired {reserved : UInt32} :
    (n.reserve reserved).isRetired number = true ↔ number = reserved ∨ n.isRetired number = true :=
  NumberSet.containsPut

theorem coverRetired (n : Numbering) (id : ObjId) : (n.cover id).2.retired = n.retired := by
  rw [coverRest]
  rfl

theorem addFreeRetired (n : Numbering) (id : ObjId) : (n.addFree id).2.retired = n.retired := by
  unfold addFree
  dsimp only
  split
  · exact n.coverRetired id
  · exact n.coverRetired id

theorem offerRetired : (n.offer id).2.isRetired number = true ↔
    n.isRetired number = true ∨ number = id.number ∧ n.maxGeneration ≤ id.generation := by
  unfold offer
  split
  · next old => rw [reserveRetired, or_comm, and_iff_left old]
  · next young =>
    rw [isRetired, addFreeRetired]
    exact (or_iff_left fun spent => young spent.2).symm

theorem releaseRetired : (n.release id).2.isRetired number = true ↔
    n.isRetired number = true ∨ number = id.number ∧ n.Spent id := by
  unfold release Spent
  split
  · next last => rw [reserveRetired, or_comm, and_iff_left (.inl last)]
  · next more =>
    rw [or_iff_right more]
    exact offerRetired

theorem releaseAllRetired {ids : List ObjId} : (Store.releaseAll ids n).isRetired number = true ↔
    n.isRetired number = true ∨ ∃ id ∈ ids, number = id.number ∧ n.Spent id := by
  induction ids generalizing n with
  | nil => simp [Store.releaseAll]
  | cons id ids ih =>
    have same (other : ObjId) : (n.release id).2.Spent other ↔ n.Spent other := by
      unfold Spent
      rw [(n.releaseReturned id).maxGeneration]
    have later : Store.releaseAll (id :: ids) n = Store.releaseAll ids (n.release id).2 := rfl
    rw [later, ih, releaseRetired, or_assoc]
    simp only [same, List.mem_cons, exists_eq_or_imp]

theorem allocatedRetired {outcome : Except Fault ObjId} (allocated : Allocated n outcome m) :
    m.retired = n.retired := by
  cases allocated <;> rfl

structure Orderly (n : Numbering) : Prop where
  unretired : ∀ free ∈ n.pool.items, n.isRetired free.number = false
  idle : n.Idle
  counted : ∀ free ∈ n.pool.items, free.number.toNat ≤ n.count.toNat

namespace Orderly

theorem empty (none : n.pool.items = []) : n.Orderly where
  unretired _ found := absurd (none ▸ found) List.not_mem_nil
  idle _ := none
  counted _ found := absurd (none ▸ found) List.not_mem_nil

theorem fewer (orderly : n.Orderly) (later : Later n m) (retired : m.retired = n.retired)
    (pool : ∀ free ∈ m.pool.items, free ∈ n.pool.items) : m.Orderly where
  unretired free found := by
    rw [isRetired, retired]
    exact orderly.unretired free (pool free found)
  idle := later.idle orderly.idle
  counted free found := Nat.le_trans (orderly.counted free (pool free found)) later.count

theorem cover (orderly : n.Orderly) (id : ObjId) : (n.cover id).2.Orderly := by
  refine orderly.fewer (returnedLater (n.coverReturned id)) (n.coverRetired id) fun free found => ?_
  rwa [coverPool] at found

theorem reserve (orderly : n.Orderly) (number : UInt32) : (n.reserve number).Orderly where
  unretired free found := by
    obtain ⟨old, other⟩ := memClaim.mp found
    refine Bool.eq_false_iff.mpr fun retired => ?_
    rcases reserveRetired.mp retired with same | before
    · exact other same
    · exact Bool.eq_false_iff.mp (orderly.unretired free old) before
  idle := (returnedLater (n.reserveReturned number)).idle orderly.idle
  counted free found := orderly.counted free (memClaim.mp found).1

theorem addFree (orderly : n.Orderly) (id : ObjId) : (n.addFree id).2.Orderly := by
  have covered := orderly.cover id
  have idle := (returnedLater (n.addFreeReturned id)).idle orderly.idle
  revert idle
  unfold Numbering.addFree
  dsimp only
  split
  · exact fun _ => covered
  · next accepted =>
    simp only [Bool.or_eq_true, not_or, Bool.not_eq_true] at accepted
    intro idle
    refine ⟨fun free found => ?_, idle, fun free found => ?_⟩
    · rcases IdSet.memPlace.mp found with rfl | old
      · exact accepted.2
      · exact covered.unretired free old
    · rcases IdSet.memPlace.mp found with rfl | old
      · exact Nat.le_trans (Nat.le_max_right _ _) (Nat.le_of_eq (n.coverCount free).symm)
      · exact covered.counted free old

theorem offer (orderly : n.Orderly) (id : ObjId) : (n.offer id).2.Orderly := by
  unfold Numbering.offer
  split
  · exact orderly.reserve id.number
  · exact orderly.addFree id

theorem release (orderly : n.Orderly) (id : ObjId) : (n.release id).2.Orderly := by
  unfold Numbering.release
  split
  · exact orderly.reserve id.number
  · exact orderly.offer _

theorem releaseAll (orderly : n.Orderly) (ids : List ObjId) : (Store.releaseAll ids n).Orderly := by
  induction ids generalizing n with
  | nil => exact orderly
  | cons id ids ih => exact ih (orderly.release id)

theorem claim (orderly : n.Orderly) (number : UInt32) : (n.claim number).Orderly :=
  orderly.fewer (n.claimLater number) rfl fun _ found => (memClaim.mp found).1

theorem allocated (orderly : n.Orderly) {outcome : Except Fault ObjId}
    (allocated : Allocated n outcome m) : m.Orderly := by
  refine orderly.fewer (allocatedLater allocated) (allocatedRetired allocated) fun free found => ?_
  cases allocated with
  | pooled on first => exact ((memRest first).mp found).1
  | fresh | full => exact found

end Orderly

theorem allocateUnretired (orderly : n.Orderly) (lastOpen : n.isRetired last = false)
    (issued : n.allocate.1 = .ok id) : n.isRetired id.number = false := by
  by_cases empty : n.reuse = false ∨ n.pool.items = []
  · rw [allocateEmpty empty] at issued
    dsimp only at issued
    split at issued
    · cases issued
    · cases issued
      exact (soughtLeast (lastOpens lastOpen)).1.2
  · obtain ⟨first, pool, -, items, allocates⟩ := allocatePooled empty
    rw [allocates] at issued
    cases issued
    exact orderly.unretired id (items ▸ List.mem_cons_self)

end Numbering

namespace Store

variable {s : Store} {number : UInt32}

def Call.Retires (s : Store) (number : UInt32) : Call → Prop
  | reserve reserved => reserved = number
  | offerFree id =>
    id.number = number ∧ (∀ other ∈ s.ids, other.number ≠ number) ∧
      s.numbering.maxGeneration ≤ id.generation
  | releaseFree id =>
    id.number = number ∧ (∀ other ∈ s.ids, other.number ≠ number) ∧ s.numbering.Spent id
  | remove id true => id.number = number ∧ id ∈ s.ids ∧ s.numbering.Spent id
  | collect root kept =>
    ∃ id ∈ s.ids, id.number = number ∧ ¬ s.Alive root kept id ∧ s.numbering.Spent id
  | _ => False

theorem offerFreeStore (s : Store) (id : ObjId) : (s.offerFree id).2 =
    if s.objects.usesNumber id.number then s else s.withNumbering (s.numbering.offer id).2 := by
  unfold offerFree
  split <;> rfl

theorem releaseFreeStore (s : Store) (id : ObjId) : (s.releaseFree id).2 =
    if s.objects.usesNumber id.number then s else s.withNumbering (s.numbering.release id).2 := by
  unfold releaseFree
  split <;> rfl

theorem createOrderly (orderly : s.numbering.Orderly) (value : Value) :
    (s.create value).2.numbering.Orderly := by
  have made := created s value
  generalize (s.create value).1 = outcome, (s.create value).2 = after at made ⊢
  cases made with
  | @placed id n allocated _ | @occupied id n _ allocated _ =>
    exact (orderly.allocated allocated).cover id
  | full allocated => exact orderly.allocated allocated

theorem createRetired (s : Store) (value : Value) :
    (s.create value).2.numbering.retired = s.numbering.retired := by
  have made := created s value
  generalize (s.create value).1 = outcome, (s.create value).2 = after at made ⊢
  cases made with
  | @placed id n allocated _ | @occupied id n _ allocated _ =>
    exact (n.coverRetired id).trans (Numbering.allocatedRetired allocated)
  | full allocated => exact Numbering.allocatedRetired allocated

theorem collectOrderly (orderly : s.numbering.Orderly) (root : Value) (kept : IdSet) :
    (s.collect root kept).2.numbering.Orderly :=
  (orderly.releaseAll _).fewer (Numbering.claimAllLater _ _) rfl fun _ found =>
    (Numbering.memClaimAll.mp found).1

theorem collectRetired (root : Value) (kept : IdSet) :
    (s.collect root kept).2.numbering.isRetired number = true ↔
      s.numbering.isRetired number = true ∨ (Call.collect root kept).Retires s number := by
  refine Numbering.releaseAllRetired.trans (or_congr_right ?_)
  simp only [List.mem_filter, Bool.not_eq_true', Bool.eq_false_iff, ne_eq, reachWithAlive,
    Call.Retires, and_assoc, @eq_comm _ number]
  refine exists_congr fun id => and_congr_right fun _ => ?_
  exact and_left_comm

theorem performOrderly (orderly : s.numbering.Orderly) (call : Call) :
    (call.perform s).2.numbering.Orderly := by
  cases call with
  | create value => exact createOrderly orderly value
  | createDictionary type => exact createOrderly orderly _
  | push id value =>
    simp only [Call.perform]
    rcases s.pushed id value with refused | placed
    · rw [refused]
      exact orderly
    · rw [placed]
      exact (orderly.claim id.number).cover id
  | remove id free =>
    simp only [Call.perform]
    by_cases stored : id ∈ s.ids
    · rw [removeStored stored]
      cases free with
      | false => exact orderly
      | true => exact orderly.release id
    · rw [removeMissing stored]
      exact orderly
  | addFree id =>
    simp only [Call.perform, addFree]
    split
    · exact orderly
    · exact orderly.addFree id
  | offerFree id =>
    simp only [Call.perform, offerFreeStore]
    split
    · exact orderly
    · exact orderly.offer id
  | releaseFree id =>
    simp only [Call.perform, releaseFreeStore]
    split
    · exact orderly
    · exact orderly.release id
  | reserve number => exact orderly.reserve number
  | setReuse reuse =>
    refine orderly.fewer (s.numbering.setReuseLater reuse) rfl fun free found => ?_
    cases reuse with
    | false => cases found
    | true => exact found
  | cover id => exact orderly.cover id
  | collect root kept => exact collectOrderly orderly root kept
  | renumber root kept collectFirst =>
    have outcome := s.recounted root kept collectFirst
    simp only [Call.perform]
    generalize (s.renumber root kept collectFirst).2 = after at outcome ⊢
    cases outcome with
    | done few ids => exact .empty rfl
    | stopped many =>
      cases collectFirst with
      | false => exact orderly
      | true => exact collectOrderly orderly root kept
  | clear => exact .empty rfl
  | edit id change => exact orderly

theorem givenUpRetired {n : Numbering} {id : ObjId} {condition : Prop}
    (given : n.isRetired number = true ↔
      s.numbering.isRetired number = true ∨ number = id.number ∧ condition) :
    (if s.objects.usesNumber id.number then s else s.withNumbering n).numbering.isRetired number = true ↔
      s.numbering.isRetired number = true ∨
        id.number = number ∧ (∀ other ∈ s.ids, other.number ≠ number) ∧ condition := by
  split
  · next used =>
    obtain ⟨other, stored, same⟩ := Table.usesNumberIff.mp used
    refine (or_iff_left ?_).symm
    rintro ⟨rfl, unused, -⟩
    exact unused other stored same
  · next unused =>
    refine given.trans (or_congr_right ?_)
    constructor
    · rintro ⟨rfl, spent⟩
      exact ⟨rfl, fun other stored same => unused (Table.usesNumberIff.mpr ⟨other, stored, same⟩), spent⟩
    · rintro ⟨rfl, -, spent⟩
      exact ⟨rfl, spent⟩

theorem performRetired {call : Call} (calm : ¬ call.Restarts) :
    (call.perform s).2.numbering.isRetired number = true ↔
      s.numbering.isRetired number = true ∨ call.Retires s number := by
  have same {after : Store} (retired : after.numbering.retired = s.numbering.retired) :
      after.numbering.isRetired number = true ↔ s.numbering.isRetired number = true ∨ False := by
    rw [or_false, Numbering.isRetired, retired]
    rfl
  cases call with
  | create value => exact same (createRetired s value)
  | createDictionary type => exact same (createRetired s _)
  | push id value =>
    refine same ?_
    simp only [Call.perform]
    rcases s.pushed id value with refused | placed
    · rw [refused]
    · rw [placed]
      exact Numbering.coverRetired _ id
  | remove id free =>
    simp only [Call.perform]
    by_cases stored : id ∈ s.ids
    · rw [removeStored stored]
      cases free with
      | false => exact same rfl
      | true =>
        refine Numbering.releaseRetired.trans (or_congr_right ?_)
        rw [@eq_comm _ number]
        exact and_congr_right fun _ => (and_iff_right stored).symm
    · rw [removeMissing stored]
      cases free with
      | false => exact same rfl
      | true => exact (or_iff_left fun retires : _ ∧ _ ∧ _ => stored retires.2.1).symm
  | addFree id =>
    refine same ?_
    simp only [Call.perform, addFree]
    split
    · rfl
    · exact s.numbering.addFreeRetired id
  | offerFree id =>
    simp only [Call.perform, offerFreeStore]
    exact givenUpRetired Numbering.offerRetired
  | releaseFree id =>
    simp only [Call.perform, releaseFreeStore]
    exact givenUpRetired Numbering.releaseRetired
  | reserve reserved =>
    refine Numbering.reserveRetired.trans ?_
    rw [or_comm, @eq_comm _ number]
    rfl
  | setReuse reuse => exact same rfl
  | cover id => exact same (s.numbering.coverRetired id)
  | collect root kept => exact collectRetired root kept
  | edit id change => exact same rfl
  | renumber | clear => exact absurd trivial calm

theorem performUnretired (orderly : s.numbering.Orderly)
    (lastOpen : s.numbering.isRetired Numbering.last = false) {call : Call} {id : ObjId}
    (issued : (call.perform s).1 = some id) : s.numbering.isRetired id.number = false := by
  have fresh (value : Value) (issued : (s.create value).1.toOption = some id) :
      s.numbering.isRetired id.number = false := by
    refine Numbering.allocateUnretired orderly lastOpen ?_
    unfold create at issued
    split at issued
    · cases issued
    · next first n outcome =>
      rw [outcome]
      dsimp only at issued ⊢
      split at issued
      · cases issued
      · cases issued
        rfl
  cases call with
  | create value => exact fresh value issued
  | createDictionary type => exact fresh _ issued
  | _ => cases issued

theorem runRetired {later : List Call} (orderly : s.numbering.Orderly)
    (lastOpen : ∀ earlier, earlier <+: later →
      (s.after earlier).numbering.isRetired Numbering.last = false)
    (calm : ∀ call ∈ later, ¬ call.Restarts) (retired : s.numbering.isRetired number = true) :
    (s.after later).numbering.Orderly ∧ (s.after later).numbering.isRetired number = true ∧
      ∀ id ∈ (s.run later).1, id.number ≠ number := by
  induction later using List.reverseRecOn with
  | nil => exact ⟨orderly, retired, nofun⟩
  | append_singleton earlier call ih =>
    obtain ⟨orderly, retired, apart⟩ :=
      ih (fun first before => lastOpen first (before.trans (List.prefix_append ..)))
        fun other before => calm other (List.mem_append_left _ before)
    rw [afterNext, runNext]
    refine ⟨performOrderly orderly call, (performRetired (calm call (by simp))).mpr (.inl retired), ?_⟩
    intro id found
    rcases List.mem_append.mp found with old | new
    · exact apart id old
    · rintro rfl
      have issued := Option.mem_toList.mp new
      have unretired := performUnretired orderly (lastOpen earlier (List.prefix_append ..)) issued
      rw [retired] at unretired
      cases unretired

end Store
end PdfBody
