import Mathlib.Data.List.Induction
import PdfBody.Proofs.Runs
import PdfBody.Proofs.Store.Calls

/-! Whether the numbers of the free ids and those of the stored objects stay apart. Most calls see to it.
A removal does not look for other generations of the number that it gives up, and a creation does not
look for them in the pool; a renumbering that fails leaves the pool behind. -/
namespace PdfBody.Store

variable {s : Store}

/-- The call leaves the number of a stored object free. -/
def Call.Clashes (s : Store) : Call → Prop
  | create _ | createDictionary _ =>
    ∃ id rest, s.freeIds = id :: rest ∧ ∃ other ∈ rest, other.number = id.number
  | remove id true =>
    id ∈ s.ids ∧ (s.numbering.release id).1.isSome ∧
      ∃ other ∈ s.ids, other ≠ id ∧ other.number = id.number
  | renumber root kept collectFirst =>
    let s := if collectFirst then (s.collect root kept).2 else s
    numberLimit < s.ids.length ∧ ∃ free ∈ s.freeIds, free.number ≠ 0
  | _ => False

theorem freePut (s : Store) (n : Numbering) (id : ObjId) (value : Value) :
    ((s.withNumbering (n.cover id).2).withObjects (s.objects.put (.make id value))).freeIds =
      n.pool.items :=
  congrArg Ordered.items (n.coverPool id)

theorem emptyPool (idle : s.numbering.Idle)
    (empty : s.numbering.reuse = false ∨ s.numbering.pool.items = []) : s.freeIds = [] :=
  empty.elim idle fun none => none

theorem apartEmpty (empty : s.freeIds = []) : s.Apart := by
  intro free found
  rw [empty] at found
  exact absurd found List.not_mem_nil

theorem apartFewer {n : Numbering} (apart : s.Apart)
    (fewer : ∀ free ∈ n.pool.items, free ∈ s.freeIds) : (s.withNumbering n).Apart :=
  fun free found => apart free (fewer free found)

theorem freedApart {after : Store} {id : ObjId} (apart : s.Apart) (freed : Freed s id after) :
    after.Apart := by
  cases freed with
  | refused => exact apart
  | returned unused returned =>
    intro free found other stored same
    rcases returned.pool free found with old | new
    · exact apart free old other stored same
    · have given := (returned.taken free new).1
      exact unused (Table.usesNumberIff.mpr ⟨other, stored, same.symm.trans given⟩)

theorem createApart (idle : s.numbering.Idle) (apart : s.Apart) (value : Value) :
    (s.create value).2.Apart ↔ ¬ (Call.create value).Clashes s := by
  have calm (empty : s.freeIds = []) : ¬ (Call.create value).Clashes s := by
    rintro ⟨id, rest, pool, -⟩
    rw [empty] at pool
    cases pool
  have made := created s value
  generalize (s.create value).1 = outcome, (s.create value).2 = after at made ⊢
  cases made with
  | @placed id n allocated new =>
    cases allocated with
    | @pooled _ pool on first =>
      have free : s.freeIds = id :: pool.items := first
      constructor
      · rintro apart' ⟨_, _, same, other, among, number⟩
        cases free.symm.trans same
        refine apart' other ?_ id (Table.memIdsPut.mpr (.inl rfl)) number
        rw [freePut]
        exact among
      · intro calm other found id' stored same
        rw [freePut] at found
        rcases Table.memIdsPut.mp stored with rfl | old
        · exact calm ⟨_, _, free, other, found, same⟩
        · exact apart other (free ▸ List.mem_cons_of_mem _ found) id' old same
    | fresh empty within beyond =>
      have empty := emptyPool idle empty
      exact iff_of_true (apartEmpty ((freePut ..).trans empty)) (calm empty)
  | @occupied id n text allocated old =>
    cases allocated with
    | pooled on first =>
      have free : s.freeIds = id :: _ := first
      exact absurd rfl (apart id (free ▸ List.mem_cons_self) id old)
    | fresh empty within beyond =>
      have empty := emptyPool idle empty
      refine iff_of_true (apartEmpty ?_) (calm empty)
      exact (congrArg Ordered.items (Numbering.coverPool ..)).trans empty
  | full allocated =>
    cases allocated with
    | full empty => exact iff_of_true apart (calm (emptyPool idle empty))

theorem pushApart (apart : s.Apart) (id : ObjId) (value : Value) : (s.push id value).2.Apart := by
  rcases s.pushed id value with refused | placed
  · rw [refused]
    exact apart
  · rw [placed]
    intro free found other stored
    rw [freePut] at found
    obtain ⟨old, number⟩ := Numbering.memClaim.mp found
    rcases Table.memIdsPut.mp stored with rfl | before
    · exact number
    · exact apart free old other before

theorem removeApart (apart : s.Apart) (id : ObjId) (free : Bool) :
    (s.remove id free).2.Apart ↔ ¬ (Call.remove id free).Clashes s := by
  by_cases stored : id ∈ s.ids
  · rw [removeStored stored]
    have fewer : (s.withObjects (s.objects.remove id)).Apart := fun free found other remains =>
      apart free found other (Table.memIdsRemove.mp remains).1
    cases free with
    | false => exact iff_of_true fewer nofun
    | true =>
      have returned := s.numbering.releaseReturned id
      constructor
      · rintro apart' ⟨-, pooled, other, remains, differs, number⟩
        obtain ⟨generation, taken⟩ := Option.isSome_iff_exists.mp pooled
        rw [taken] at returned
        have found := (returned.taken _ rfl).2.1
        exact apart' _ found other (Table.memIdsRemove.mpr ⟨remains, differs⟩) number.symm
      · intro calm free found other remains same
        obtain ⟨before, differs⟩ := Table.memIdsRemove.mp remains
        rcases returned.pool free found with old | new
        · exact apart free old other before same
        · obtain ⟨generation, taken, rfl⟩ := Option.map_eq_some_iff.mp new
          exact calm ⟨stored, by rw [taken]; rfl, other, before, differs, same.symm⟩
  · rw [removeMissing stored]
    refine iff_of_true apart ?_
    cases free with
    | false => exact nofun
    | true => exact fun clash => stored clash.1

theorem numberCounted {number : UInt32} :
    number ≠ 0 ↔ ∃ id ∈ (List.range' 1 numberLimit).map denseId, number = id.number := by
  have bound := number.toNat_lt
  constructor
  · intro proper
    have positive : number.toNat ≠ 0 := fun none => proper (UInt32.toNat_inj.mp none)
    refine ⟨denseId number.toNat, List.mem_map_of_mem (List.mem_range'_1.mpr ?_), ?_⟩
    · unfold numberLimit
      omega
    · exact UInt32.ofNat_toNat.symm
  · rintro ⟨id, among, same⟩ rfl
    obtain ⟨k, inside, rfl⟩ := List.mem_map.mp among
    obtain ⟨low, high⟩ := List.mem_range'_1.mp inside
    have counted := denseIdNumber (numbersSuffice.mp (show k ≤ numberLimit by omega))
    rw [← same, UInt32.toNat_zero] at counted
    omega

theorem renumberApart (root : Value) (kept : IdSet) (collectFirst : Bool) :
    (s.renumber root kept collectFirst).2.Apart ↔
      ¬ (Call.renumber root kept collectFirst).Clashes s := by
  have outcome := s.recounted root kept collectFirst
  simp only [Call.Clashes]
  generalize (if collectFirst then (s.collect root kept).2 else s) = before at outcome ⊢
  generalize (s.renumber root kept collectFirst).2 = after at outcome ⊢
  cases outcome with
  | done few ids =>
    exact iff_of_true (apartEmpty rfl) fun clash => Nat.not_lt.mpr few clash.1
  | stopped many =>
    have ids := Table.renumberedFull many
    constructor
    · rintro apart' ⟨-, free, found, proper⟩
      obtain ⟨id, among, same⟩ := numberCounted.mp proper
      refine apart' free found id ?_ same
      rw [← ids] at among
      exact among
    · intro calm free found id stored same
      have among : id ∈ before.objects.renumbered.ids := stored
      rw [ids] at among
      exact calm ⟨many, free, found, numberCounted.mpr ⟨id, among, same⟩⟩

theorem performApart (idle : s.numbering.Idle) (apart : s.Apart) (call : Call) :
    (call.perform s).2.Apart ↔ ¬ call.Clashes s := by
  cases call with
  | create value => exact createApart idle apart value
  | createDictionary type => exact createApart idle apart _
  | push id value => exact iff_of_true (pushApart apart id value) nofun
  | remove id free => exact removeApart apart id free
  | addFree id => exact iff_of_true (freedApart apart (s.addFreeFreed id)) nofun
  | offerFree id => exact iff_of_true (freedApart apart (s.offerFreeFreed id)) nofun
  | releaseFree id => exact iff_of_true (freedApart apart (s.releaseFreeFreed id)) nofun
  | reserve number =>
    exact iff_of_true (apartFewer apart fun _ found => (Numbering.memClaim.mp found).1) nofun
  | setReuse reuse =>
    refine iff_of_true ?_ nofun
    cases reuse with
    | false => exact apartEmpty rfl
    | true => exact fun free found => apart free found
  | cover id =>
    have covered := s.numbering.coverReturned id
    exact iff_of_true
      (apartFewer apart fun free found => (covered.pool free found).resolve_right nofun) nofun
  | collect root kept => exact iff_of_true (collectApart root kept s) nofun
  | renumber root kept collectFirst => exact renumberApart root kept collectFirst
  | clear => exact iff_of_true (apartEmpty rfl) nofun
  | edit id change =>
    have ids : (s.alter id change).ids = s.ids := s.objects.idsAlter id change
    refine iff_of_true (fun free found other stored => apart free found other ?_) nofun
    rw [← ids]
    exact stored

structure Covered (limit : UInt32) (s : Store) : Prop where
  option : s.options.maxNumber = limit
  limit : s.numbering.maxNumber = limit
  covered : ∀ id ∈ s.ids, id.number.toNat ≤ s.numbering.count.toNat

section

variable {limit : UInt32}

theorem coveredLater {after : Store} (covered : s.Covered limit)
    (option : after.options.maxNumber = s.options.maxNumber)
    (later : s.numbering.Later after.numbering)
    (ids : ∀ id ∈ after.ids, id ∈ s.ids ∨ id.number.toNat ≤ after.numbering.count.toNat) :
    after.Covered limit where
  option := option.trans covered.option
  limit := later.maxNumber.trans covered.limit
  covered id stored := (ids id stored).elim
    (fun old => Nat.le_trans (covered.covered id old) later.count) fun new => new

theorem coveredNumbering (covered : s.Covered limit) {n : Numbering} (later : s.numbering.Later n) :
    (s.withNumbering n).Covered limit :=
  coveredLater covered rfl later fun _ stored => .inl stored

theorem coveredPut (covered : s.Covered limit) {n : Numbering} (later : s.numbering.Later n)
    (id : ObjId) (value : Value) :
    ((s.withNumbering (n.cover id).2).withObjects (s.objects.put (.make id value))).Covered limit := by
  refine coveredLater covered rfl
    (later.trans (Numbering.returnedLater (n.coverReturned id))) fun other stored => ?_
  rcases Table.memIdsPut.mp stored with rfl | old
  · exact .inr (Nat.le_trans (Nat.le_max_right _ _) (Nat.le_of_eq (n.coverCount other).symm))
  · exact .inl old

theorem createCovered (covered : s.Covered limit) (value : Value) :
    (s.create value).2.Covered limit := by
  have later := s.createLater value
  have made := created s value
  generalize (s.create value).1 = outcome, (s.create value).2 = after at made later ⊢
  cases made with
  | placed allocated new => exact coveredPut covered (Numbering.allocatedLater allocated) _ value
  | occupied | full => exact coveredNumbering covered later

theorem pushCovered (covered : s.Covered limit) (id : ObjId) (value : Value) :
    (s.push id value).2.Covered limit := by
  rcases s.pushed id value with refused | placed
  · rw [refused]
    exact covered
  · rw [placed]
    exact coveredPut covered (s.numbering.claimLater id.number) id value

theorem removeCovered (covered : s.Covered limit) (id : ObjId) (free : Bool) :
    (s.remove id free).2.Covered limit := by
  have later := s.removeLater id free
  by_cases stored : id ∈ s.ids
  · rw [removeStored stored] at later ⊢
    exact coveredLater covered rfl later fun other remains =>
      .inl (Table.memIdsRemove.mp remains).1
  · rw [removeMissing stored]
    exact covered

theorem freedCovered {after : Store} {id : ObjId} (covered : s.Covered limit)
    (freed : Freed s id after) : after.Covered limit := by
  cases freed with
  | refused => exact covered
  | returned unused returned => exact coveredNumbering covered (Numbering.returnedLater returned)

theorem collectCovered (covered : s.Covered limit) (root : Value) (kept : IdSet) :
    (s.collect root kept).2.Covered limit := by
  refine coveredLater covered rfl (s.collectLater root kept) fun id stored => .inl ?_
  obtain ⟨o, survives, rfl⟩ := memIds.mp stored
  exact memIds.mpr ⟨o, ((collectMem root kept s).mp survives).1, rfl⟩

def Call.Overflows (s : Store) : Call → Prop
  | renumber root kept collectFirst =>
    numberLimit < (if collectFirst then (s.collect root kept).2 else s).ids.length
  | _ => False

/-- The renumbering fails with every number dealt out, and the count stays below the last of them. -/
def Call.Uncovers (s : Store) (call : Call) : Prop :=
  call.Overflows s ∧ (call.perform s).2.numbering.count < Numbering.last

theorem fewSuffice (few : s.ids.length ≤ numberLimit) (call : Call) : ¬ call.Overflows s := by
  cases call with
  | renumber root kept collectFirst =>
    have fewer := collectCount root kept s
    cases collectFirst with
    | false => exact Nat.not_lt.mpr few
    | true =>
      refine Nat.not_lt.mpr ?_
      simp only [if_true]
      omega
  | _ => exact nofun

theorem renumberCovered (covered : s.Covered limit) {root : Value} {kept : IdSet} {collectFirst : Bool}
    (counted : ¬ (Call.renumber root kept collectFirst).Uncovers s) :
    (s.renumber root kept collectFirst).2.Covered limit := by
  have outcome := s.recounted root kept collectFirst
  have covered : (if collectFirst then (s.collect root kept).2 else s).Covered limit := by
    cases collectFirst with
    | false => exact covered
    | true => exact collectCovered covered root kept
  simp only [Call.Uncovers, Call.Overflows, Call.perform] at counted
  generalize (if collectFirst then (s.collect root kept).2 else s) = before
    at outcome covered counted
  generalize (s.renumber root kept collectFirst).2 = after at outcome counted ⊢
  cases outcome with
  | stopped many =>
    refine ⟨covered.option, covered.limit, fun id _ => ?_⟩
    have full := UInt32.not_lt.mp fun below => counted ⟨many, below⟩
    exact Nat.le_trans (Numbering.leLast id.number) (UInt32.le_iff_toNat_le.mp full)
  | @done objects few ids =>
    refine ⟨covered.option, covered.limit, fun id stored => ?_⟩
    have among : id ∈ objects.ids := stored
    rw [ids] at among
    obtain ⟨k, inside, rfl⟩ := List.mem_map.mp among
    obtain ⟨low, high⟩ := List.mem_range'_1.mp inside
    have number := denseIdNumber (numbersSuffice.mp (show k ≤ numberLimit by omega))
    have count : (UInt32.ofNat before.ids.length).toNat = before.ids.length :=
      UInt32.toNat_ofNat_of_lt' (numbersSuffice.mp few)
    have total : (before.numbering.reset (UInt32.ofNat before.ids.length)).count.toNat =
      before.ids.length := count
    have inside : k ≤ (before.numbering.reset (UInt32.ofNat before.ids.length)).count.toNat := by
      omega
    rw [number]
    exact inside

theorem performCovered (covered : s.Covered limit) {call : Call} (counted : ¬ call.Uncovers s) :
    (call.perform s).2.Covered limit := by
  cases call with
  | create value => exact createCovered covered value
  | createDictionary type => exact createCovered covered _
  | push id value => exact pushCovered covered id value
  | remove id free => exact removeCovered covered id free
  | addFree id => exact freedCovered covered (s.addFreeFreed id)
  | offerFree id => exact freedCovered covered (s.offerFreeFreed id)
  | releaseFree id => exact freedCovered covered (s.releaseFreeFreed id)
  | reserve number =>
    exact coveredNumbering covered (Numbering.returnedLater (s.numbering.reserveReturned number))
  | setReuse reuse => exact coveredLater covered rfl (s.numbering.setReuseLater reuse) fun _ => .inl
  | cover id =>
    exact coveredNumbering covered (Numbering.returnedLater (s.numbering.coverReturned id))
  | collect root kept => exact collectCovered covered root kept
  | renumber root kept collectFirst => exact renumberCovered covered counted
  | clear => exact ⟨covered.option, covered.option, fun id stored => nomatch stored⟩
  | edit id change =>
    refine coveredLater covered rfl (.refl _) fun other stored => .inl ?_
    have ids : (s.alter id change).ids = s.ids := s.objects.idsAlter id change
    rw [← ids]
    exact stored

end

section

variable {zlib : Zlib} {options : Options} {calls : List Call}

theorem afterIdle (zlib : Zlib) (options : Options) (calls : List Call) :
    ((make zlib options).after calls).numbering.Idle := by
  induction calls using List.reverseRecOn with
  | nil => exact fun _ => rfl
  | append_singleton earlier call ih =>
    rw [afterNext]
    exact performIdle ih call

theorem afterApart :
    (∀ earlier, earlier <+: calls → ((make zlib options).after earlier).Apart) ↔
      ∀ earlier call, earlier ++ [call] <+: calls →
        ¬ call.Clashes ((make zlib options).after earlier) := by
  refine everyPrefix (fun earlier => ((make zlib options).after earlier).Apart) (apartEmpty rfl) ?_
    (fun _ apart => apart) calls
  intro earlier call apart
  rw [afterNext]
  have next := performApart (afterIdle zlib _ _) apart call
  by_cases clashes : call.Clashes ((make zlib options).after earlier)
  · exact .inr ⟨clashes, fun after => next.mp after clashes⟩
  · exact .inl ⟨clashes, next.mpr clashes⟩

theorem makeCovered (zlib : Zlib) (options : Options) :
    (make zlib options).Covered options.maxNumber :=
  ⟨rfl, rfl, fun _ stored => nomatch stored⟩

theorem afterCovered
    (few : ∀ earlier, earlier <+: calls →
      ((make zlib options).after earlier).ids.length ≤ numberLimit) :
    ((make zlib options).after calls).Covered options.maxNumber := by
  induction calls using List.reverseRecOn with
  | nil => exact makeCovered zlib options
  | append_singleton earlier call ih =>
    rw [afterNext]
    have within : earlier <+: earlier ++ [call] := List.prefix_append ..
    exact performCovered (ih fun first before => few first (before.trans within))
      fun uncovers => fewSuffice (few earlier within) call uncovers.1

end

theorem createOccupied {limit : UInt32} (idle : s.numbering.Idle) (covered : s.Covered limit)
    (apart : s.Apart) (value : Value) :
    (∃ text, (s.create value).1 = .error (.state text)) ↔
      limit = Numbering.last ∧ ⟨Numbering.last, 0⟩ ∈ s.ids ∧ s.freeIds = [] := by
  constructor
  · rintro ⟨text, refused⟩
    have made := created s value
    rw [refused] at made
    generalize (s.create value).2 = after at made
    cases made with
    | occupied allocated old =>
      cases allocated with
      | pooled on first =>
        have free : s.freeIds = _ :: _ := first
        exact absurd rfl (apart _ (free ▸ List.mem_cons_self) _ old)
      | @fresh number empty within beyond =>
        obtain rfl : number = Numbering.last := Numbering.countedLast beyond (covered.covered _ old)
        rw [covered.limit] at within
        have whole : limit = Numbering.last :=
          Numbering.reachedLast (UInt32.le_iff_toNat_le.mp within)
        exact ⟨whole, old, emptyPool idle empty⟩
  · rintro ⟨rfl, old, empty⟩
    have count : s.numbering.count = Numbering.last := Numbering.reachedLast (covered.covered _ old)
    have sought : s.numbering.sought = Numbering.last := by
      rw [Numbering.sought, count, Numbering.after, if_pos rfl, Numbering.firstOpenLast]
    have allocated : s.numbering.allocate = (.ok ⟨Numbering.last, 0⟩, s.numbering) := by
      rw [Numbering.allocateEmpty (.inr empty), sought, covered.limit, if_neg (UInt32.lt_irrefl _)]
    unfold create
    rw [allocated]
    dsimp only
    rw [if_pos]
    · exact ⟨_, rfl⟩
    · exact Table.containsIff.mpr old

/-- The numbers of the free ids and those of the objects stay apart as long as no call clashes. Where they
are, and the search for a number has an end, an object cannot be created under an id in use, but for one
case: the last number of all is stored, and a new object would take it again. -/
theorem liveNumbersApart (zlib : Zlib) (options : Options) (calls : List Call) :
    ((∀ earlier, earlier <+: calls → ((make zlib options).after earlier).Apart) ↔
      ∀ earlier call, earlier ++ [call] <+: calls →
        ¬ call.Clashes ((make zlib options).after earlier)) ∧
    ((∀ earlier, earlier <+: calls →
        ((make zlib options).after earlier).ids.length ≤ numberLimit) →
      ¬ ((make zlib options).after calls).numbering.Endless →
      ((make zlib options).after calls).Apart → ∀ value,
        ((∃ text, (((make zlib options).after calls).create value).1 = .error (.state text)) ↔
          options.maxNumber = Numbering.last ∧
            ⟨Numbering.last, 0⟩ ∈ ((make zlib options).after calls).ids ∧
            ((make zlib options).after calls).freeIds = [])) :=
  ⟨afterApart, fun few _ apart value =>
    createOccupied (afterIdle zlib options calls) (afterCovered few) apart value⟩

theorem liveNumberPooled :
    ¬ ∀ (options : Options) (calls : List Call),
      ((make .storing options).after calls).Apart ∧
        ∀ value text, (((make .storing options).after calls).create value).1 ≠ .error (.state text) := by
  intro always
  obtain ⟨apart, created⟩ :=
    always .standard [.push ⟨5, 0⟩ .null, .push ⟨5, 1⟩ .null, .remove ⟨5, 0⟩ true]
  exact created .null "Allocated id 5 1 R is already in use" rfl

end PdfBody.Store
