import PdfBody.Proofs.Store.Calls

/-! No id is issued twice where objects come to be by creation alone. The pool holds at most the next
generation of a number, and only when the last one issued is not stored any more. -/
namespace PdfBody

def generations (issued : List ObjId) (number : UInt32) : List Nat :=
  (issued.filter fun id => id.number == number).map fun id => id.generation.toNat

theorem memGenerations {issued : List ObjId} {number : UInt32} {generation : Nat} :
    generation ∈ generations issued number ↔
      ∃ id ∈ issued, id.number = number ∧ id.generation.toNat = generation := by
  simp only [generations, List.mem_map, List.mem_filter, beq_iff_eq, and_assoc]

theorem generationsOf (issued : List ObjId) (id : ObjId) :
    generations (issued ++ [id]) id.number = generations issued id.number ++ [id.generation.toNat] := by
  simp [generations]

theorem generationsOther (issued : List ObjId) {id : ObjId} {number : UInt32}
    (other : id.number ≠ number) :
    generations (issued ++ [id]) number = generations issued number := by
  simp [generations, other]

theorem rangeInjective {m n : Nat} (same : List.range m = List.range n) : m = n := by
  have lengths := congrArg List.length same
  rwa [List.length_range, List.length_range] at lengths

structure Ledger (options : Options) (issued live : List ObjId) (n : Numbering) : Prop where
  maxNumber : n.maxNumber = options.maxNumber
  maxGeneration : n.maxGeneration = options.maxGeneration
  limit : n.count.toNat ≤ options.maxNumber.toNat
  counted : ∀ id ∈ issued, id.number ≠ 0 ∧ id.number.toNat ≤ n.count.toNat
  young : ∀ id ∈ issued, id.generation ≠ 0 → id.generation < options.maxGeneration
  inOrder : ∀ number, ∃ uses, generations issued number = List.range uses
  latest : ∀ id ∈ live, generations issued id.number = List.range (id.generation.toNat + 1)
  next : ∀ free ∈ n.pool.items, generations issued free.number = List.range free.generation.toNat ∧
    free.generation ≠ 0 ∧ free.generation < options.maxGeneration
  apart : ∀ free ∈ n.pool.items, ∀ id ∈ live, free.number ≠ id.number

namespace Ledger

variable {options : Options} {issued live live' : List ObjId} {n m : Numbering} {id : ObjId}

theorem start (options : Options) : Ledger options [] [] options.numbering where
  maxNumber := rfl
  maxGeneration := rfl
  limit := Nat.zero_le _
  counted := nofun
  young := nofun
  inOrder _ := ⟨0, rfl⟩
  latest := nofun
  next := nofun
  apart := nofun

theorem fewer (ledger : Ledger options issued live n) (maxNumber : m.maxNumber = n.maxNumber)
    (maxGeneration : m.maxGeneration = n.maxGeneration) (count : m.count = n.count)
    (pool : ∀ free ∈ m.pool.items, free ∈ n.pool.items) (stored : ∀ id ∈ live', id ∈ live) :
    Ledger options issued live' m where
  maxNumber := maxNumber.trans ledger.maxNumber
  maxGeneration := maxGeneration.trans ledger.maxGeneration
  limit := count ▸ ledger.limit
  counted := count ▸ ledger.counted
  young := ledger.young
  inOrder := ledger.inOrder
  latest id found := ledger.latest id (stored id found)
  next free found := ledger.next free (pool free found)
  apart free found id remains := ledger.apart free (pool free found) id (stored id remains)

theorem sameId {a b : ObjId} (number : a.number = b.number)
    (generation : a.generation.toNat = b.generation.toNat) : a = b := by
  obtain ⟨_, generationA⟩ := a
  cases number
  exact congrArg (ObjId.mk b.number) (UInt16.toNat_inj.mp generation)

theorem liveSame (ledger : Ledger options issued live n) {a b : ObjId} (first : a ∈ live)
    (second : b ∈ live) (same : a.number = b.number) : a = b := by
  have latest := ledger.latest a first
  rw [same, ledger.latest b second] at latest
  exact sameId same (Nat.succ.inj (rangeInjective latest)).symm

theorem freeSame (ledger : Ledger options issued live n) {a b : ObjId} (first : a ∈ n.pool.items)
    (second : b ∈ n.pool.items) (same : a.number = b.number) : a = b := by
  have next := (ledger.next a first).1
  rw [same, (ledger.next b second).1] at next
  exact sameId same (rangeInjective next).symm

theorem usedCounted (ledger : Ledger options issued live n) {number : UInt32} {generation : Nat}
    (used : generation ∈ generations issued number) :
    number ≠ 0 ∧ number.toNat ≤ n.count.toNat := by
  obtain ⟨other, found, same, _⟩ := memGenerations.mp used
  rw [← same]
  exact ledger.counted other found

theorem liveCounted (ledger : Ledger options issued live n) (stored : id ∈ live) :
    id.number.toNat ≤ n.count.toNat := by
  have last : id.generation.toNat ∈ generations issued id.number := by
    rw [ledger.latest id stored]
    exact List.self_mem_range_succ
  exact (ledger.usedCounted last).2

theorem freeCounted (ledger : Ledger options issued live n) (free : id ∈ n.pool.items) :
    id.number ≠ 0 ∧ id.number.toNat ≤ n.count.toNat := by
  obtain ⟨next, later, -⟩ := ledger.next id free
  have first : 0 ∈ generations issued id.number := by
    rw [next]
    exact List.mem_range.mpr (Nat.pos_of_ne_zero fun none => later (UInt16.toNat_inj.mp none))
  exact ledger.usedCounted first

theorem uncounted (ledger : Ledger options issued live n) {number : UInt32}
    (beyond : n.count.toNat < number.toNat) : generations issued number = [] :=
  List.eq_nil_iff_forall_not_mem.mpr fun _ used =>
    Nat.not_le.mpr beyond (ledger.usedCounted used).2

theorem issue (ledger : Ledger options issued live n) (pool : IdSet)
    (proper : id.number ≠ 0 ∧ id.number.toNat ≤ options.maxNumber.toNat)
    (next : generations issued id.number = List.range id.generation.toNat)
    (young : id.generation ≠ 0 → id.generation < options.maxGeneration)
    (unused : ∀ other ∈ live, id.number ≠ other.number)
    (unpooled : ∀ free ∈ pool.items, free ∈ n.pool.items ∧ id.number ≠ free.number)
    (stored : ∀ other ∈ live', other = id ∨ other ∈ live) :
    Ledger options (issued ++ [id]) live' ((n.withPool pool).cover id).2 := by
  have count : ((n.withPool pool).cover id).2.count.toNat = max n.count.toNat id.number.toNat :=
    (n.withPool pool).coverCount id
  have others {number : UInt32} (other : id.number ≠ number) := generationsOther issued other
  rw [Numbering.coverRest]
  refine ⟨ledger.maxNumber, ledger.maxGeneration, ?limit, ?counted, ?young, ?inOrder, ?latest, ?next,
    ?apart⟩
  case limit =>
    exact Nat.le_trans (Nat.le_of_eq count) (Nat.max_le.mpr ⟨ledger.limit, proper.2⟩)
  case counted =>
    intro other found
    refine ⟨?_, Nat.le_trans ?_ (Nat.le_of_eq count.symm)⟩
    · rcases List.mem_append.mp found with old | new
      · exact (ledger.counted other old).1
      · exact List.mem_singleton.mp new ▸ proper.1
    · rcases List.mem_append.mp found with old | new
      · exact Nat.le_trans (ledger.counted other old).2 (Nat.le_max_left _ _)
      · exact List.mem_singleton.mp new ▸ Nat.le_max_right _ _
  case young =>
    intro other found
    rcases List.mem_append.mp found with old | new
    · exact ledger.young other old
    · exact List.mem_singleton.mp new ▸ young
  case inOrder =>
    intro number
    by_cases same : id.number = number
    · subst same
      exact ⟨id.generation.toNat + 1, by rw [generationsOf, next, List.range_succ]⟩
    · rw [others same]
      exact ledger.inOrder number
  case latest =>
    intro other remains
    rcases stored other remains with rfl | old
    · rw [generationsOf, next, List.range_succ]
    · rw [others (unused other old)]
      exact ledger.latest other old
  case next =>
    intro free found
    obtain ⟨old, differs⟩ := unpooled free found
    rw [others differs]
    exact ledger.next free old
  case apart =>
    intro free found other remains
    obtain ⟨old, differs⟩ := unpooled free found
    rcases stored other remains with rfl | before
    · exact differs.symm
    · exact ledger.apart free old other before

theorem release (ledger : Ledger options issued live n) (stored : id ∈ live)
    (remaining : ∀ other ∈ live', other ∈ live ∧ other ≠ id) :
    Ledger options issued live' (n.release id).2 := by
  have returned := n.releaseReturned id
  have count : (n.release id).2.count = n.count := by
    have := ledger.liveCounted stored
    have := returned.count
    exact UInt32.toNat_inj.mp (by omega)
  have new {free : ObjId} (pooled : (n.release id).1.map (ObjId.mk id.number) = some free) :
      free.number = id.number ∧ free.generation.toNat = id.generation.toNat + 1 ∧
        free.generation < options.maxGeneration := by
    obtain ⟨generation, taken, rfl⟩ := Option.map_eq_some_iff.mp pooled
    obtain ⟨next, young⟩ := Numbering.releaseNext taken
    exact ⟨rfl, next, ledger.maxGeneration ▸ young⟩
  refine ⟨returned.maxNumber.trans ledger.maxNumber, returned.maxGeneration.trans ledger.maxGeneration,
    count ▸ ledger.limit, count ▸ ledger.counted, ledger.young, ledger.inOrder,
    fun other remains => ledger.latest other (remaining other remains).1, ?next, ?apart⟩
  case next =>
    intro free found
    rcases returned.pool free found with old | pooled
    · exact ledger.next free old
    · obtain ⟨number, generation, young⟩ := new pooled
      refine ⟨?_, ?_, young⟩
      · rw [number, generation]
        exact ledger.latest id stored
      · rintro none
        rw [none] at generation
        cases generation
  case apart =>
    intro free found other remains same
    obtain ⟨old, differs⟩ := remaining other remains
    rcases returned.pool free found with before | pooled
    · exact ledger.apart free before other old same
    · exact differs (ledger.liveSame old stored (same.symm.trans (new pooled).1))

theorem releaseAll (ids : List ObjId) (ledger : Ledger options issued (ids ++ live) n)
    (once : (ids ++ live).Nodup) : Ledger options issued live (Store.releaseAll ids n) := by
  -- an id that is still to be released counts as live
  induction ids generalizing n with
  | nil => exact ledger
  | cons id ids ih =>
    obtain ⟨new, once⟩ := List.nodup_cons.mp once
    refine ih (ledger.release List.mem_cons_self fun other remains => ⟨?_, ?_⟩) once
    · exact List.mem_cons_of_mem _ remains
    · rintro rfl
      exact new remains

end Ledger

namespace Store

variable {zlib : Zlib} {options : Options} {issued : List ObjId} {s : Store}

theorem createLedger (room : options.maxNumber < Numbering.last)
    (ledger : Ledger options issued s.ids s.numbering) (value : Value) :
    Ledger options (issued ++ (s.create value).1.toOption.toList) (s.create value).2.ids
      (s.create value).2.numbering := by
  have below : s.numbering.count < Numbering.last :=
    UInt32.lt_iff_toNat_lt.mpr (Nat.lt_of_le_of_lt ledger.limit (UInt32.lt_iff_toNat_lt.mp room))
  have next := Numbering.afterCount below
  have made := created s value
  generalize (s.create value).1 = outcome, (s.create value).2 = after at made ⊢
  cases made with
  | @placed id n allocated new =>
    have stored (other : ObjId) (found : other ∈ Table.ids (s.objects.put (.make id value))) :
        other = id ∨ other ∈ s.ids := Table.memIdsPut.mp found
    cases allocated with
    | @pooled _ pool on first =>
      have free : id ∈ s.numbering.pool.items := first ▸ List.mem_cons_self
      obtain ⟨proper, counted⟩ := ledger.freeCounted free
      obtain ⟨next, -, young⟩ := ledger.next id free
      refine ledger.issue pool ⟨proper, Nat.le_trans counted ledger.limit⟩ next (fun _ => young)
        (ledger.apart id free) (fun other remains => ?_) stored
      obtain ⟨old, differs⟩ := (Numbering.memRest first).mp remains
      exact ⟨old, fun same => differs (ledger.freeSame old free same.symm)⟩
    | @fresh number empty within beyond =>
      have within : number.toNat ≤ options.maxNumber.toNat :=
        ledger.maxNumber ▸ UInt32.le_iff_toNat_le.mp within
      have proper : number ≠ 0 := by
        rintro rfl
        rw [next] at beyond
        cases beyond
      have beyond : s.numbering.count.toNat < number.toNat := by omega
      have unstored : ∀ other ∈ s.ids, number ≠ other.number := by
        rintro other old rfl
        exact Nat.not_le.mpr beyond (ledger.liveCounted old)
      have unpooled : ∀ free ∈ s.freeIds, number ≠ free.number := by
        rintro free old rfl
        exact Nat.not_le.mpr beyond (ledger.freeCounted old).2
      exact ledger.issue s.numbering.pool ⟨proper, within⟩ (ledger.uncounted beyond)
        (fun later => absurd rfl later) unstored (fun free old => ⟨old, unpooled free old⟩) stored
  | @occupied id n text allocated old =>
    cases allocated with
    | pooled on first => exact absurd rfl (ledger.apart id (first ▸ List.mem_cons_self) id old)
    | fresh empty within beyond =>
      have counted : _ ≤ s.numbering.count.toNat := ledger.liveCounted old
      exact absurd (Nat.le_trans beyond counted) (by omega)
  | full allocated =>
    cases allocated with
    | full empty =>
      change Ledger options (issued ++ []) s.ids s.numbering
      rw [List.append_nil]
      exact ledger

theorem removeLedger (ledger : Ledger options issued s.ids s.numbering) (id : ObjId) (free : Bool) :
    Ledger options issued (s.remove id free).2.ids (s.remove id free).2.numbering := by
  by_cases stored : id ∈ s.ids
  · rw [removeStored stored]
    have remaining (other : ObjId) (found : other ∈ Table.ids (s.objects.remove id)) :
        other ∈ s.ids ∧ other ≠ id := Table.memIdsRemove.mp found
    cases free with
    | true => exact ledger.release stored remaining
    | false =>
      exact ledger.fewer rfl rfl rfl (fun _ old => old) fun other found => (remaining other found).1
  · rw [removeMissing stored]
    exact ledger

theorem collectLedger (ledger : Ledger options issued s.ids s.numbering) (root : Value) (kept : IdSet) :
    Ledger options issued (s.collect root kept).2.ids (s.collect root kept).2.numbering := by
  have survivors := collectIds root kept s
  generalize reached : (fun id => IdSet.contains id (s.objects.reachWith root kept)) = alive at survivors
  let garbage := s.ids.filter fun id => !alive id
  have all : ∀ id ∈ garbage ++ (s.collect root kept).2.ids, id ∈ s.ids := by
    intro id found
    rw [survivors] at found
    rcases List.mem_append.mp found with dead | survives
    · exact (List.mem_filter.mp dead).1
    · exact (List.mem_filter.mp survives).1
  have once : (garbage ++ (s.collect root kept).2.ids).Nodup := by
    refine List.nodup_append.mpr ⟨s.objects.idsNodup.filter _, Table.idsNodup _, ?_⟩
    rintro id dead _ survives rfl
    rw [survivors] at survives
    have dead := (List.mem_filter.mp dead).2
    rw [(List.mem_filter.mp survives).2] at dead
    cases dead
  have released := (ledger.fewer rfl rfl rfl (fun _ old => old) all).releaseAll garbage once
  subst reached
  exact released.fewer rfl rfl rfl (fun _ found => (Numbering.memClaimAll.mp found).1) fun _ => id

def Call.Ordinary : Call → Prop
  | reserve number => number < Numbering.last
  | push .. | addFree _ | offerFree _ | releaseFree _ | cover _ | renumber .. | clear => False
  | _ => True

theorem performLedger (room : options.maxNumber < Numbering.last)
    (ledger : Ledger options issued s.ids s.numbering) {call : Call} (ordinary : call.Ordinary) :
    Ledger options (issued ++ (call.perform s).1.toList) (call.perform s).2.ids
      (call.perform s).2.numbering := by
  have quiet {s' : Store} (ledger : Ledger options issued s'.ids s'.numbering) :
      Ledger options (issued ++ []) s'.ids s'.numbering := (List.append_nil issued).symm ▸ ledger
  cases call with
  | create value => exact createLedger room ledger value
  | createDictionary type => exact createLedger room ledger _
  | remove id free => exact quiet (removeLedger ledger id free)
  | collect root kept => exact quiet (collectLedger ledger root kept)
  | reserve number =>
    exact quiet (ledger.fewer rfl rfl rfl (fun _ found => (Numbering.memClaim.mp found).1) fun _ => id)
  | setReuse reuse =>
    refine quiet (ledger.fewer rfl rfl rfl (fun free found => ?_) fun _ => id)
    cases reuse with
    | false => cases found
    | true => exact found
  | edit id change =>
    have ids : (s.alter id change).ids = s.ids := s.objects.idsAlter id change
    exact quiet (ledger.fewer rfl rfl rfl (fun _ old => old) fun _ stored => ids ▸ stored)
  | push | addFree | offerFree | releaseFree | cover | renumber | clear => cases ordinary

theorem runLedger (zlib : Zlib) (room : options.maxNumber < Numbering.last) {calls : List Call}
    (ordinary : ∀ call ∈ calls, call.Ordinary) :
    Ledger options ((make zlib options).run calls).1 ((make zlib options).after calls).ids
      ((make zlib options).after calls).numbering :=
  List.foldlRecOn calls advance (Ledger.start options) fun _ ledger call found =>
    performLedger room ledger (ordinary call found)

end Store

namespace Ledger

variable {options : Options} {issued live : List ObjId} {n : Numbering}

theorem issuedNodup (ledger : Ledger options issued live n) : issued.Nodup := by
  refine List.nodup_iff_count.mpr fun id => ?_
  obtain ⟨uses, range⟩ := ledger.inOrder id.number
  calc issued.count id
      = (issued.filter fun other => other.number == id.number).count id :=
        (List.count_filter (p := fun other : ObjId => other.number == id.number) (beq_self_eq_true _)).symm
    _ ≤ (generations issued id.number).count id.generation.toNat :=
        List.count_le_count_map (f := fun id : ObjId => id.generation.toNat)
    _ = (List.range uses).count id.generation.toNat := by rw [range]
    _ ≤ 1 := List.nodup_iff_count.mp List.nodup_range _

theorem numbersNodup (ledger : Ledger options issued live n) (once : live.Nodup) :
    (live.map ObjId.number).Nodup := by
  refine List.pairwise_map.mpr (List.Pairwise.imp_of_mem ?_ once)
  intro a b first second differ same
  exact differ (ledger.liveSame first second same)

end Ledger

namespace Store

theorem issuedOnce (zlib : Zlib) (options : Options) (calls : List Call)
    (room : options.maxNumber < Numbering.last) (ordinary : ∀ call ∈ calls, call.Ordinary) :
    let (issued, s) := (make zlib options).run calls
    issued.Nodup ∧ (s.ids.map ObjId.number).Nodup ∧
      (∀ id ∈ issued, 1 ≤ id.number ∧ id.number ≤ options.maxNumber) ∧
      (∀ number, ∃ uses, generations issued number = List.range uses) ∧
      ∀ id ∈ issued, 0 < id.generation → id.generation < options.maxGeneration := by
  have ledger := runLedger zlib room ordinary
  refine ⟨ledger.issuedNodup, ledger.numbersNodup (Table.idsNodup _), fun id found => ?_,
    ledger.inOrder, fun id found => ?_⟩
  · obtain ⟨proper, counted⟩ := ledger.counted id found
    refine ⟨?_, UInt32.le_iff_toNat_le.mpr (Nat.le_trans counted ledger.limit)⟩
    rw [UInt32.le_iff_toNat_le]
    exact Nat.pos_of_ne_zero fun none => proper (UInt32.toNat_inj.mp none)
  · intro later
    exact ledger.young id found (UInt16.ne_of_lt later).symm

def briefRun : List Call :=
  [.create .null, .create (.ref ⟨1, 0⟩), .remove ⟨1, 0⟩ true, .reserve 3, .createDictionary none,
    .createDictionary none, .setReuse false, .setReuse true, .remove ⟨4, 0⟩ true, .create .null,
    .create .null, .collect (.ref ⟨4, 1⟩) .empty]

theorem briefRunOrdinary : ∀ call ∈ briefRun, call.Ordinary := by
  simp [briefRun, Call.Ordinary, Numbering.last]

theorem briefRunIssued :
    let options : Options := ⟨true, none, 2, 5⟩
    let (issued, s) := (make .storing options).run briefRun
    issued = [⟨1, 0⟩, ⟨2, 0⟩, ⟨1, 1⟩, ⟨4, 0⟩, ⟨4, 1⟩, ⟨5, 0⟩] ∧ issued.Nodup ∧
      (s.ids.map ObjId.number).Nodup ∧
      (∀ id ∈ issued, 1 ≤ id.number ∧ id.number ≤ options.maxNumber) ∧
      (∃ uses, generations issued 4 = List.range uses) ∧
      ∀ id ∈ issued, 0 < id.generation → id.generation < options.maxGeneration := by
  obtain ⟨once, numbers, proper, inOrder, young⟩ :=
    issuedOnce .storing ⟨true, none, 2, 5⟩ briefRun (by decide) briefRunOrdinary
  exact ⟨rfl, once, numbers, proper, inOrder 4, young⟩

end Store
end PdfBody
