import PdfBody.Proofs.Runs
import PdfBody.Proofs.Store.Apart

/-! Whether the issued and the stored ids stay within the numbers that a store admits. A pushed id is looked
at, and a new number too; a free id is taken as it was given. -/
namespace PdfBody.Store

variable {s : Store} {zlib : Zlib} {options : Options} {issued : List ObjId}

def Admits (options : Options) (id : ObjId) : Prop := 1 ≤ id.number ∧ id.number ≤ options.maxNumber

def Astray (s : Store) : Prop := ∃ id rest, s.freeIds = id :: rest ∧ ¬ Admits s.options id

/-- The call creates an object under a free id that is out of bounds. -/
def Call.Strays (s : Store) : Call → Prop
  | create _ | createDictionary _ => s.Astray
  | _ => False

def Call.Gives (id : ObjId) : Call → Prop
  | addFree given | offerFree given | releaseFree given => given = id
  | _ => False

structure Bounded (options : Options) (issued : List ObjId) (s : Store) : Prop where
  option : s.options.maxNumber = options.maxNumber
  limit : s.numbering.maxNumber = options.maxNumber
  idle : s.numbering.Idle
  issued : ∀ id ∈ issued, Admits options id
  stored : ∀ id ∈ s.ids, Admits options id

theorem Bounded.start (zlib : Zlib) (options : Options) : (make zlib options).Bounded options [] where
  option := rfl
  limit := rfl
  idle _ := rfl
  issued := nofun
  stored := nofun

namespace Bounded

theorem admits (bounded : s.Bounded options issued) {id : ObjId} :
    Admits s.options id ↔ Admits options id := by
  unfold Admits
  rw [bounded.option]

theorem later {after : Store} {new : List ObjId} (bounded : s.Bounded options issued)
    (option : after.options.maxNumber = s.options.maxNumber)
    (later : s.numbering.Later after.numbering) (issues : ∀ id ∈ new, Admits options id)
    (stored : ∀ id ∈ after.ids, id ∈ s.ids ∨ Admits options id) :
    after.Bounded options (issued ++ new) where
  option := option.trans bounded.option
  limit := later.maxNumber.trans bounded.limit
  idle := later.idle bounded.idle
  issued id found := (List.mem_append.mp found).elim (bounded.issued id) (issues id)
  stored id found := (stored id found).elim (bounded.stored id) fun admitted => admitted

end Bounded

theorem freshAdmitted {n : Numbering} {number : UInt32} (limit : n.maxNumber = options.maxNumber)
    (within : number ≤ n.maxNumber) (beyond : (Numbering.after n.count).toNat ≤ number.toNat) :
    Admits options ⟨number, 0⟩ := by
  refine ⟨UInt32.le_iff_toNat_le.mpr (Nat.le_trans ?_ beyond), limit ▸ within⟩
  rcases Nat.lt_or_ge n.count.toNat Numbering.last.toNat with below | reached
  · rw [Numbering.afterCount (UInt32.lt_iff_toNat_lt.mpr below)]
    exact Nat.le_add_left _ _
  · rw [Numbering.reachedLast reached]
    decide

theorem allocatedAdmitted (bounded : s.Bounded options issued) (calm : ¬ s.Astray) {id : ObjId}
    {n : Numbering} (allocated : s.numbering.Allocated (.ok id) n) : Admits options id := by
  cases allocated with
  | pooled on first =>
    refine bounded.admits.mp ?_
    by_contra outside
    exact calm ⟨id, _, first, outside⟩
  | fresh empty within beyond => exact freshAdmitted bounded.limit within beyond

theorem createBounded (bounded : s.Bounded options issued) (calm : ¬ s.Astray) (value : Value) :
    (s.create value).2.Bounded options (issued ++ (s.create value).1.toOption.toList) := by
  have later := s.createLater value
  have made := created s value
  generalize (s.create value).1 = outcome, (s.create value).2 = after at made later ⊢
  cases made with
  | @placed id n allocated new =>
    have admitted := allocatedAdmitted bounded calm allocated
    refine bounded.later rfl later (fun other found => ?_) fun other stored => ?_
    · exact List.mem_singleton.mp found ▸ admitted
    · exact (Table.memIdsPut.mp stored).elim (fun same => .inr (same ▸ admitted)) .inl
  | occupied | full => exact bounded.later rfl later nofun fun _ => .inl

theorem createAstray (bounded : s.Bounded options issued) (astray : s.Astray) (value : Value) :
    ∃ id ∈ (s.create value).2.ids, ¬ Admits options id := by
  obtain ⟨id, rest, free, outside⟩ := astray
  rw [bounded.admits] at outside
  have filled : ¬ (s.numbering.reuse = false ∨ s.numbering.pool.items = []) := by
    intro empty
    rw [emptyPool bounded.idle empty] at free
    cases free
  have made := created s value
  generalize (s.create value).1 = outcome, (s.create value).2 = after at made ⊢
  cases made with
  | placed allocated new =>
    cases allocated with
    | pooled on first =>
      cases free.symm.trans first
      exact ⟨id, Table.memIdsPut.mpr (.inl rfl), outside⟩
    | fresh empty => exact absurd empty filled
  | occupied allocated old =>
    cases allocated with
    | pooled on first =>
      cases free.symm.trans first
      exact absurd (bounded.stored id old) outside
    | fresh empty => exact absurd empty filled
  | full allocated =>
    cases allocated with
    | full empty => exact absurd empty filled

theorem pushBounded (bounded : s.Bounded options issued) (id : ObjId) (value : Value) :
    (s.push id value).2.Bounded options (issued ++ []) := by
  have later := s.pushLater id value
  revert later
  unfold push
  split
  · exact fun later => bounded.later rfl later nofun fun _ => .inl
  · next inside =>
    obtain ⟨positive, within⟩ := not_or.mp inside
    have admitted : Admits options id := by
      refine bounded.admits.mp ⟨UInt32.le_iff_toNat_le.mpr (Nat.pos_of_ne_zero ?_),
        UInt32.not_lt.mp within⟩
      exact fun zero => positive (UInt32.toNat_inj.mp zero)
    refine fun later => bounded.later rfl later nofun fun other stored => ?_
    exact (Table.memIdsPut.mp stored).elim (fun same => .inr (same ▸ admitted)) .inl

theorem removeBounded (bounded : s.Bounded options issued) (id : ObjId) (free : Bool) :
    (s.remove id free).2.Bounded options (issued ++ []) := by
  have later := s.removeLater id free
  by_cases stored : id ∈ s.ids
  · rw [removeStored stored] at later ⊢
    exact bounded.later rfl later nofun fun other remains => .inl (Table.memIdsRemove.mp remains).1
  · rw [removeMissing stored] at later ⊢
    exact bounded.later rfl later nofun fun _ => .inl

theorem freedBounded {after : Store} {id : ObjId} (bounded : s.Bounded options issued)
    (freed : Freed s id after) : after.Bounded options (issued ++ []) := by
  have later := freedLater freed
  cases freed with
  | refused | returned => exact bounded.later rfl later nofun fun _ => .inl

def Call.Renumbers : Call → Prop
  | renumber _ _ _ => True
  | _ => False

theorem performBounded (bounded : s.Bounded options issued) {call : Call} (calm : ¬ call.Strays s)
    (keeps : ¬ call.Renumbers) :
    (call.perform s).2.Bounded options (issued ++ (call.perform s).1.toList) := by
  cases call with
  | create value => exact createBounded bounded calm value
  | createDictionary type => exact createBounded bounded calm _
  | push id value => exact pushBounded bounded id value
  | remove id free => exact removeBounded bounded id free
  | addFree id => exact freedBounded bounded (s.addFreeFreed id)
  | offerFree id => exact freedBounded bounded (s.offerFreeFreed id)
  | releaseFree id => exact freedBounded bounded (s.releaseFreeFreed id)
  | reserve number =>
    exact bounded.later rfl (Numbering.returnedLater (s.numbering.reserveReturned number)) nofun
      fun _ => .inl
  | setReuse reuse => exact bounded.later rfl (s.numbering.setReuseLater reuse) nofun fun _ => .inl
  | cover id =>
    exact bounded.later rfl (Numbering.returnedLater (s.numbering.coverReturned id)) nofun fun _ => .inl
  | collect root kept =>
    refine bounded.later rfl (s.collectLater root kept) nofun fun id stored => .inl ?_
    obtain ⟨o, survives, rfl⟩ := memIds.mp stored
    exact memIds.mpr ⟨o, ((collectMem root kept s).mp survives).1, rfl⟩
  | edit id change =>
    have ids : (s.alter id change).ids = s.ids := s.objects.idsAlter id change
    exact bounded.later rfl (.refl _) nofun fun other stored => .inl (ids ▸ stored)
  | clear =>
    refine ⟨bounded.option, bounded.option, fun _ => rfl, fun id found => ?_, nofun⟩
    exact bounded.issued id (List.append_nil issued ▸ found)
  | renumber => exact absurd trivial keeps

def FreeAdmitted (options : Options) (n : Numbering) : Prop := ∀ free ∈ n.pool.items, Admits options free

section

variable {n m : Numbering}

theorem admittedNumber {a b : ObjId} (same : a.number = b.number) (admitted : Admits options b) :
    Admits options a := by
  unfold Admits
  rwa [same]

theorem returnedAdmitted {number : UInt32} {pooled : Option ObjId}
    (returned : n.Returned number pooled m) (admitted : Admits options ⟨number, 0⟩)
    (free : FreeAdmitted options n) : FreeAdmitted options m := by
  intro id found
  rcases returned.pool id found with old | new
  · exact free id old
  · exact admittedNumber (returned.taken id new).1 admitted

theorem keptAdmitted {number : UInt32} (returned : n.Returned number none m)
    (free : FreeAdmitted options n) : FreeAdmitted options m :=
  fun id found => free id ((returned.pool id found).resolve_right nofun)

theorem allocatedFree {outcome : Except Fault ObjId} (allocated : n.Allocated outcome m)
    (free : FreeAdmitted options n) : FreeAdmitted options m := by
  cases allocated with
  | pooled on first => exact fun id found => free id ((Numbering.memRest first).mp found).1
  | fresh | full => exact free

theorem releaseAllAdmitted {ids : List ObjId} (admitted : ∀ id ∈ ids, Admits options id)
    (free : FreeAdmitted options n) : FreeAdmitted options (releaseAll ids n) := by
  induction ids generalizing n with
  | nil => exact free
  | cons id ids ih =>
    obtain ⟨first, others⟩ := List.forall_mem_cons.mp admitted
    exact ih others (returnedAdmitted (n.releaseReturned id) (admittedNumber rfl first) free)

end

theorem freedAdmitted {after : Store} {id : ObjId} (admitted : Admits options id)
    (free : FreeAdmitted options s.numbering) (freed : Freed s id after) :
    FreeAdmitted options after.numbering := by
  cases freed with
  | refused => exact free
  | returned unused returned => exact returnedAdmitted returned (admittedNumber rfl admitted) free

theorem createFree (free : FreeAdmitted options s.numbering) (value : Value) :
    FreeAdmitted options (s.create value).2.numbering := by
  have made := created s value
  generalize (s.create value).1 = outcome, (s.create value).2 = after at made ⊢
  cases made with
  | @placed id n allocated _ | @occupied id n _ allocated _ =>
    exact keptAdmitted (n.coverReturned id) (allocatedFree allocated free)
  | full allocated => exact allocatedFree allocated free

theorem performFree (bounded : s.Bounded options issued) (free : FreeAdmitted options s.numbering)
    {call : Call} (gives : ∀ id, call.Gives id → Admits options id) (keeps : ¬ call.Renumbers) :
    FreeAdmitted options (call.perform s).2.numbering := by
  cases call with
  | create value => exact createFree free value
  | createDictionary type => exact createFree free _
  | push id value =>
    simp only [Call.perform]
    rcases s.pushed id value with refused | placed
    · rw [refused]
      exact free
    · rw [placed]
      refine keptAdmitted (Numbering.coverReturned _ id) fun other found => ?_
      exact free other (Numbering.memClaim.mp found).1
  | remove id given =>
    simp only [Call.perform]
    by_cases stored : id ∈ s.ids
    · rw [removeStored stored]
      cases given with
      | false => exact free
      | true =>
        exact returnedAdmitted (s.numbering.releaseReturned id)
          (admittedNumber rfl (bounded.stored id stored)) free
    · rw [removeMissing stored]
      exact free
  | addFree id => exact freedAdmitted (gives id rfl) free (s.addFreeFreed id)
  | offerFree id => exact freedAdmitted (gives id rfl) free (s.offerFreeFreed id)
  | releaseFree id => exact freedAdmitted (gives id rfl) free (s.releaseFreeFreed id)
  | reserve number => exact keptAdmitted (s.numbering.reserveReturned number) free
  | setReuse reuse =>
    cases reuse with
    | false => exact fun _ found => absurd found List.not_mem_nil
    | true => exact free
  | cover id => exact keptAdmitted (s.numbering.coverReturned id) free
  | collect root kept =>
    have dead : ∀ id ∈ s.ids.filter fun id => !IdSet.contains id (s.objects.reachWith root kept),
        Admits options id := fun id among => bounded.stored id (List.mem_filter.mp among).1
    exact fun other found =>
      releaseAllAdmitted dead free other (Numbering.memClaimAll.mp found).1
  | edit id change => exact free
  | clear => exact fun _ found => absurd found List.not_mem_nil
  | renumber => exact absurd trivial keeps

theorem straysNot (option : s.options.maxNumber = options.maxNumber)
    (free : FreeAdmitted options s.numbering) (call : Call) : ¬ call.Strays s := by
  have near : ¬ s.Astray := by
    rintro ⟨id, rest, first, outside⟩
    refine outside ?_
    unfold Admits
    rw [option]
    exact free id (show id ∈ s.freeIds from first ▸ List.mem_cons_self)
  cases call with
  | create | createDictionary => exact near
  | _ => exact nofun

section

variable {calls : List Call}

theorem straysShow (bounded : s.Bounded options issued) {call : Call} (strays : call.Strays s) :
    ∃ id ∈ (call.perform s).2.ids, ¬ Admits options id := by
  cases call with
  | create value => exact createAstray bounded strays value
  | createDictionary type => exact createAstray bounded strays _
  | _ => cases strays

def KeepsWithin (zlib : Zlib) (options : Options) (calls : List Call) : Prop :=
  (∀ id ∈ ((make zlib options).run calls).1, Admits options id) ∧
    ∀ id ∈ ((make zlib options).after calls).ids, Admits options id

theorem withinUnlessAstray (keeps : ∀ call ∈ calls, ¬ call.Renumbers) :
    (∀ earlier, earlier <+: calls → KeepsWithin zlib options earlier) ↔
      ∀ earlier call, earlier ++ [call] <+: calls →
        ¬ call.Strays ((make zlib options).after earlier) := by
  refine everyPrefixWithin
    (fun earlier =>
      ((make zlib options).after earlier).Bounded options ((make zlib options).run earlier).1)
    (.start zlib options) ?_ fun _ bounded => ⟨bounded.issued, bounded.stored⟩
  intro earlier call within bounded
  rw [afterNext, runNext]
  by_cases strays : call.Strays ((make zlib options).after earlier)
  · obtain ⟨id, stored, outside⟩ := straysShow bounded strays
    refine .inr ⟨strays, fun shown => outside (shown.2 id ?_)⟩
    rwa [afterNext]
  · exact .inl ⟨strays, performBounded bounded strays (keeps call (within.subset (by simp)))⟩

theorem astrayUnlessGiven (keeps : ∀ call ∈ calls, ¬ call.Renumbers)
    (gives : ∀ call ∈ calls, ∀ id, call.Gives id → Admits options id) :
    ((make zlib options).after calls).Bounded options ((make zlib options).run calls).1 ∧
      FreeAdmitted options ((make zlib options).after calls).numbering := by
  induction calls using List.reverseRecOn with
  | nil => exact ⟨.start zlib options, nofun⟩
  | append_singleton earlier call ih =>
    obtain ⟨bounded, free⟩ := ih (fun other before => keeps other (List.mem_append_left _ before))
      fun other before => gives other (List.mem_append_left _ before)
    have last : call ∈ earlier ++ [call] := by simp
    rw [afterNext, runNext]
    exact ⟨performBounded bounded (straysNot bounded.option free call) (keeps call last),
      performFree bounded free (gives call last) (keeps call last)⟩

end

theorem idsWithinBounds (zlib : Zlib) (options : Options) (calls : List Call)
    (keeps : ∀ call ∈ calls, ¬ call.Renumbers) :
    ((∀ earlier, earlier <+: calls → KeepsWithin zlib options earlier) ↔
      ∀ earlier call, earlier ++ [call] <+: calls →
        ¬ call.Strays ((make zlib options).after earlier)) ∧
    ((∀ call ∈ calls, ∀ id, call.Gives id → Admits options id) →
      ∀ earlier, earlier <+: calls → KeepsWithin zlib options earlier) := by
  refine ⟨withinUnlessAstray keeps, fun gives earlier within => ?_⟩
  obtain ⟨bounded, -⟩ := astrayUnlessGiven (fun call before => keeps call (within.subset before))
    fun call before => gives call (within.subset before)
  exact ⟨bounded.issued, bounded.stored⟩

theorem givenWithinBounds :
    let calls : List Call := [.create .null, .remove ⟨1, 0⟩ true, .addFree ⟨5, 2⟩, .create .null,
      .create .null, .push ⟨9, 0⟩ .null]
    (∀ call ∈ calls, ¬ call.Renumbers) ∧
      ((make .storing .standard).run calls).1 = [⟨1, 0⟩, ⟨1, 1⟩, ⟨5, 2⟩] ∧
      KeepsWithin .storing .standard calls := by
  intro calls
  have keeps : ∀ call ∈ calls, ¬ call.Renumbers := by simp [calls, Call.Renumbers]
  refine ⟨keeps, rfl, (idsWithinBounds .storing .standard calls keeps).2 ?_ calls List.prefix_rfl⟩
  intro call among id given
  simp only [calls, List.mem_cons, List.not_mem_nil, or_false] at among
  rcases among with rfl | rfl | rfl | rfl | rfl | rfl <;> cases given
  exact ⟨by decide, by decide⟩

theorem nobodyStored :
    ¬ ∀ (options : Options) (calls : List Call), 1 ≤ options.maxNumber →
      (∀ call ∈ calls, ¬ call.Renumbers) → KeepsWithin .storing options calls := by
  intro always
  have kept := always .standard [.addFree .nobody, .create .null] (by decide)
    (by simp [Call.Renumbers])
  have issued := kept.1 .nobody (by decide)
  exact absurd issued.1 (by decide)

end PdfBody.Store
