import Mathlib.Data.List.Nodup
import Mathlib.Data.List.Perm.Subperm
import PdfBody.Proofs.Store.Retired

/-! What the bookkeeping of numbers keeps to in every state of a run, and what it does not forget until the
free ids start afresh. -/
namespace PdfBody.Store

variable {zlib : Zlib} {options : Options} {calls : List Call}

theorem afterOrderly (zlib : Zlib) (options : Options) (calls : List Call) :
    ((make zlib options).after calls).numbering.Orderly := by
  induction calls using List.reverseRecOn with
  | nil => exact .empty rfl
  | append_singleton earlier call ih =>
    rw [afterNext]
    exact performOrderly ih call

def Gone (s : Store) (number : UInt32) (earlier later : List Call) : Prop :=
  (s.after earlier).numbering.isRetired number = true ∧ ∀ next ∈ later, ¬ next.Restarts

theorem goneRetired {s : Store} {number : UInt32} {earlier later : List Call}
    (orderly : ∀ calls, (s.after calls).numbering.Orderly)
    (lastOpen : ∀ first, first <+: earlier ++ later →
      (s.after first).numbering.isRetired Numbering.last = false)
    (gone : s.Gone number earlier later) :
    (s.after (earlier ++ later)).numbering.isRetired number = true ∧
      ∀ id ∈ ((s.after earlier).run later).1, id.number ≠ number := by
  obtain ⟨retired, calm⟩ := gone
  have lastOpen : ∀ first, first <+: later →
      ((s.after earlier).after first).numbering.isRetired Numbering.last = false := by
    intro first before
    rw [← afterBehind]
    exact lastOpen _ ((List.prefix_append_right_inj _).mpr before)
  obtain ⟨-, stays, apart⟩ := runRetired (orderly _) lastOpen calm retired
  rw [afterBehind]
  exact ⟨stays, apart⟩

theorem uncoversStored {s : Store} {call : Call} (uncovers : call.Uncovers s) :
    ∃ id ∈ (call.perform s).2.ids, (call.perform s).2.numbering.count < id.number := by
  obtain ⟨many, below⟩ := uncovers
  cases call with
  | renumber root kept collectFirst =>
    have outcome := s.recounted root kept collectFirst
    simp only [Call.Overflows, Call.perform] at many below ⊢
    generalize (if collectFirst then (s.collect root kept).2 else s) = before at outcome many
    generalize (s.renumber root kept collectFirst).2 = after at outcome below ⊢
    cases outcome with
    | done few => exact absurd many (Nat.not_lt.mpr few)
    | stopped _ =>
      obtain ⟨id, among, same⟩ := numberCounted.mp (show Numbering.last ≠ 0 by decide)
      refine ⟨id, ?_, same ▸ below⟩
      change id ∈ before.objects.renumbered.ids
      rwa [Table.renumberedFull many]
  | _ => cases many

theorem coveredUnlessUncovered :
    (∀ earlier, earlier <+: calls → ∀ id ∈ ((make zlib options).after earlier).ids,
        id.number ≤ ((make zlib options).after earlier).numbering.count) ↔
      ∀ earlier call, earlier ++ [call] <+: calls →
        ¬ call.Uncovers ((make zlib options).after earlier) := by
  refine everyPrefix (fun earlier => ((make zlib options).after earlier).Covered options.maxNumber)
    (makeCovered zlib options) ?_
    (fun _ covered id stored => UInt32.le_iff_toNat_le.mpr (covered.covered id stored)) calls
  intro earlier call covered
  rw [afterNext]
  by_cases uncovers : call.Uncovers ((make zlib options).after earlier)
  · obtain ⟨id, stored, beyond⟩ := uncoversStored uncovers
    exact .inr ⟨uncovers, fun all => UInt32.not_le.mpr beyond (all id stored)⟩
  · exact .inl ⟨uncovers, performCovered covered uncovers⟩

/-- At every moment of a run no free id is retired, none is left where numbers are not reused, and
the count has reached the free ids and, exactly as long as no renumbering fails with the count below the
numbers it has dealt out, the objects. It falls only where the free ids start afresh. Until then exactly
the calls that retire a number add to the retired ones, and these are neither issued nor free. -/
theorem bookkept (zlib : Zlib) (options : Options) (calls : List Call)
    (lastOpen : ∀ earlier, earlier <+: calls →
      ((make zlib options).after earlier).numbering.isRetired Numbering.last = false) :
    let s := (make zlib options).after calls
    (∀ free ∈ s.freeIds, s.numbering.isRetired free.number = false) ∧
      (s.numbering.reuse = false → s.freeIds = []) ∧
      (∀ free ∈ s.freeIds, free.number ≤ s.numbering.count) ∧
      ((∀ earlier, earlier <+: calls → ∀ id ∈ ((make zlib options).after earlier).ids,
          id.number ≤ ((make zlib options).after earlier).numbering.count) ↔
        ∀ earlier call, earlier ++ [call] <+: calls →
          ¬ call.Uncovers ((make zlib options).after earlier)) ∧
      (∀ call : Call, ¬ call.Restarts → s.numbering.count ≤ (call.perform s).2.numbering.count) ∧
      (∀ (call : Call) (number : UInt32), ¬ call.Restarts →
        ((call.perform s).2.numbering.isRetired number = true ↔
          s.numbering.isRetired number = true ∨ call.Retires s number)) ∧
      ∀ earlier later number, calls = earlier ++ later →
        (make zlib options).Gone number earlier later →
          s.numbering.isRetired number = true ∧
            (∀ id ∈ (((make zlib options).after earlier).run later).1, id.number ≠ number) ∧
            ∀ free ∈ s.freeIds, free.number ≠ number := by
  have orderly := afterOrderly zlib options calls
  refine ⟨orderly.unretired, orderly.idle, fun free found => ?counted, coveredUnlessUncovered,
    fun call calm => ?rises, fun call number calm => performRetired calm, ?gone⟩
  case counted => exact UInt32.le_iff_toNat_le.mpr (orderly.counted free found)
  case rises => exact UInt32.le_iff_toNat_le.mpr (performLater _ calm).count
  case gone =>
    rintro earlier later number rfl gone
    obtain ⟨retired, apart⟩ := goneRetired (afterOrderly zlib options) lastOpen gone
    refine ⟨retired, apart, fun free found same => ?_⟩
    have unretired := orderly.unretired free found
    rw [same, retired] at unretired
    cases unretired

def sparseRun : List Call :=
  [.create .null, .reserve 2, .create .null, .remove ⟨1, 0⟩ true, .addFree ⟨1, 5⟩, .addFree ⟨7, 0⟩,
    .createDictionary none, .push ⟨8, 3⟩ .null]

theorem sparseRunOpen : ∀ earlier, earlier <+: sparseRun →
    ((make .storing ⟨true, none, 1, 9⟩).after earlier).numbering.isRetired Numbering.last = false := by
  have all : ∀ n < 9, ((make .storing ⟨true, none, 1, 9⟩).after (sparseRun.take n)).numbering.isRetired
      Numbering.last = false := by decide
  intro earlier before
  rw [List.prefix_iff_eq_take.mp before]
  exact all _ (Nat.lt_succ_of_le before.length_le)

theorem sparseRunBookkept :
    let s := (make .storing ⟨true, none, 1, 9⟩).after sparseRun
    s.ids = [⟨3, 0⟩, ⟨7, 0⟩, ⟨8, 3⟩] ∧ (∀ id ∈ s.ids, id.number ≤ s.numbering.count) ∧
      s.numbering.isRetired 1 = true ∧ ∀ free ∈ s.freeIds, free.number ≠ 1 := by
  obtain ⟨-, -, -, covered, -, -, gone⟩ := bookkept .storing ⟨true, none, 1, 9⟩ sparseRun sparseRunOpen
  have given : (make .storing ⟨true, none, 1, 9⟩).Gone 1 (sparseRun.take 4) (sparseRun.drop 4) := by
    refine ⟨by decide, fun next later => ?_⟩
    simp only [sparseRun, List.drop_succ_cons, List.drop_zero, List.mem_cons, List.not_mem_nil,
      or_false] at later
    rcases later with rfl | rfl | rfl | rfl <;> exact not_false
  obtain ⟨retired, -, unpooled⟩ := gone _ _ 1 rfl given
  refine ⟨rfl, covered.mpr (fun earlier call before uncovers => ?_) _ List.prefix_rfl, retired, unpooled⟩
  have overflows := uncovers.1
  have among : call ∈ sparseRun := before.subset (by simp)
  simp only [sparseRun, List.mem_cons, List.not_mem_nil, or_false] at among
  rcases among with rfl | rfl | rfl | rfl | rfl | rfl | rfl | rfl <;> cases overflows

section

variable {s : Store} {ids : List ObjId} {number : UInt32} {bound : Nat}

def pushes (ids : List ObjId) : List Call := ids.map fun id => .push id .null

theorem pushedAll (admitted : ∀ id ∈ ids, id.number ≠ 0 ∧ id.number ≤ s.options.maxNumber)
    (counted : s.numbering.count.toNat ≤ bound) (low : ∀ id ∈ ids, id.number.toNat ≤ bound) :
    (s.after (pushes ids)).options = s.options ∧
      (s.after (pushes ids)).numbering.count.toNat ≤ bound ∧ ids ⊆ (s.after (pushes ids)).ids := by
  induction ids using List.reverseRecOn with
  | nil => exact ⟨rfl, counted, List.nil_subset _⟩
  | append_singleton earlier id ih =>
    obtain ⟨option, reached, stored⟩ := ih
      (fun other before => admitted other (List.mem_append_left _ before))
      fun other before => low other (List.mem_append_left _ before)
    have last : id ∈ earlier ++ [id] := by simp
    obtain ⟨proper, within⟩ := admitted id last
    rw [← option] at within
    have next : s.after (pushes (earlier ++ [id])) = ((s.after (pushes earlier)).push id .null).2 := by
      rw [pushes, List.map_append]
      exact afterNext ..
    generalize s.after (pushes earlier) = t at option reached stored within next
    rw [next, push, if_neg (not_or.mpr ⟨proper, UInt32.not_lt.mpr within⟩)]
    refine ⟨option, ?_, ?_⟩
    · exact Nat.le_trans (Nat.le_of_eq (Numbering.coverCount _ id)) (Nat.max_le.mpr ⟨reached, low id last⟩)
    · intro other among
      refine Table.memIdsPut.mpr ?_
      rcases List.mem_append.mp among with before | here
      · exact .inr (stored before)
      · exact .inl (List.mem_singleton.mp here)

theorem crowdUncovers (once : ids.Nodup) (many : numberLimit < ids.length)
    (admitted : ∀ id ∈ ids, id.number ≠ 0 ∧ id.number ≤ s.options.maxNumber)
    (counted : s.numbering.count.toNat ≤ bound) (low : ∀ id ∈ ids, id.number.toNat ≤ bound)
    (below : bound < Numbering.last.toNat) (root : Value) (kept : IdSet) :
    (Call.renumber root kept false).Uncovers (s.after (pushes ids)) := by
  obtain ⟨-, reached, stored⟩ := pushedAll admitted counted low
  have crowded : numberLimit < (s.after (pushes ids)).ids.length :=
    Nat.lt_of_lt_of_le many (List.subperm_of_subset once stored).length_le
  generalize s.after (pushes ids) = t at reached crowded
  refine ⟨crowded, UInt32.lt_iff_toNat_lt.mpr (Nat.lt_of_le_of_lt ?_ below)⟩
  have outcome := t.recountedWhole root kept
  generalize ((Call.renumber root kept false).perform t).2 = after at outcome ⊢
  cases outcome with
  | done few => exact absurd crowded (Nat.not_lt.mpr few)
  | stopped _ => exact reached

theorem unretiredRun (unretired : s.numbering.isRetired number = false) {calls : List Call}
    (quiet : ∀ call ∈ calls, (∃ id value, call = .push id value) ∨
      ∃ root kept, call = .renumber root kept false) :
    (s.after calls).numbering.isRetired number = false := by
  induction calls using List.reverseRecOn with
  | nil => exact unretired
  | append_singleton earlier call ih =>
    have before := ih fun other among => quiet other (List.mem_append_left _ among)
    rw [afterNext]
    generalize s.after earlier = t at before ⊢
    rcases quiet call (by simp) with ⟨id, value, rfl⟩ | ⟨root, kept, rfl⟩
    · have calm : ¬ (Call.push id value).Restarts := not_false
      refine eq_false_of_ne_true fun retired => ?_
      rcases (performRetired calm).mp retired with old | retires
      · rw [before] at old
        cases old
      · exact absurd retires not_false
    · have outcome := t.recountedWhole root kept
      generalize ((Call.renumber root kept false).perform t).2 = after at outcome ⊢
      cases outcome with
      | done few => rfl
      | stopped _ => exact before

def crowdId (place : Nat) : ObjId := ⟨UInt32.ofNat (place / 65536 + 1), UInt16.ofNat (place % 65536)⟩

def crowd (count : Nat) : List ObjId := (List.range count).map crowdId

theorem crowdNumber {place : Nat} (small : place < 4294967296) :
    (crowdId place).number.toNat = place / 65536 + 1 :=
  UInt32.toNat_ofNat_of_lt' (by simp only [UInt32.size]; omega)

theorem crowdOnce {count : Nat} (small : count ≤ 4294967296) : (crowd count).Nodup := by
  refine List.Nodup.map_on (fun a first b second same => ?_) List.nodup_range
  have first := List.mem_range.mp first
  have second := List.mem_range.mp second
  have number := congrArg (fun id : ObjId => id.number.toNat) same
  have generation := congrArg (fun id : ObjId => id.generation.toNat) same
  simp only [crowdNumber (Nat.lt_of_lt_of_le first small),
    crowdNumber (Nat.lt_of_lt_of_le second small)] at number
  simp only [crowdId, UInt16.toNat_ofNat'] at generation
  omega

end

/-- A renumbering that fails for want of numbers leaves the count behind the numbers it has dealt out. -/
theorem crowdUncounted :
    ¬ ∀ (options : Options) (calls : List Call),
      (∀ earlier, earlier <+: calls →
        ((make .storing options).after earlier).numbering.isRetired Numbering.last = false) →
      ∀ id ∈ ((make .storing options).after calls).ids,
        id.number ≤ ((make .storing options).after calls).numbering.count := by
  intro always
  have uncovers : (Call.renumber .null .empty false).Uncovers
      ((make .storing .standard).after (pushes (crowd 4294967296))) := by
    have numbers : ∀ id ∈ crowd 4294967296, 1 ≤ id.number.toNat ∧ id.number.toNat ≤ 65536 := by
      intro id among
      obtain ⟨place, inside, rfl⟩ := List.mem_map.mp among
      have small := List.mem_range.mp inside
      rw [crowdNumber small]
      omega
    refine crowdUncovers (crowdOnce (Nat.le_refl _)) ?_ (fun id among => ?_) (Nat.zero_le 65536)
      (fun id among => (numbers id among).2) (by decide) _ _
    · rw [crowd, List.length_map, List.length_range]
      decide
    · have range := numbers id among
      refine ⟨fun none => ?_, UInt32.le_iff_toNat_le.mpr (Nat.le_trans range.2 (by decide))⟩
      rw [none] at range
      exact absurd range.1 (by decide)
  obtain ⟨id, stored, beyond⟩ := uncoversStored uncovers
  rw [← afterNext] at stored beyond
  refine UInt32.not_le.mpr beyond (always .standard _ (fun earlier before => ?_) id stored)
  refine unretiredRun rfl fun call among => ?_
  rcases List.mem_append.mp (before.subset among) with pushed | last
  · obtain ⟨id, -, rfl⟩ := List.mem_map.mp pushed
    exact .inl ⟨id, .null, rfl⟩
  · exact .inr ⟨.null, .empty, List.mem_singleton.mp last⟩

end PdfBody.Store
