import Mathlib.Data.List.Induction
import PdfBody.Proofs.Store.Collect

/-! Runs of a store: the calls that concern its objects and their ids, one after the other, and the ids
that they issue on the way. -/
namespace PdfBody

namespace Table

variable {table : Table} {id : ObjId} {o : Object}

theorem placeIds (o : Object) (objects : List Object) :
    (Ordered.place (fun o => o.id.rank) o objects).map Object.id =
      Ordered.place ObjId.rank o.id (objects.map Object.id) := by
  induction objects with
  | nil => rfl
  | cons first objects ih =>
    simp only [Ordered.place, List.map_cons]
    split
    · rfl
    · split
      · rfl
      · rw [List.map_cons, ih]

theorem memIdsPut : id ∈ ids (table.put o) ↔ id = o.id ∨ id ∈ table.ids := by
  unfold ids Ordered.put
  rw [placeIds, IdSet.memPlace]

theorem memIdsRemove {old : ObjId} : id ∈ (table.remove old).ids ↔ id ∈ table.ids ∧ id ≠ old := by
  unfold ids remove Ordered.keep
  simp only [List.mem_map, List.mem_filter, bne_iff_ne]
  constructor
  · rintro ⟨o, ⟨stored, other⟩, rfl⟩
    exact ⟨⟨o, stored, rfl⟩, other⟩
  · rintro ⟨⟨o, stored, rfl⟩, other⟩
    exact ⟨o, ⟨stored, other⟩, rfl⟩

theorem denseIds (place : Nat) (objects : List Object) :
    (dense place objects).map Object.id = (List.range' place objects.length).map denseId := by
  induction objects generalizing place with
  | nil => rfl
  | cons o objects ih =>
    rw [dense, List.map_cons, ih, List.length_cons, List.range'_succ, List.map_cons]

theorem renumberedIds (table : Table) :
    table.renumbered.ids = (List.range' 1 (min numberLimit table.ids.length)).map denseId := by
  unfold ids renumbered
  rw [denseIds, List.length_take, List.length_map]

theorem renumberedAll (few : table.ids.length ≤ numberLimit) :
    table.renumbered.ids = (List.range' 1 table.ids.length).map denseId := by
  rw [renumberedIds, Nat.min_eq_right few]

theorem renumberedFull (many : numberLimit < table.ids.length) :
    table.renumbered.ids = (List.range' 1 numberLimit).map denseId := by
  rw [renumberedIds, Nat.min_eq_left (Nat.le_of_lt many)]

theorem idsAlter (id : ObjId) (change : Object → Object) : (table.alter id change).ids = table.ids := by
  unfold ids alter Ordered.update
  rw [List.map_map]
  refine List.map_congr_left fun o _ => ?_
  dsimp only [Function.comp_apply]
  split <;> rfl

theorem containsIff : table.contains id = true ↔ id ∈ table.ids := by
  unfold contains
  cases stored : table.find? id with
  | none => simpa using findNone.mp stored
  | some o =>
    obtain ⟨member, rfl⟩ := findIff.mp stored
    exact ⟨fun _ => List.mem_map_of_mem member, fun _ => rfl⟩

theorem usesNumberIff {number : UInt32} :
    table.usesNumber number = true ↔ ∃ id ∈ table.ids, id.number = number := by
  unfold usesNumber ids
  simp only [List.any_eq_true, beq_iff_eq, List.mem_map]
  constructor
  · rintro ⟨o, stored, same⟩
    exact ⟨o.id, ⟨o, stored, rfl⟩, same⟩
  · rintro ⟨id, ⟨o, stored, rfl⟩, same⟩
    exact ⟨o, stored, same⟩

end Table

theorem Location.patchIds (renames : Renaming) (state : Value × Table) (place : Location) :
    (patch renames state place).2.ids = state.2.ids := by
  unfold patch
  split
  · rfl
  · split
    · rfl
    · split
      · rfl
      · split
        · rfl
        · exact Table.idsAlter ..

namespace Store

inductive Call where
  | create (value : Value)
  | createDictionary (type : Option String)
  | push (id : ObjId) (value : Value)
  | remove (id : ObjId) (free : Bool)
  | addFree (id : ObjId)
  | offerFree (id : ObjId)
  | releaseFree (id : ObjId)
  | reserve (number : UInt32)
  | setReuse (reuse : Bool)
  | cover (id : ObjId)
  | collect (root : Value) (kept : IdSet)
  | renumber (root : Value) (kept : IdSet) (collectFirst : Bool)
  | clear
  | edit (id : ObjId) (change : Object → Object)

def Call.perform (s : Store) : Call → Option ObjId × Store
  | create value => ((s.create value).1.toOption, (s.create value).2)
  | createDictionary type => ((s.createDictionary type).1.toOption, (s.createDictionary type).2)
  | push id value => (none, (s.push id value).2)
  | remove id free => (none, (s.remove id free).2)
  | addFree id => (none, s.addFree id)
  | offerFree id => (none, (s.offerFree id).2)
  | releaseFree id => (none, (s.releaseFree id).2)
  | reserve number => (none, s.reserve number)
  | setReuse reuse => (none, s.setReuse reuse)
  | cover id => (none, (s.cover id).2)
  | collect root kept => (none, (s.collect root kept).2)
  | renumber root kept collectFirst => (none, (s.renumber root kept collectFirst).2)
  | clear => (none, s.clear)
  | edit id change => (none, s.alter id change)

def advance (state : List ObjId × Store) (call : Call) : List ObjId × Store :=
  (state.1 ++ (call.perform state.2).1.toList, (call.perform state.2).2)

def run (s : Store) (calls : List Call) : List ObjId × Store := calls.foldl advance ([], s)

def after (s : Store) (calls : List Call) : Store := (s.run calls).2

theorem runNext (s : Store) (earlier : List Call) (call : Call) :
    s.run (earlier ++ [call]) = advance (s.run earlier) call := by
  unfold run
  rw [List.foldl_append]
  rfl

theorem afterNext (s : Store) (earlier : List Call) (call : Call) :
    s.after (earlier ++ [call]) = (call.perform (s.after earlier)).2 :=
  congrArg Prod.snd (s.runNext earlier call)

theorem afterBehind (s : Store) (earlier later : List Call) :
    s.after (earlier ++ later) = (s.after earlier).after later := by
  induction later using List.reverseRecOn with
  | nil => rw [List.append_nil]; rfl
  | append_singleton later call ih => rw [← List.append_assoc, afterNext, ih, afterNext]

inductive Created (s : Store) (value : Value) : Except Fault ObjId → Store → Prop where
  | placed {id : ObjId} {n : Numbering} (allocated : s.numbering.Allocated (.ok id) n)
      (new : id ∉ s.ids) :
      Created s value (.ok id)
        ((s.withNumbering (n.cover id).2).withObjects (s.objects.put (.make id value)))
  | occupied {id : ObjId} {n : Numbering} {text : String}
      (allocated : s.numbering.Allocated (.ok id) n) (old : id ∈ s.ids) :
      Created s value (.error (.state text)) (s.withNumbering (n.cover id).2)
  | full {text : String} {n : Numbering}
      (allocated : s.numbering.Allocated (.error (.outOfRange text)) n) :
      Created s value (.error (.outOfRange text)) (s.withNumbering n)

theorem created (s : Store) (value : Value) :
    Created s value (s.create value).1 (s.create value).2 := by
  have allocated := s.numbering.allocated
  unfold create
  split
  · next fault n outcome =>
    rw [outcome] at allocated
    cases fault with
    | outOfRange text => exact .full allocated
    | _ => nomatch allocated
  · next id n outcome =>
    rw [outcome] at allocated
    dsimp only
    split
    · next old => exact .occupied allocated (Table.containsIff.mp old)
    · next new => exact .placed allocated fun stored => new (Table.containsIff.mpr stored)

theorem pushed (s : Store) (id : ObjId) (value : Value) :
    (s.push id value).2 = s ∨
      (s.push id value).2 = (s.withNumbering ((s.numbering.claim id.number).cover id).2).withObjects
        (s.objects.put (.make id value)) := by
  unfold push
  split
  · exact .inl rfl
  · exact .inr rfl

theorem removeStored {s : Store} {id : ObjId} (stored : id ∈ s.ids) (free : Bool) :
    (s.remove id free).2 = (s.withObjects (s.objects.remove id)).withNumbering
      (if free then (s.numbering.release id).2 else s.numbering) := by
  unfold remove
  cases found : s.find? id with
  | none => exact absurd stored (Table.findNone.mp found)
  | some o => cases free <;> rfl

theorem removeMissing {s : Store} {id : ObjId} (missing : id ∉ s.ids) (free : Bool) :
    (s.remove id free).2 = s := by
  unfold remove
  rw [find?, Table.findNone.mpr missing]

theorem patchedIds (renames : Renaming) (places : List Location) (state : Value × Table) :
    (places.foldl (Location.patch renames) state).2.ids = state.2.ids := by
  induction places generalizing state with
  | nil => rfl
  | cons place places ih => rw [List.foldl_cons, ih, Location.patchIds]

/-- A renumbering that finds too many objects has given them new ids all the same, but has left the free
ids as they were. -/
inductive Recounted (s : Store) : Store → Prop where
  | done {objects : Table} (few : s.ids.length ≤ numberLimit)
      (ids : objects.ids = (List.range' 1 s.ids.length).map denseId) :
      Recounted s ((s.withObjects objects).withNumbering
        (s.numbering.reset (UInt32.ofNat s.ids.length)))
  | stopped (many : numberLimit < s.ids.length) :
      Recounted s (s.withObjects s.objects.renumbered)

theorem recounted (s : Store) (root : Value) (kept : IdSet) (collectFirst : Bool) :
    Recounted (if collectFirst then (s.collect root kept).2 else s)
      (s.renumber root kept collectFirst).2 := by
  unfold renumber
  generalize (if collectFirst then (s.collect root kept).2 else s) = before
  have length : before.objects.items.length = before.ids.length := (List.length_map _).symm
  dsimp only
  rw [length]
  split
  · next many => exact .stopped many
  · next few =>
    have few := Nat.le_of_not_lt few
    have renumbered : before.objects.renumbered.ids =
        (List.range' 1 before.ids.length).map denseId := Table.renumberedAll few
    have patched := patchedIds before.objects.renames (before.locations root)
      (root, before.objects.renumbered)
    generalize (before.locations root).foldl (Location.patch before.objects.renames)
      (root, before.objects.renumbered) = state at patched ⊢
    obtain ⟨root', objects⟩ := state
    have ids := patched.trans renumbered
    have count : objects.items.length = before.ids.length := by
      simpa [Table.ids] using congrArg List.length ids
    dsimp only
    rw [count]
    exact .done few ids

theorem recountedWhole (s : Store) (root : Value) (kept : IdSet) :
    s.Recounted ((Call.renumber root kept false).perform s).2 :=
  s.recounted root kept false

theorem collectLater (s : Store) (root : Value) (kept : IdSet) :
    s.numbering.Later (s.collect root kept).2.numbering :=
  (Numbering.releaseAllLater _ _).trans (Numbering.claimAllLater _ _)

theorem createLater (s : Store) (value : Value) :
    s.numbering.Later (s.create value).2.numbering := by
  have made := created s value
  generalize (s.create value).1 = outcome, (s.create value).2 = after at made ⊢
  cases made with
  | @placed id n allocated _ | @occupied id n _ allocated _ =>
    exact (Numbering.allocatedLater allocated).trans (Numbering.returnedLater (n.coverReturned id))
  | full allocated => exact Numbering.allocatedLater allocated

theorem pushLater (s : Store) (id : ObjId) (value : Value) :
    s.numbering.Later (s.push id value).2.numbering := by
  rcases s.pushed id value with refused | placed
  · rw [refused]
    exact .refl _
  · rw [placed]
    exact (s.numbering.claimLater id.number).trans (Numbering.returnedLater (Numbering.coverReturned ..))

theorem removeLater (s : Store) (id : ObjId) (free : Bool) :
    s.numbering.Later (s.remove id free).2.numbering := by
  by_cases stored : id ∈ s.ids
  · rw [removeStored stored]
    cases free with
    | false => exact .refl _
    | true => exact Numbering.returnedLater (s.numbering.releaseReturned id)
  · rw [removeMissing stored]
    exact .refl _

inductive Freed (s : Store) (id : ObjId) : Store → Prop where
  | refused : Freed s id s
  | returned {pooled : Option ObjId} {n : Numbering} (unused : ¬ s.objects.usesNumber id.number)
      (returned : s.numbering.Returned id.number pooled n) : Freed s id (s.withNumbering n)

theorem addFreeFreed (s : Store) (id : ObjId) : Freed s id (s.addFree id) := by
  unfold addFree
  split
  · exact .refused
  · next unused => exact .returned unused (s.numbering.addFreeReturned id)

theorem offerFreeFreed (s : Store) (id : ObjId) : Freed s id (s.offerFree id).2 := by
  unfold offerFree
  split
  · exact .refused
  · next unused => exact .returned unused (s.numbering.offerReturned id)

theorem releaseFreeFreed (s : Store) (id : ObjId) : Freed s id (s.releaseFree id).2 := by
  unfold releaseFree
  split
  · exact .refused
  · next unused => exact .returned unused (s.numbering.releaseReturned id)

theorem freedLater {s after : Store} {id : ObjId} (freed : Freed s id after) :
    s.numbering.Later after.numbering := by
  cases freed with
  | refused => exact .refl _
  | returned unused returned => exact Numbering.returnedLater returned

def Call.Restarts : Call → Prop
  | clear | renumber _ _ _ => True
  | _ => False

theorem performLater (s : Store) {call : Call} (calm : ¬ call.Restarts) :
    s.numbering.Later (call.perform s).2.numbering := by
  cases call with
  | create value => exact s.createLater value
  | createDictionary type => exact s.createLater _
  | push id value => exact s.pushLater id value
  | remove id free => exact s.removeLater id free
  | addFree id => exact freedLater (s.addFreeFreed id)
  | offerFree id => exact freedLater (s.offerFreeFreed id)
  | releaseFree id => exact freedLater (s.releaseFreeFreed id)
  | reserve number => exact Numbering.returnedLater (s.numbering.reserveReturned number)
  | setReuse reuse => exact s.numbering.setReuseLater reuse
  | cover id => exact Numbering.returnedLater (s.numbering.coverReturned id)
  | collect root kept => exact s.collectLater root kept
  | edit id change => exact .refl _
  | renumber | clear => exact absurd trivial calm

theorem performIdle {s : Store} (idle : s.numbering.Idle) (call : Call) :
    (call.perform s).2.numbering.Idle := by
  by_cases calm : call.Restarts
  · cases call with
    | clear => exact fun _ => rfl
    | renumber root kept collectFirst =>
      have outcome := s.recounted root kept collectFirst
      simp only [Call.perform]
      generalize (s.renumber root kept collectFirst).2 = after at outcome ⊢
      cases outcome with
      | done few ids => exact fun _ => rfl
      | stopped many =>
        cases collectFirst with
        | false => exact idle
        | true => exact (s.collectLater root kept).idle idle
    | _ => cases calm
  · exact (s.performLater calm).idle idle

end Store
end PdfBody
