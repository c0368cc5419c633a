import PdfBody.Store.Streams
import PdfBody.Proofs.Store.Renumber
import PdfBody.Proofs.Stream.Calls

/-! What a store becomes when a handle on the stream of an object has been used. -/
namespace PdfBody

theorem Table.findAlter {table : Table} {id other : ObjId} {change : Object → Object} :
    (table.alter id change).find? other = (table.find? other).map fun o =>
      if o.id = id then ⟨o.id, (change o).value, (change o).stream, (change o).dirty⟩ else o := by
  unfold Table.find? Ordered.find? Table.alter Ordered.update
  rw [List.find?_map]
  congr 2
  funext o
  rw [Function.comp_apply]
  split <;> rfl

theorem Value.getEntriesOk {v : Value} {entries : Entries} (viewed : v.getEntries = .ok entries) :
    v = .dict entries := by
  cases v with
  | dict _ =>
    cases viewed
    rfl
  | _ => cases viewed

namespace Store

def handle? (id : ObjId) (s : Store) : Option Handle :=
  match s.find? id with
  | none => none
  | some o =>
    match o.value.getEntries with
    | .error _ => none
    | .ok entries =>
      some ⟨id, ⟨(s.streamOf o).1, entries⟩, o.dirty, [], s.registry, s.options.defaultFilter⟩

def settle (h : Handle) (made : List Notice) (s : Store) : Store :=
  (s.alter h.owner fun _ => ⟨h.owner, .dict h.content.entries, some h.content.stream, h.dirty⟩).post
    (made ++ h.events.flatMap s.observers.notify)

inductive Used (s : Store) (id : ObjId) (use : Handle → Except Fault Unit × Handle) :
    Except Fault Unit → Store → Prop where
  | failed {fault : Fault} (none : s.handle? id = none) : Used s id use (.error fault) s
  | used {h : Handle} {made : List Notice} (found : s.handle? id = some h)
      (own : (use h).2.owner = id) (news : ∀ notice ∈ made, notice = .streamMade id) :
      Used s id use (use h).1 (s.settle (use h).2 made)

theorem onStreamUsed (s : Store) (id : ObjId) {use : Handle → Except Fault Unit × Handle}
    (own : ∀ h, (use h).2.owner = h.owner) :
    Used s id use (s.onStream id use).1 (s.onStream id use).2 := by
  unfold onStream withStream
  cases stored : s.find? id with
  | none =>
    refine .failed ?_
    rw [handle?, stored]
  | some o =>
    dsimp only
    cases viewed : o.value.getEntries with
    | error fault =>
      refine .failed ?_
      rw [handle?, stored]
      dsimp only
      rw [viewed]
    | ok entries =>
      have here : o.id = id := (Table.findIff.mp stored).2
      have found : s.handle? id = some
          ⟨id, ⟨(s.streamOf o).1, entries⟩, o.dirty, [], s.registry, s.options.defaultFilter⟩ := by
        rw [handle?, stored]
        dsimp only
        rw [viewed]
      have news : ∀ notice ∈ (s.streamOf o).2, notice = .streamMade id := by
        intro notice told
        unfold streamOf at told
        split at told
        · cases told
        · split at told
          · rw [here] at told
            exact List.mem_singleton.mp told
          · cases told
      have step : Used s id use _ _ := .used found (own _) news
      unfold settle at step
      rw [own] at step
      exact step

section

variable {s : Store} {h : Handle} {made : List Notice}

theorem handleFresh {id : ObjId} (found : s.handle? id = some h) : h.owner = id ∧ h.events = [] := by
  unfold handle? at found
  split at found
  · cases found
  · split at found
    · cases found
    · cases found
      exact ⟨rfl, rfl⟩

theorem handleStored {id : ObjId} (found : s.handle? id = some h) :
    ∃ o, s.find? id = some o ∧ o.value = .dict h.content.entries ∧
      ∀ stream, o.stream = some stream → h.content.stream = stream := by
  unfold handle? at found
  cases stored : s.find? id with
  | none =>
    rw [stored] at found
    cases found
  | some o =>
    rw [stored] at found
    dsimp only at found
    cases viewed : o.value.getEntries with
    | error fault =>
      rw [viewed] at found
      cases found
    | ok entries =>
      rw [viewed] at found
      cases found
      refine ⟨o, rfl, Value.getEntriesOk viewed, fun stream own => ?_⟩
      unfold streamOf
      rw [own]

theorem findSettled {o : Object} (stored : s.find? h.owner = some o) :
    (s.settle h made).find? h.owner =
      some ⟨o.id, .dict h.content.entries, some h.content.stream, h.dirty⟩ := by
  refine Table.findAlter.trans ?_
  rw [show s.objects.find? h.owner = some o from stored, Option.map_some,
    if_pos (Table.findIff.mp stored).2]

theorem findOther {other : ObjId} (different : other ≠ h.owner) :
    (s.settle h made).find? other = s.find? other := by
  refine Table.findAlter.trans ?_
  cases stored : s.objects.find? other with
  | none => exact stored.symm
  | some o =>
    have here : o.id = other := (Table.findIff.mp stored).2
    rw [Option.map_some, if_neg (here ▸ different)]
    exact stored.symm

theorem handleSettled {before : Handle} (found : s.handle? h.owner = some before) :
    (s.settle h made).handle? h.owner =
      some ⟨h.owner, h.content, h.dirty, [], s.registry, s.options.defaultFilter⟩ := by
  obtain ⟨o, stored, -⟩ := handleStored found
  rw [handle?, findSettled stored]
  rfl

theorem handleOther {other : ObjId} (different : other ≠ h.owner) :
    (s.settle h made).handle? other = s.handle? other := by
  rw [handle?, findOther different]
  rfl

theorem handleRegistry (id : ObjId) (registry : Registry) (s : Store) :
    (s.withRegistry registry).handle? id = (s.handle? id).map (Handle.supplied registry) := by
  unfold handle?
  have same : (s.withRegistry registry).find? id = s.find? id := rfl
  rw [same]
  cases s.find? id with
  | none => rfl
  | some o =>
    dsimp only
    cases o.value.getEntries <;> rfl

end

end Store
end PdfBody
