import PdfBody.Proofs.Value.Entries
import PdfBody.Proofs.Store.Handles

/-! Copies of streams that fail. The source and the target are looked up before anything changes. Then
the target is described as the source is, and only behind that is it seen whether its content can be
replaced: a copy into an open transaction is refused with the new description in place. -/
namespace PdfBody

namespace Store

section

variable {key : String} {value : Option Value} {described entries : Entries}

theorem putOrEraseSame (found : entries.lookup key = value) :
    putOrErase key value entries = entries := by
  cases value with
  | none => exact Entries.eraseSame found
  | some v => exact Entries.putSame found

theorem putOrEraseOther {other : String} (different : other ≠ key) :
    Entries.bindings other (putOrErase key value entries) = Entries.bindings other entries := by
  have dropped (v : Value) : ((key, v).1 == other) = false := beq_eq_false_iff_ne.mpr different.symm
  cases value with
  | none => exact Entries.filterErase dropped
  | some v => exact Entries.filterPut dropped

theorem putOrEraseFound
    (same : Entries.bindings key (putOrErase key value entries) = Entries.bindings key entries) :
    entries.lookup key = value := by
  cases value with
  | none =>
    cases found : entries.lookup key with
    | none => rfl
    | some v => exact absurd (congrArg List.length same) (Nat.ne_of_lt (Entries.bindingsErase found))
  | some v =>
    rw [Entries.lookupBindings, ← same, ← Entries.lookupBindings]
    exact Entries.lookupPut

def retold (described entries : Entries) : Entries :=
  putOrErase Entries.paramsKey (described.lookup Entries.paramsKey)
    (putOrErase Entries.filterKey (described.lookup Entries.filterKey) entries)

def DescribedAs (described entries : Entries) : Prop :=
  entries.lookup Entries.filterKey = described.lookup Entries.filterKey ∧
    entries.lookup Entries.paramsKey = described.lookup Entries.paramsKey

theorem retoldSame : retold described entries = entries ↔ DescribedAs described entries := by
  have apart : Entries.paramsKey ≠ Entries.filterKey := by decide
  constructor
  · -- each change shows in the bindings of its own key, which the other one leaves alone
    intro same
    unfold retold at same
    have filter := congrArg (Entries.bindings Entries.filterKey) same
    have params := congrArg (Entries.bindings Entries.paramsKey) same
    have first : Entries.bindings Entries.paramsKey (putOrErase Entries.filterKey
        (described.lookup Entries.filterKey) entries) = Entries.bindings Entries.paramsKey entries :=
      putOrEraseOther apart
    rw [putOrEraseOther apart.symm] at filter
    rw [← first] at params
    refine ⟨putOrEraseFound filter, ?_⟩
    rw [Entries.lookupBindings, ← first, ← Entries.lookupBindings]
    exact putOrEraseFound params
  · rintro ⟨filter, params⟩
    rw [retold, putOrEraseSame filter, putOrEraseSame params]

end

end Store

namespace Handle

inductive CopiedFrom (h : Handle) (other : DataStream) : Except Fault Unit → Handle → Prop where
  | busy {fault} (appending : h.content.stream.isAppending = true) : CopiedFrom h other (.error fault) h
  | refused {fault buffer} (idle : h.content.stream.open? = none)
      (refused : h.content.stream.buffer.clear.write other.raw = (.error fault, buffer)) :
      CopiedFrom h other (.error fault) (h.mark.withContent
        ⟨⟨buffer, h.content.entries.filters.toOption.getD [], none⟩, h.content.entries⟩)
  | done {buffer} (idle : h.content.stream.open? = none)
      (written : h.content.stream.buffer.clear.write other.raw = (.ok (), buffer)) :
      CopiedFrom h other (.ok ()) (h.mark.withContent (Content.refreshLength
        ⟨⟨buffer, h.content.entries.filters.toOption.getD [], none⟩, h.content.entries⟩))

theorem copiedFrom (h : Handle) (other : DataStream) :
    CopiedFrom h other (h.copyFrom other).1 (h.copyFrom other).2 := by
  unfold copyFrom setRaw DataStream.ensureIdle
  cases opened : h.content.stream.open? with
  | some pipeline =>
    rw [DataStream.openAppending opened]
    exact .busy (DataStream.openAppending opened)
  | none =>
    rw [DataStream.idleAppending opened]
    have read : Source.read none [.bytes other.raw] = (.ok other.raw, []) := by
      simp [Source.read, Source.readFrom]
    have free : h.content.stream.ensureIdle = .ok () := DataStream.idleEnsured opened
    have same : h.mark.content = h.content := rfl
    simp only [Bool.false_eq_true, if_false, if_true, Content.setRaw, free, read, same, opened]
    cases written : h.content.stream.buffer.clear.write other.raw with
    | mk result buffer =>
      cases result with
      | error fault => exact .refused opened written
      | ok _ => exact .done opened written

end Handle

structure DataStream.Alike (s t : DataStream) : Prop where
  raw : s.raw = t.raw
  filters : s.filters = t.filters
  open? : s.open? = t.open?

namespace Store

structure Undisturbed (before after : Store) : Prop where
  values : ∀ id, (after.find? id).map Object.value = (before.find? id).map Object.value
  streams : ∀ id stream, before.stream? id = some stream →
    ∃ left, after.stream? id = some left ∧ left.Alike stream
  numbering : after.numbering = before.numbering

theorem Undisturbed.refl (s : Store) : s.Undisturbed s :=
  ⟨fun _ => rfl, fun _ stream found => ⟨stream, found, rfl, rfl, rfl⟩, rfl⟩

theorem settleUndisturbed {s : Store} {h before : Handle} {made : List Notice}
    (found : s.handle? h.owner = some before) :
    s.Undisturbed (s.settle h made) ↔ h.content.entries = before.content.entries ∧
      ∀ stream, s.stream? h.owner = some stream → h.content.stream.Alike stream := by
  obtain ⟨o, stored, dict, -⟩ := handleStored found
  have after : (s.settle h made).find? h.owner = _ := findSettled stored
  have settled : (s.settle h made).stream? h.owner = some h.content.stream := by
    rw [stream?, after]
    rfl
  constructor
  · intro same
    constructor
    · have values := same.values h.owner
      rw [after, stored, Option.map_some, Option.map_some, dict] at values
      exact Value.dict.inj (Option.some.inj values)
    · intro stream own
      obtain ⟨left, now, alike⟩ := same.streams h.owner stream own
      rw [settled] at now
      cases now
      exact alike
  · rintro ⟨entries, streams⟩
    refine ⟨fun id => ?_, fun id stream own => ?_, rfl⟩
    · by_cases here : id = h.owner
      · rw [here, after, stored, Option.map_some, Option.map_some, dict, entries]
      · rw [findOther here]
    · by_cases here : id = h.owner
      · subst here
        exact ⟨_, settled, streams stream own⟩
      · exact ⟨stream, by rw [stream?, findOther here]; exact own, rfl, rfl, rfl⟩

structure Arrives (s : Store) (source target : ObjId) (described : Entries) (h : Handle) : Prop where
  source : ∃ o stream, s.get source = .ok o ∧ o.getStream = .ok stream ∧
    o.value.getEntries = .ok described
  target : s.handle? target = some h

theorem Arrives.unique {s : Store} {source target : ObjId} {described others : Entries}
    {h g : Handle} (first : s.Arrives source target described h)
    (second : s.Arrives source target others g) : described = others ∧ h = g := by
  obtain ⟨⟨o, stream, stored, -, viewed⟩, found⟩ := first
  obtain ⟨⟨p, other, storedToo, -, viewedToo⟩, foundToo⟩ := second
  cases stored.symm.trans storedToo
  cases viewed.symm.trans viewedToo
  cases found.symm.trans foundToo
  exact ⟨rfl, rfl⟩

theorem handleStream {s : Store} {id : ObjId} {h : Handle} (found : s.handle? id = some h)
    {stream : DataStream} (own : s.stream? id = some stream) : h.content.stream = stream := by
  obtain ⟨o, stored, -, streams⟩ := handleStored found
  rw [stream?, stored] at own
  exact streams stream own

def describe (described : Entries) (h : Handle) : Handle :=
  h.withContent ⟨h.content.stream, retold described h.content.entries⟩

inductive CopyTried (s : Store) (source target : ObjId) : Except Fault Unit → Store → Prop where
  | unfound {fault} (never : ∀ described h, ¬ s.Arrives source target described h) :
      CopyTried s source target (.error fault) s
  | tried {stream described h result left made} (arrives : s.Arrives source target described h)
      (own : left.owner = target) (step : (describe described h).CopiedFrom stream result left)
      (origin : s.getStream source = .ok stream) :
      CopyTried s source target result (s.settle left made)

theorem copyTried (s : Store) (source target : ObjId) :
    CopyTried s source target (s.copyStream source target).1 (s.copyStream source target).2 := by
  unfold copyStream
  cases stored : s.get source with
  | error fault =>
    refine .unfound fun _ _ ⟨⟨_, _, storedToo, _, _⟩, _⟩ => ?_
    cases stored.symm.trans storedToo
  | ok o =>
    dsimp only
    cases own : o.getStream with
    | error fault =>
      refine .unfound fun _ _ ⟨⟨_, _, storedToo, ownToo, _⟩, _⟩ => ?_
      cases stored.symm.trans storedToo
      cases own.symm.trans ownToo
    | ok stream =>
      dsimp only
      cases viewed : o.value.getEntries with
      | error fault =>
        refine .unfound fun _ _ ⟨⟨_, _, storedToo, _, viewedToo⟩, _⟩ => ?_
        cases stored.symm.trans storedToo
        cases viewed.symm.trans viewedToo
      | ok described =>
        have used : Used s target (fun h => (describe described h).copyFrom stream) _ _ :=
          onStreamUsed s target fun h => Handle.performOwner (.copyFrom stream) (describe described h)
        change CopyTried s source target
          (s.onStream target fun h => (describe described h).copyFrom stream).1
          (s.onStream target fun h => (describe described h).copyFrom stream).2
        generalize (s.onStream target fun h => (describe described h).copyFrom stream).1 = result,
          (s.onStream target fun h => (describe described h).copyFrom stream).2 = after at used ⊢
        cases used with
        | failed none =>
          refine .unfound fun _ _ ⟨_, found⟩ => ?_
          cases none.symm.trans found
        | used found here news =>
          have origin : s.getStream source = .ok stream := by rw [getStream, stored]; exact own
          exact .tried ⟨⟨o, stream, stored, own, viewed⟩, found⟩ here (Handle.copiedFrom _ _) origin

theorem refusedEmpty {buffer after : Buffer} {data : Bytes} {fault : Fault}
    (refused : buffer.clear.write data = (.error fault, after)) : after.content = [] := by
  unfold Buffer.write at refused
  split at refused
  · cases refused
    rfl
  · cases refused

theorem failedCopyLeaves {s : Store} {target : ObjId} {described : Entries} {h left : Handle}
    {stream : DataStream} {fault : Fault} (found : s.handle? target = some h)
    (step : (describe described h).CopiedFrom stream (.error fault) left) :
    (left.content.entries = h.content.entries ∧
        ∀ old, s.stream? target = some old → left.content.stream.Alike old) ↔
      DescribedAs described h.content.entries ∧
        (h.content.stream.isAppending = false → ∀ old, s.stream? target = some old →
          old.raw = [] ∧ old.filters = h.content.entries.filters.toOption.getD []) := by
  cases step with
  | busy appending =>
    refine and_congr retoldSame (iff_of_true (fun old own => ?_) fun idle => ?_)
    · rw [← handleStream found own]
      exact ⟨rfl, rfl, rfl⟩
    · cases appending.symm.trans idle
  | @refused _ buffer idle refused =>
    rw [← retoldSame]
    refine and_congr_right fun same => ⟨fun alike _ old own => ?_, fun spared old own => ?_⟩
    · obtain ⟨raw, filters, -⟩ := alike old own
      refine ⟨raw.symm.trans (refusedEmpty refused), filters.symm.trans ?_⟩
      exact congrArg (fun entries : Entries => entries.filters.toOption.getD []) same
    · obtain ⟨raw, filters⟩ := spared (DataStream.idleAppending idle) old own
      refine ⟨(refusedEmpty refused).trans raw.symm, ?_, ?_⟩
      · refine Eq.trans ?_ filters.symm
        exact congrArg (fun entries : Entries => entries.filters.toOption.getD []) same
      · rw [← handleStream found own]
        exact idle.symm

theorem failedCopyUndisturbed {s after : Store} {source target : ObjId} {fault : Fault}
    (failed : s.copyStream source target = (.error fault, after)) :
    s.Undisturbed after ↔ ∀ described h, s.Arrives source target described h →
      DescribedAs described h.content.entries ∧
        (h.content.stream.isAppending = false → ∀ old, s.stream? target = some old →
          old.raw = [] ∧ old.filters = h.content.entries.filters.toOption.getD []) := by
  have tried := s.copyTried source target
  have result : (s.copyStream source target).1 = .error fault := by rw [failed]
  have left : (s.copyStream source target).2 = after := by rw [failed]
  generalize (s.copyStream source target).1 = result, (s.copyStream source target).2 = after
    at tried result left
  subst left result
  cases tried with
  | unfound never => exact iff_of_true (.refl s) fun _ _ arrives => absurd arrives (never _ _)
  | @tried stream described h _ left made arrives own step =>
    have settled : s.Undisturbed (s.settle left made) ↔ _ :=
      settleUndisturbed (own ▸ arrives.target : s.handle? left.owner = some h)
    rw [settled, own, failedCopyLeaves arrives.target step]
    refine ⟨fun spared others g again => ?_, fun spared => spared described h arrives⟩
    obtain ⟨rfl, rfl⟩ := arrives.unique again
    exact spared

def drafts (filters : List FilterName) : Store :=
  let s := (((make .storing .standard).push ⟨1, 0⟩ (.dict [])).2.push ⟨2, 0⟩ (.dict [])).2
  let s := (s.onStream ⟨1, 0⟩ fun h => h.setWith (Bytes.ascii "BT") [.asciiHex]).2
  (s.onStream ⟨2, 0⟩ fun h => h.begin filters true true).2

def unfinished : Fault :=
  .state "BeginAppend() failed because EndAppend() was not yet called"

theorem draftsUndisturbed :
    ((drafts [.asciiHex]).copyStream ⟨1, 0⟩ ⟨2, 0⟩).1 = .error unfinished ∧
      (drafts [.asciiHex]).Undisturbed ((drafts [.asciiHex]).copyStream ⟨1, 0⟩ ⟨2, 0⟩).2 := by
  have refused : ((drafts [.asciiHex]).copyStream ⟨1, 0⟩ ⟨2, 0⟩).1 = .error unfinished := rfl
  refine ⟨refused, (failedCopyUndisturbed (Prod.ext refused rfl)).mpr ?_⟩
  rintro described h ⟨⟨o, stream, stored, -, viewed⟩, found⟩
  cases stored
  cases viewed
  cases found
  exact ⟨⟨rfl, rfl⟩, nofun⟩

theorem draftRedescribed :
    ¬ ∀ (s after : Store) (source target : ObjId) (text : String),
      s.copyStream source target = (.error (.state text), after) → s.Undisturbed after := by
  intro always
  have refused : ((drafts []).copyStream ⟨1, 0⟩ ⟨2, 0⟩).1 = .error unfinished := rfl
  have same := (always (drafts []) _ ⟨1, 0⟩ ⟨2, 0⟩ _ (Prod.ext refused rfl)).values ⟨2, 0⟩
  have before : ((drafts []).find? ⟨2, 0⟩).map Object.value = some (.dict []) := rfl
  have after : (((drafts []).copyStream ⟨1, 0⟩ ⟨2, 0⟩).2.find? ⟨2, 0⟩).map Object.value =
    some (.dict [("Filter", .name "ASCIIHexDecode")]) := rfl
  cases after.symm.trans (same.trans before)

end Store
end PdfBody
