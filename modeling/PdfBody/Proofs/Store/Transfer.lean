import PdfBody.Proofs.Filter.Named
import PdfBody.Proofs.Store.Copying

/-! Copies of streams that succeed. The octets and the entries that tell how to read them are the source's,
so the target reads as the source did, with the same fault if the source could not be read. -/
namespace PdfBody

theorem Buffer.writeStores {buffer after : Buffer} {data : Bytes}
    (written : buffer.write data = (.ok (), after)) : after.content = buffer.content ++ data := by
  unfold write at written
  split at written
  · cases written
  · cases written
    rfl

def Entries.aside (entry : String × Value) : Bool :=
  entry.1 != filterKey && entry.1 != paramsKey && entry.1 != lengthKey

namespace Store

section

variable {key other : String} {value : Option Value} {described entries : Entries}

theorem lookupPutOrErase (once : (entries.map Prod.fst).Nodup) :
    (putOrErase key value entries).lookup key = value := by
  cases value with
  | none => exact Entries.lookupErase once
  | some v => exact Entries.lookupPut

theorem lookupPutOrEraseOther (different : other ≠ key) :
    (putOrErase key value entries).lookup other = entries.lookup other := by
  cases value with
  | none => exact Entries.lookupEraseOther different
  | some v => exact Entries.lookupPutOther different

theorem oncePutOrErase (once : (entries.map Prod.fst).Nodup) :
    ((putOrErase key value entries).map Prod.fst).Nodup := by
  cases value with
  | none => exact Entries.keysNodupErase once
  | some v => exact Entries.keysNodupPut once

theorem filterPutOrErase {keep : String × Value → Bool} (dropped : ∀ v, keep (key, v) = false) :
    (putOrErase key value entries).filter keep = entries.filter keep := by
  cases value with
  | none => exact Entries.filterErase dropped
  | some v => exact Entries.filterPut dropped

theorem retoldDescribed (once : (entries.map Prod.fst).Nodup) :
    DescribedAs described (retold described entries) := by
  have apart : Entries.filterKey ≠ Entries.paramsKey := by decide
  constructor
  · rw [retold, lookupPutOrEraseOther apart, lookupPutOrErase once]
  · rw [retold, lookupPutOrErase (oncePutOrErase once)]

theorem retoldAside : (retold described entries).filter Entries.aside = entries.filter Entries.aside := by
  have filter : ∀ v, Entries.aside (Entries.filterKey, v) = false := fun _ => rfl
  have params : ∀ v, Entries.aside (Entries.paramsKey, v) = false := fun _ => rfl
  rw [retold, filterPutOrErase params, filterPutOrErase filter]

end

end Store

theorem Content.decodedSame {registry : Registry} {c d : Content} (raw : c.stream.raw = d.stream.raw)
    (described : Store.DescribedAs d.entries c.entries) : c.decoded registry = d.decoded registry := by
  unfold decoded
  rw [Entries.filtersSame described.1, raw]
  cases d.entries.filters with
  | error fault => rfl
  | ok filters =>
    cases filters with
    | nil => rfl
    | cons f filters => exact Registry.decodeSame described.2 (f :: filters) d.stream.raw

theorem Object.streamOk {o : Object} {stream : DataStream} (own : o.getStream = .ok stream) :
    o.stream = some stream := by
  unfold getStream at own
  split at own
  · next found => rw [found, Except.ok.inj own]
  · cases own

namespace Store

variable {s after : Store} {source target : ObjId}

theorem getFound {id : ObjId} {o : Object} (got : s.get id = .ok o) : s.find? id = some o := by
  unfold get at got
  cases found : s.find? id with
  | none =>
    rw [found] at got
    cases got
  | some p =>
    rw [found] at got
    rw [Except.ok.inj got]

theorem decodedFound {id : ObjId} {o : Object} {stream : DataStream} {entries : Entries}
    (found : s.find? id = some o) (own : o.stream = some stream) (dict : o.value = .dict entries) :
    s.decoded id = Content.decoded s.registry ⟨stream, entries⟩ := by
  have viewed : o.value.getEntries = .ok entries := by rw [dict]; rfl
  rw [decoded, get, found]
  dsimp only
  rw [Object.getStream, own]
  dsimp only
  rw [viewed]
  rfl

def entries? (id : ObjId) (s : Store) : Option Entries := s.find? id >>= fun o => o.value.entries?

structure Transferred (stream : DataStream) (described before : Entries) (copy : DataStream)
    (left : Entries) : Prop where
  raw : copy.raw = stream.raw
  idle : copy.open? = none
  described : DescribedAs described left
  measured : left.lookup Entries.lengthKey = some (.int (Int64.ofNat copy.length))
  others : left.filter Entries.aside = before.filter Entries.aside

theorem copyTransferred {h left : Handle} {described : Entries} {stream : DataStream}
    (once : (h.content.entries.map Prod.fst).Nodup)
    (step : (describe described h).CopiedFrom stream (.ok ()) left) :
    left.dirty = true ∧
      Transferred stream described h.content.entries left.content.stream left.content.entries := by
  cases step with
  | done idle written =>
    have stored : _ = [] ++ stream.raw := Buffer.writeStores written
    have kept : ∀ {k}, k ≠ Entries.lengthKey → ∀ v,
        (Entries.put Entries.lengthKey v (retold described h.content.entries)).lookup k =
          (retold described h.content.entries).lookup k :=
      fun other _ => Entries.lookupPutOther other
    obtain ⟨filter, params⟩ : DescribedAs described (retold described h.content.entries) :=
      retoldDescribed once
    refine ⟨rfl, stored, rfl, ⟨?_, ?_⟩, Entries.lookupPut, ?_⟩
    · exact (kept (by decide) _).trans filter
    · exact (kept (by decide) _).trans params
    · exact (Entries.filterPut fun _ => rfl).trans retoldAside

theorem copyTransfers (keyed : s.Keyed) (copied : s.copyStream source target = (.ok (), after)) :
    ∃ stream described before copy left,
      s.stream? source = some stream ∧ s.entries? source = some described ∧
      s.entries? target = some before ∧
      after.find? target = some ⟨target, .dict left, some copy, true⟩ ∧
      Transferred stream described before copy left ∧
      after.decoded target = s.decoded source ∧
      ∀ id, id ≠ target → after.find? id = s.find? id := by
  have tried := s.copyTried source target
  have result : (s.copyStream source target).1 = .ok () := by rw [copied]
  have behind : (s.copyStream source target).2 = after := by rw [copied]
  generalize (s.copyStream source target).1 = outcome, (s.copyStream source target).2 = store
    at tried result behind
  subst behind result
  cases tried with
  | @tried stream described h _ left made arrives own step origin =>
    -- all that is said of the source holds before the call, so the target may be the source
    obtain ⟨⟨o, -, got, -, viewed⟩, handled⟩ := arrives
    obtain ⟨p, there, dict, -⟩ := handleStored handled
    obtain ⟨stored, here⟩ := Table.findIff.mp there
    have found := getFound got
    have shown : o.value = .dict described := Value.getEntriesOk viewed
    have streamed : o.stream = some stream := by
      rw [getStream, got] at origin
      exact Object.streamOk origin
    have once : (h.content.entries.map Prod.fst).Nodup := by
      have proper := keyed p stored
      rw [dict] at proper
      exact proper.1
    obtain ⟨dirty, transferred⟩ := copyTransferred once step
    have settled : (s.settle left made).find? target =
        some ⟨target, .dict left.content.entries, some left.content.stream, true⟩ := by
      subst own
      rw [findSettled there, here, dirty]
    refine ⟨stream, described, h.content.entries, _, _, ?_, ?_, ?_, settled, transferred, ?_, ?_⟩
    · rw [stream?, found]
      exact streamed
    · rw [entries?, found]
      exact congrArg Value.entries? shown
    · rw [entries?, there]
      exact congrArg Value.entries? dict
    · rw [decodedFound settled rfl rfl, decodedFound found streamed shown]
      exact Content.decodedSame transferred.raw transferred.described
    · intro id different
      exact findOther (own ▸ different)

def halfway : Store :=
  let s := ((make .storing .standard).push ⟨1, 0⟩ (.dict [(Entries.paramsKey, .int 7)])).2
  let s := (s.push ⟨2, 0⟩ (.dict [(Entries.lengthKey, .int 3), (Entries.typeKey, .name "XObject"),
    (Entries.filterKey, .int 42)])).2
  let s := (s.onStream ⟨1, 0⟩ fun h => h.begin [.asciiHex] true true).2
  (s.onStream ⟨1, 0⟩ fun h => h.append (Bytes.ascii "BT")).2

theorem halfwayKeyed : halfway.Keyed := by
  intro o found
  have values : halfway.objects.items.map Object.value =
      [.dict [(Entries.paramsKey, .int 7), (Entries.filterKey, .name "ASCIIHexDecode")],
        .dict [(Entries.lengthKey, .int 3), (Entries.typeKey, .name "XObject"),
          (Entries.filterKey, .int 42)]] := rfl
  have listed := List.mem_map_of_mem (f := Object.value) found
  rw [values] at listed
  simp only [List.mem_cons, List.not_mem_nil, or_false] at listed
  obtain same | same := listed <;>
  · rw [same]
    exact ⟨by decide, by simp [Value.Keyed, Value.KeyedEntries]⟩

theorem halfwayTransfers :
    let after := (halfway.copyStream ⟨1, 0⟩ ⟨2, 0⟩).2
    (halfway.copyStream ⟨1, 0⟩ ⟨2, 0⟩).1 = .ok () ∧
      ∃ copy left, after.find? ⟨2, 0⟩ = some ⟨⟨2, 0⟩, .dict left, some copy, true⟩ ∧
        copy.raw = Bytes.ascii "4254" ∧
        left.lookup Entries.filterKey = some (.name "ASCIIHexDecode") ∧
        left.lookup Entries.paramsKey = some (.int 7) ∧
        left.filter Entries.aside = [(Entries.typeKey, .name "XObject")] ∧
        after.decoded ⟨2, 0⟩ = .ok (Bytes.ascii "BT") ∧
        after.find? ⟨1, 0⟩ = halfway.find? ⟨1, 0⟩ := by
  intro after
  have copied : (halfway.copyStream ⟨1, 0⟩ ⟨2, 0⟩).1 = .ok () := rfl
  obtain ⟨stream, described, before, copy, left, own, shown, was, found, transferred, reads, others⟩ :=
    copyTransfers halfwayKeyed (Prod.ext copied rfl)
  cases own
  cases shown
  cases was
  refine ⟨copied, copy, left, found, transferred.raw, transferred.described.1,
    transferred.described.2, transferred.others, reads.trans rfl, others ⟨1, 0⟩ (by decide)⟩

end Store
end PdfBody
