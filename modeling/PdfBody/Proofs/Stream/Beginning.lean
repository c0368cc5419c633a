import PdfBody.Proofs.Stream.Calls
import PdfBody.Filter.Hex

/-! Transactions that do not begin. All that depends on codecs is done before anything changes, so a
handle on which it fails is left as it was. The one step behind it that can fail is the write of the
content that is kept. -/
namespace PdfBody

theorem Buffer.writeCounted (buffer : Buffer) (data : Bytes) :
    (buffer.write data).2.writes = buffer.writes + 1 := by
  unfold write
  split <;> rfl

def Codec.rejecting : Codec :=
  ⟨.crypt, fun _ => .ok ⟨[], fun held _ => (.error (.filter "rejected"), held), fun _ => .ok []⟩,
    fun _ data => .ok data⟩

namespace Handle

inductive Unready (h : Handle) (filters : List FilterName) (discard : Bool) : Fault → Prop where
  | appending {text} (appending : h.content.stream.isAppending = true) :
      Unready h filters discard (.state text)
  | unmade {fault} (failed : Pipeline.make h.registry filters h.content.entries = .error fault) :
      Unready h filters discard fault
  | undecoded {fault} (kept : discard = false) (some : h.content.stream.raw ≠ [])
      (failed : h.content.decoded h.registry = .error fault) : Unready h filters discard fault
  | unencoded {fault pipeline after data} (kept : discard = false)
      (made : Pipeline.make h.registry filters h.content.entries = .ok pipeline)
      (decoded : h.content.decoded h.registry = .ok data)
      (failed : pipeline.feed data = (.error fault, after)) : Unready h filters discard fault

def RefusedWrite (h after : Handle) (fault : Fault) : Prop :=
  ∃ data, h.content.stream.buffer.clear.write data = (.error fault, after.content.stream.buffer)

variable {h after : Handle} {filters : List FilterName} {discard markDirty : Bool} {fault : Fault}

theorem prepareUnready (failed : h.content.prepare h.registry filters discard = .error fault) :
    h.Unready filters discard fault := by
  unfold Content.prepare DataStream.ensureIdle at failed
  cases appending : h.content.stream.isAppending with
  | true =>
    rw [appending] at failed
    cases failed
    exact .appending appending
  | false =>
    rw [appending] at failed
    cases made : Pipeline.make h.registry filters h.content.entries with
    | error fault =>
      rw [made] at failed
      cases failed
      exact .unmade made
    | ok pipeline =>
      simp only [made, Bool.false_eq_true, if_false] at failed
      split at failed
      · cases failed
      · next kept =>
        obtain ⟨kept, some⟩ : discard = false ∧ h.content.stream.raw ≠ [] := by simpa using kept
        cases decoded : h.content.decoded h.registry with
        | error fault =>
          rw [decoded] at failed
          cases failed
          exact .undecoded kept some decoded
        | ok data =>
          rw [decoded] at failed
          cases fed : pipeline.feed data with
          | mk result after =>
            simp only [fed] at failed
            cases result with
            | error fault =>
              cases failed
              exact .unencoded kept made decoded fed
            | ok carried => cases failed

theorem untouchedUnrefused (fault : Fault) : ¬ h.RefusedWrite h fault := by
  -- a write counts even if it is refused
  rintro ⟨data, refused⟩
  have counted := h.content.stream.buffer.clear.writeCounted data
  rw [refused] at counted
  exact absurd counted (Nat.ne_of_lt (Nat.lt_succ_self _))

theorem failedBeginAtomic (failed : h.begin filters discard markDirty = (.error fault, after)) :
    (¬ h.RefusedWrite after fault → after = h ∧ h.Unready filters discard fault) ∧
      (h.RefusedWrite after fault → after.content.stream.isAppending = false ∧
        after.content.entries = h.content.entries ∧
        after.content.stream.filters = h.content.stream.filters) := by
  have begun := h.began filters discard markDirty
  rw [failed] at begun
  cases begun with
  | unready failed =>
    refine ⟨fun _ => ⟨rfl, prepareUnready failed⟩, fun refused => ?_⟩
    exact absurd refused (untouchedUnrefused _)
  | refused ready refused =>
    exact ⟨fun unrefused => absurd ⟨_, refused⟩ unrefused, fun _ => ⟨rfl, rfl, rfl⟩⟩

def finished : Handle :=
  ((⟨⟨1, 0⟩, ⟨.empty, []⟩, false, [], ⟨[.rejecting, Hex.codec]⟩, none⟩ : Handle).setWith
    (Bytes.ascii "abc") [.asciiHex]).2

theorem rejectedBeginKeeps :
    finished.content.stream.raw = Bytes.ascii "616263>" ∧
      finished.begin [.crypt] false true = (.error (.filter "rejected"), finished) := by
  have rejected : (finished.begin [.crypt] false true).1 = .error (.filter "rejected") := rfl
  have memory : finished.content.stream.buffer.clear.Memory := fun _ _ => rfl
  have unrefused : ¬ finished.RefusedWrite (finished.begin [.crypt] false true).2
      (.filter "rejected") := by
    rintro ⟨data, refused⟩
    rw [Buffer.memoryWrite memory] at refused
    cases refused
  have kept := ((failedBeginAtomic (Prod.ext rejected rfl)).1 unrefused).1
  exact ⟨rfl, Prod.ext rejected kept⟩

end Handle
end PdfBody
