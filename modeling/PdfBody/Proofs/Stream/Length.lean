import PdfBody.Filter.Zlib
import PdfBody.Filter.Standard
import PdfBody.Proofs.Runs
import PdfBody.Proofs.Value.Entries
import PdfBody.Proofs.Stream.Calls

/-! The length that a dictionary gives, and the octets of its stream. Between transactions the two agree,
until encoders that cannot be flushed leave new content under an old length. -/
namespace PdfBody

def Content.Truthful (c : Content) : Prop :=
  ∀ v, c.entries.lookup Entries.lengthKey = some v → v = .int (Int64.ofNat c.stream.length)

theorem Content.refreshTruthful (c : Content) : c.refreshLength.Truthful := by
  intro v given
  rw [refreshLength, Entries.lookupPut] at given
  exact (Option.some.inj given).symm

namespace Handle

def LengthHolds (h : Handle) : Prop := h.content.stream.isAppending = false → h.content.Truthful

/-- Closing the transaction fails, and the length given is not that of the octets written so far. -/
def Strands (h : Handle) : Prop :=
  h.content.stream.isAppending = true ∧ h.close.1 ≠ .ok () ∧ ¬ h.content.Truthful

def Measured (h : Handle) : Prop := h.content.stream.buffer.Memory ∧ h.LengthHolds

theorem memoryAfter {buffer after : Buffer} {data : Bytes} {result : Except Fault Unit}
    (memory : buffer.Memory) (written : buffer.write data = (result, after)) : after.Memory := by
  have same := buffer.writeRefuse data
  rw [written] at same
  intro n data
  rw [same]
  exact memory n data

theorem memoryAccepts {buffer after : Buffer} {data : Bytes} {fault : Fault}
    (memory : buffer.Memory) : buffer.write data ≠ (.error fault, after) := by
  rw [Buffer.memoryWrite memory]
  exact nofun

theorem measuredKept : Kept Measured where
  begin := by
    intro h filters discard markDirty measured
    have cleared : h.content.stream.buffer.clear.Memory := measured.1
    have step := h.began filters discard markDirty
    generalize (h.begin filters discard markDirty).1 = result,
      (h.begin filters discard markDirty).2 = after at step
    cases step with
    | unready failed => exact measured
    | refused ready refused => exact absurd refused (memoryAccepts cleared)
    | opened ready written => exact ⟨memoryAfter cleared written, nofun⟩
  append := by
    intro h data measured
    rw [appendSteps]
    have step := h.content.appended data
    generalize (h.content.append data).1 = result, (h.content.append data).2 = after at step
    cases step with
    | idle idle => exact measured
    | unfed opened failed => exact ⟨measured.1, nofun⟩
    | written opened fed => exact ⟨memoryAfter measured.1 rfl, nofun⟩
  setRaw := by
    intro h source limit markDirty measured
    have cleared : h.content.stream.buffer.clear.Memory := measured.1
    rcases h.rawSet source limit markDirty with ⟨-, same⟩ | ⟨content, step, same⟩
    · rw [same]
      exact measured
    · rw [same]
      generalize (h.setRaw source limit markDirty).1 = result at step
      cases step with
      | untouched => exact measured
      | refused idle refused => exact absurd refused (memoryAccepts cleared)
      | done idle written => exact ⟨memoryAfter cleared written, fun _ => Content.refreshTruthful _⟩

theorem closeMeasured {h : Handle} (measured : h.Measured) :
    ¬ h.Strands ∧ h.close.2.Measured ∨ h.Strands ∧ ¬ h.close.2.LengthHolds := by
  unfold Strands
  have step := h.closed
  generalize h.close.1 = result, h.close.2 = after at step ⊢
  cases step with
  | failed closed =>
    cases closed with
    | idle idle =>
      rw [DataStream.idleAppending idle]
      exact .inl ⟨fun stranded => Bool.false_ne_true stranded.1, measured⟩
    | unflushed opened failed =>
      by_cases truthful : h.content.Truthful
      · exact .inl ⟨fun stranded => stranded.2.2 truthful, measured.1, fun _ => truthful⟩
      · exact .inr ⟨⟨DataStream.openAppending opened, nofun, truthful⟩, fun holds => truthful (holds rfl)⟩
    | refused opened flushed refused => exact absurd refused (memoryAccepts measured.1)
  | done closed =>
    cases closed with
    | done opened flushed written =>
      exact .inl ⟨fun stranded => stranded.2.1 rfl, memoryAfter measured.1 written,
        fun _ => Content.refreshTruthful _⟩

theorem lengthHoldsUnlessStranded {h : Handle} (memory : h.content.stream.buffer.Memory)
    (unmeasured : h.content.entries.lookup Entries.lengthKey = none) (turns : List Turn) :
    (∀ earlier, earlier <+: turns → (h.after earlier).LengthHolds) ↔
      ∀ earlier turn, earlier ++ [turn] <+: turns → ¬ turn.Closes Strands (h.after earlier) := by
  have start : h.Measured := by
    refine ⟨memory, fun _ v given => ?_⟩
    rw [unmeasured] at given
    cases given
  refine everyPrefix (fun earlier => (h.after earlier).Measured) start ?_
    (fun _ measured => measured.2) turns
  intro earlier turn measured
  rw [afterNext]
  exact turnKeeps measuredKept closeMeasured turn measured

def fresh : Handle := ⟨⟨1, 0⟩, ⟨.empty, []⟩, false, [], .standard .storing, none⟩

theorem hexLengthHolds :
    fresh.content.stream.buffer.Memory ∧
      fresh.content.entries.lookup Entries.lengthKey = none ∧
      ∀ earlier, earlier <+: [Turn.mk (.standard .storing) (.setWith (Bytes.ascii "BT") [.asciiHex])] →
        (fresh.after earlier).LengthHolds := by
  have memory : fresh.content.stream.buffer.Memory := fun _ _ => rfl
  refine ⟨memory, rfl, (lengthHoldsUnlessStranded memory rfl _).mpr ?_⟩
  rintro earlier turn ⟨later, whole⟩ ⟨g, closing, -, failed, -⟩
  cases earlier with
  | nil =>
    cases whole
    cases closing
    exact failed rfl
  | cons first earlier => simp at whole

theorem oldLengthLeft :
    ¬ ∀ (h : Handle) (turns : List Turn), h.content.stream.buffer.Memory →
      h.content.entries.lookup Entries.lengthKey = none → (h.after turns).LengthHolds := by
  intro always
  have holds := always fresh
    [⟨⟨[.unflushed]⟩, .setWith (Bytes.ascii "abc") []⟩, ⟨⟨[.unflushed]⟩, .setWith (Bytes.ascii "d") [.lzw]⟩]
    (fun _ _ => rfl) rfl
  have same := holds rfl (.int 3) rfl
  exact absurd same (by decide)

end Handle
end PdfBody
