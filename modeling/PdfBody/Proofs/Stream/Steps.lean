import PdfBody.Stream.Basic

/-! What each step on a stream can do, whether it succeeds or fails. -/
namespace PdfBody

namespace Buffer

variable {buffer : Buffer}

def Memory (buffer : Buffer) : Prop := ∀ n data, buffer.refuse n data = none

theorem memoryWrite (memory : buffer.Memory) (data : Bytes) :
    buffer.write data = (.ok (), ⟨buffer.content ++ data, buffer.writes + 1, buffer.refuse⟩) := by
  rw [write, memory]

theorem writeRefuse (buffer : Buffer) (data : Bytes) :
    (buffer.write data).2.refuse = buffer.refuse := by
  unfold write
  split <;> rfl

end Buffer

namespace DataStream

variable {s : DataStream}

theorem idleAppending (idle : s.open? = none) : s.isAppending = false := by
  rw [isAppending, idle]
  rfl

theorem openAppending {pipeline : Pipeline} (opened : s.open? = some pipeline) :
    s.isAppending = true := by
  rw [isAppending, opened]
  rfl

theorem idleEnsured (idle : s.open? = none) : s.ensureIdle = .ok () := by
  rw [ensureIdle, idleAppending idle]
  rfl

end DataStream

namespace Content

variable {c : Content}

theorem prepareIdle {registry : Registry} {filters : List FilterName} {discard : Bool}
    {prepared : Prepared} (ready : c.prepare registry filters discard = .ok prepared) :
    c.stream.open? = none := by
  unfold prepare DataStream.ensureIdle DataStream.isAppending at ready
  cases opened : c.stream.open? with
  | none => rfl
  | some pipeline =>
    rw [opened] at ready
    cases ready

inductive Appended (c : Content) (data : Bytes) : Except Fault Unit → Content → Prop where
  | idle {text} (idle : c.stream.open? = none) : Appended c data (.error (.state text)) c
  | unfed {pipeline after fault} (opened : c.stream.open? = some pipeline)
      (failed : pipeline.feed data = (.error fault, after)) :
      Appended c data (.error fault) ⟨⟨c.stream.buffer, c.stream.filters, some after⟩, c.entries⟩
  | written {pipeline after encoded} (opened : c.stream.open? = some pipeline)
      (fed : pipeline.feed data = (.ok encoded, after)) :
      Appended c data (c.stream.buffer.write encoded).1
        ⟨⟨(c.stream.buffer.write encoded).2, c.stream.filters, some after⟩, c.entries⟩

theorem appended (c : Content) (data : Bytes) :
    Appended c data (c.append data).1 (c.append data).2 := by
  unfold append
  cases opened : c.stream.open? with
  | none => exact .idle opened
  | some pipeline =>
    dsimp only
    cases fed : pipeline.feed data with
    | mk result after =>
      cases result with
      | error fault => exact .unfed opened fed
      | ok encoded => exact .written opened fed

inductive Closed (c : Content) : Except Fault Unit → Content → Prop where
  | idle {text} (idle : c.stream.open? = none) : Closed c (.error (.state text)) c
  | unflushed {pipeline fault} (opened : c.stream.open? = some pipeline)
      (failed : pipeline.finish = .error fault) :
      Closed c (.error fault) ⟨⟨c.stream.buffer, c.stream.filters, none⟩, c.entries⟩
  | refused {pipeline tail fault buffer} (opened : c.stream.open? = some pipeline)
      (flushed : pipeline.finish = .ok tail)
      (refused : c.stream.buffer.write tail = (.error fault, buffer)) :
      Closed c (.error fault) ⟨⟨buffer, c.stream.filters, none⟩, c.entries⟩
  | done {pipeline tail buffer} (opened : c.stream.open? = some pipeline)
      (flushed : pipeline.finish = .ok tail)
      (written : c.stream.buffer.write tail = (.ok (), buffer)) :
      Closed c (.ok ()) (refreshLength ⟨⟨buffer, c.stream.filters, none⟩, c.entries⟩)

theorem closed (c : Content) : Closed c c.close.1 c.close.2 := by
  unfold close
  cases opened : c.stream.open? with
  | none => exact .idle opened
  | some pipeline =>
    dsimp only
    cases flushed : pipeline.finish with
    | error fault => exact .unflushed opened flushed
    | ok tail =>
      dsimp only
      cases written : c.stream.buffer.write tail with
      | mk result buffer =>
        cases result with
        | error fault => exact .refused opened flushed written
        | ok _ => exact .done opened flushed written

inductive RawSet (c : Content) : Except Fault Unit → Content → Prop where
  | untouched {fault} : RawSet c (.error fault) c
  | refused {data fault buffer filters} (idle : c.stream.open? = none)
      (refused : c.stream.buffer.clear.write data = (.error fault, buffer)) :
      RawSet c (.error fault) ⟨⟨buffer, filters, none⟩, c.entries⟩
  | done {data buffer filters} (idle : c.stream.open? = none)
      (written : c.stream.buffer.clear.write data = (.ok (), buffer)) :
      RawSet c (.ok ()) (refreshLength ⟨⟨buffer, filters, none⟩, c.entries⟩)

theorem rawSet (c : Content) (source : Source) (limit : Option Nat) :
    RawSet c (c.setRaw source limit).1 (c.setRaw source limit).2.1 := by
  unfold setRaw DataStream.ensureIdle DataStream.isAppending
  cases opened : c.stream.open? with
  | some pipeline => exact .untouched
  | none =>
    dsimp only
    cases read : source.read limit with
    | mk result rest =>
      cases result with
      | error fault => exact .untouched
      | ok data =>
        dsimp only [Option.isSome_none]
        cases written : c.stream.buffer.clear.write data with
        | mk result buffer =>
          cases result with
          | error fault => exact .refused opened written
          | ok _ => exact .done opened written

end Content
end PdfBody
