import PdfBody.Filter.Codec

/-! What comes out of an encoder that is fed some chunks and then finished, and when it can be read back. -/
namespace PdfBody

theorem mapOk {α β : Type} {result : Except Fault α} {change : α → β} {b : β}
    (mapped : result.map change = .ok b) : ∃ a, result = .ok a ∧ b = change a := by
  cases result with
  | error fault => cases mapped
  | ok a => exact ⟨a, rfl, (Except.ok.inj mapped).symm⟩

namespace Encoder

def run (e : Encoder) : List Bytes → Except Fault Bytes
  | [] => e.finish
  | chunk :: chunks =>
    match e.feed chunk with
    | (.error fault, _) => .error fault
    | (.ok out, e) => (run e chunks).map fun rest => out ++ rest

theorem runFed {e : Encoder} {chunk : Bytes} {chunks : List Bytes} {text : Bytes}
    (output : e.run (chunk :: chunks) = .ok text) :
    ∃ out after rest, e.feed chunk = (.ok out, after) ∧ after.run chunks = .ok rest ∧
      text = out ++ rest := by
  rw [run] at output
  cases fed : e.feed chunk with
  | mk result after =>
    rw [fed] at output
    cases result with
    | error fault => cases output
    | ok out =>
      obtain ⟨rest, later, whole⟩ := mapOk output
      exact ⟨out, after, rest, rfl, later, whole⟩

structure Uncut (e : Encoder) (fine : Bytes → Prop) (output : Bytes → Bytes) : Prop where
  start : fine e.held
  push : ∀ {held}, fine held → ∀ input, ∃ out left, e.push held input = (.ok out, left) ∧
    fine left ∧ ∀ rest, output (held ++ input ++ rest) = out ++ output (left ++ rest)
  flush : ∀ {held}, fine held → e.flush held = .ok (output held)

theorem runUncut {e : Encoder} {fine : Bytes → Prop} {output : Bytes → Bytes}
    (uncut : e.Uncut fine output) (chunks : List Bytes) :
    e.run chunks = .ok (output (e.held ++ chunks.flatten)) := by
  induction chunks generalizing e with
  | nil =>
    rw [List.flatten_nil, List.append_nil]
    exact uncut.flush uncut.start
  | cons chunk chunks ih =>
    obtain ⟨out, left, pushed, fine', cut⟩ := uncut.push uncut.start chunk
    have later := ih (e := ⟨left, e.push, e.flush⟩) ⟨fine', uncut.push, uncut.flush⟩
    have fed : e.feed chunk = (.ok out, ⟨left, e.push, e.flush⟩) := by rw [feed, pushed]
    rw [run, fed]
    dsimp only
    rw [later, Except.map, List.flatten_cons, ← List.append_assoc, cut]

theorem directUncut (letters : UInt8 → Bytes) (trailer : Bytes) :
    (direct (fun input => input.flatMap letters) trailer).Uncut (fun held => held = [])
      fun data => data.flatMap letters ++ trailer where
  start := rfl
  push {held} empty input := by
    subst empty
    exact ⟨_, _, rfl, rfl, fun rest => by simp⟩
  flush {held} empty := by
    subst empty
    rfl

theorem wholeUncut (encode : Bytes → Bytes) : (whole encode).Uncut (fun _ => True) encode where
  start := trivial
  push _ _ := ⟨_, _, rfl, trivial, fun _ => rfl⟩
  flush _ := rfl

end Encoder

/-- Whatever a fresh encoder is fed, and however that is cut into chunks, it encodes it all, and the codec
reads it back. -/
def Codec.Lawful (codec : Codec) (params : Option Entries) : Prop :=
  ∃ e, codec.encoder params = .ok e ∧ ∀ chunks, ∃ out, e.run chunks = .ok out ∧
    codec.decode params out = .ok chunks.flatten

theorem Codec.lawfulUncut {codec : Codec} {params : Option Entries} {e : Encoder}
    {fine : Bytes → Prop} {output : Bytes → Bytes} (made : codec.encoder params = .ok e)
    (fresh : e.held = []) (uncut : e.Uncut fine output)
    (reads : ∀ data, codec.decode params (output data) = .ok data) : codec.Lawful params := by
  refine ⟨e, made, fun chunks => ⟨output chunks.flatten, ?_, reads _⟩⟩
  have whole := Encoder.runUncut uncut chunks
  rwa [fresh, List.nil_append] at whole

end PdfBody
