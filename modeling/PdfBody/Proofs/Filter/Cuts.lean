import PdfBody.Proofs.Filter.Base85
import PdfBody.Proofs.Filter.Pipeline

/-! What filters in a row put out depends on the data alone, and not on the cut into chunks, if that holds
for each of them: what one of them holds back, or passes on piece by piece, is to the next one just another
cut of the same data. -/
namespace PdfBody

def Codec.EncodesBy (codec : Codec) (params : Option Entries) (encode : Bytes → Bytes) : Prop :=
  codec.Relates params fun data out => out = encode data

theorem Codec.encodesUncut {codec : Codec} {params : Option Entries} {e : Encoder}
    {fine : Bytes → Prop} {output : Bytes → Bytes} (made : codec.encoder params = .ok e)
    (fresh : e.held = []) (uncut : e.Uncut fine output) : codec.EncodesBy params output := by
  refine ⟨e, made, fun chunks => ⟨_, ?_, rfl⟩⟩
  have whole := Encoder.runUncut uncut chunks
  rwa [fresh, List.nil_append] at whole

theorem relayedEncodings {encode : FilterName → Bytes → Bytes} {place : Nat}
    {filters : List FilterName} {data out : Bytes}
    (relayed : Relayed (fun _ f data out => out = encode f data) place filters data out) :
    out = filters.foldr encode data := by
  induction relayed with
  | none => rfl
  | through later first ih => rw [first, ih, List.foldr_cons]

theorem Registry.madeEncodes (registry : Registry) (entries : Entries)
    (encode : FilterName → Bytes → Bytes) {filters : List FilterName}
    (each : ∀ place f, filters[place]? = some f → ∃ codec, registry.get f = .ok codec ∧
      codec.EncodesBy (entries.params place filters.length) (encode f)) :
    ∃ p, Pipeline.make registry filters entries = .ok p ∧
      ∀ chunks, p.run chunks = .ok (filters.foldr encode chunks.flatten) := by
  obtain ⟨p, made, relayed⟩ := registry.madeRelays entries (fun _ f data out => out = encode f data)
    each
  refine ⟨p, made, fun chunks => ?_⟩
  obtain ⟨out, output, through⟩ := relayed chunks
  rw [output, relayedEncodings through]

namespace FilterName

def encodeWhole : FilterName → Bytes → Bytes
  | asciiHex, data => Hex.encode data
  | ascii85, data => Base85.encode data
  | runLength, data => RunLength.encode data
  | _, data => data

theorem wholeEncodes (zlib : Zlib) {f : FilterName} (listed : f ∈ [asciiHex, ascii85, runLength])
    (params : Option Entries) :
    ∃ codec, (Registry.standard zlib).get f = .ok codec ∧ codec.EncodesBy params f.encodeWhole := by
  simp only [List.mem_cons, List.not_mem_nil, or_false] at listed
  rcases listed with rfl | rfl | rfl
  · exact ⟨Hex.codec, rfl, Codec.encodesUncut rfl rfl (Encoder.directUncut Bytes.hexPair [0x3E])⟩
  · exact ⟨Base85.codec, rfl, Codec.encodesUncut rfl rfl Base85.encoderUncut⟩
  · exact ⟨RunLength.codec, rfl, Codec.encodesUncut rfl rfl (Encoder.wholeUncut RunLength.encode)⟩

end FilterName

theorem Pipeline.cutImmaterial (zlib : Zlib) (filters : List FilterName)
    (built : ∀ f ∈ filters, f ∈ [FilterName.asciiHex, .ascii85, .runLength]) (entries : Entries)
    (chunks : List Bytes) :
    ∃ p out, Pipeline.make (.standard zlib) filters entries = .ok p ∧ p.run chunks = .ok out ∧
      p.run [chunks.flatten] = .ok out := by
  obtain ⟨p, made, encodes⟩ := (Registry.standard zlib).madeEncodes entries FilterName.encodeWhole
    fun place f found => FilterName.wholeEncodes zlib (built f (List.mem_of_getElem? found)) _
  refine ⟨p, _, made, encodes chunks, ?_⟩
  rw [encodes, List.flatten_singleton]

theorem Pipeline.cutThroughFour :
    ∃ p out, Pipeline.make (.standard .storing) [.ascii85, .runLength, .ascii85, .asciiHex]
        [(Entries.paramsKey, .arr [.null, .dict []])] = .ok p ∧
      p.run [Bytes.ascii "BT", [], Bytes.ascii " /F1 1", [0]] = .ok out ∧
      p.run [[Bytes.ascii "BT", [], Bytes.ascii " /F1 1", [0]].flatten] = .ok out :=
  Pipeline.cutImmaterial .storing _ (by simp) _ _

end PdfBody
