import PdfBody.Proofs.Text.Parsed

/-! Parsed values written again. A numeral with a point may be too large for a finite real, and is
then read as an infinity; the clean layout writes that as a word, which no reader takes for a value.
A parsed value without infinities is written to a text that reads as a value with the same text. -/
namespace PdfBody.Value
open PdfBody.Parser Binary64 Lexer

theorem infiniteFaults {x : Binary64} (infinite : x.isInfinite = true) {rest : Bytes}
    (stops : Stops Bytes.isRegular rest) (position : Nat) :
    Faults ⟨position, Bytes.ascii x.sixPlaces ++ rest⟩ := by
  rw [infiniteText infinite, signText]
  cases x.negative with
  | false => exact .stray (nextWord (List.all_eq_true.mp rfl) (by decide) stops position) (by decide)
  | true => exact .now rfl

theorem cleanCuts :
    RealsCut .clean IsNumber IsFinite (fun x => real (reread x)) := by
  refine ⟨fun x => by simp [tokens], fun x number rest stops => ?_⟩
  refine ⟨fun finite => spelledBare .clean (by simp) fun position => ?_, fun large position => ?_⟩
  · exact nextSixPlaces finite.1 finite.2 (stops.of fun _ digit => (Bytes.digitRegular digit).1) _
  · have infinite : x.isInfinite ≠ false := fun bounded => large ⟨number, bounded⟩
    exact infiniteFaults (Bool.eq_true_of_not_eq_false infinite) stops position

theorem rereadShrinks (x : Binary64) (finite : x.IsFinite) :
    Shrinks True ((real (reread x)).write .clean) ((real x).write .clean) := by
  obtain ⟨finite', places⟩ := placesSettled finite
  have text := sixPlacesSame finite finite' (ofRatioNegative _ _ _) places
  rw [write, write, writeReal, writeReal, text]
  exact .refl _

theorem parsedTextRewritten (text : Bytes) (v : Value) (parsed : parse text = .ok v) :
    ((∃ w, parse (v.write .clean) = .ok w) ↔ v.Every (Cooked IsFinite)) ∧
      ∀ w, parse (v.write .clean) = .ok w → w.write .clean = v.write .clean := by
  obtain ⟨numbers, keyed, shallow⟩ := parsedMade parsed
  by_cases finite : v.Every (Cooked IsFinite)
  · have again := cleanCuts.parses (fun x => ⟨rfl, trivial, trivial⟩) numbers keyed shallow finite
    refine ⟨iff_of_true ⟨_, again⟩ finite, fun w read => ?_⟩
    have same := (shrinksValue rereadShrinks v finite).same (cookedWeaker (fun _ _ => trivial) finite)
    rw [again] at read
    rw [← Except.ok.inj read, writeTypeFirst, same]
  · have refused := cleanCuts.refused numbers finite
    refine ⟨iff_of_false ?_ finite, fun w read => absurd read (refused w)⟩
    exact fun ⟨w, read⟩ => refused w read

def plate : Bytes :=
  Bytes.ascii "<</Box [-.5 +0. 12.3456789 -0.0 1 0 R]/Type/A#42/Tag(\\101)/Tag<4A5>>>"

def plateRead : Value :=
  .dict
    [("Box", .arr [.real ⟨0xBFE0000000000000⟩, .real ⟨0⟩, .real ⟨0x4028B0FCD324D5A2⟩,
        .real ⟨0x8000000000000000⟩, .ref ⟨1, 0⟩]),
      ("Type", .name "AB"), ("Tag", .str [0x4A, 0x50] true)]

theorem plateRewritten :
    parse plate = .ok plateRead ∧
      ∃ w, parse (plateRead.write .clean) = .ok w ∧ w.write .clean = plateRead.write .clean := by
  have parsed : parse plate = .ok plateRead := by decide +kernel
  have finite : plateRead.Every (Cooked IsFinite) := by
    simp only [plateRead, Every, EveryEntries, EveryItems, Cooked, IsFinite, and_true, true_and]
    decide
  obtain ⟨readable, same⟩ := parsedTextRewritten plate plateRead parsed
  obtain ⟨w, read⟩ := readable.mpr finite
  exact ⟨parsed, w, read, same w read⟩

def hugeNumeral : Bytes := 0x31 :: (List.replicate 309 0x30 ++ [0x2E])

theorem infinityUnreadable :
    ¬ ∀ (text : Bytes) (v : Value), parse text = .ok v →
      ∃ w, parse (v.write .clean) = .ok w ∧ w.write .clean = v.write .clean := by
  intro always
  have parsed : parse hugeNumeral = .ok (real ⟨0x7FF0000000000000⟩) := by decide +kernel
  have infinite : ¬ (real ⟨0x7FF0000000000000⟩).Every (Cooked IsFinite) := fun finite =>
    absurd finite.2 (by decide)
  obtain ⟨w, read, -⟩ := always _ _ parsed
  exact cleanCuts.refused (parsedMade parsed).numbers infinite w read

end PdfBody.Value
