import PdfBody.Proofs.Text.Reading

/-! Written values read back. A clean text denotes the value it was written from, up to the place
of `Type` entries and the nesting a reader admits. Compact texts need nothing between them: read
one after the other, they give the values they were written from. -/
namespace PdfBody
open PdfBody.Parser

namespace Parser

theorem resumeEnd (position : Nat) :
    resume [] ⟨position, []⟩ =
      (.error (.parse position "Unexpected end of input"), ⟨position, []⟩) :=
  resumeEnded (Lexer.nextEnd position) []

theorem apartEnd (position : Nat) : Apart ⟨position, []⟩ :=
  apartToken (Lexer.nextEnd position) (by simp) (by simp)

theorem nextTokenEnd (position : Nat) :
    nextToken ⟨position, []⟩ = (.ok .done, ⟨position, []⟩) := by
  rw [nextToken, lexemesDone (Lexer.nextEnd position)]
  rfl

theorem parseNext {text : Bytes} {v : Value} {position : Nat}
    (read : next (.start text) = (.ok v, ⟨position, []⟩)) : parse text = .ok v := by
  simp only [parse, read, nextTokenEnd]

theorem parseFault {text : Bytes} {fault : Fault} (read : (next (.start text)).1 = .error fault) :
    parse text = .error fault := by
  unfold parse
  split
  · next fault' stop found =>
    rw [found] at read
    exact read
  · next v c found =>
    rw [found] at read
    cases read

end Parser

namespace Value

theorem spelledReads {admits : Binary64 → Prop} {v : Value} (cooked : v.Every (Cooked admits))
    (keyed : v.Keyed) {text rest : Bytes} (spells : Spells text v.tokens rest) {position : Nat}
    (apart : Apart ⟨position + text.length, rest⟩) :
    ReadsTo [] ⟨position, text ++ rest⟩ v.nesting
      (.ok v.typeFirst, ⟨position + text.length, rest⟩) :=
  readsValue v cooked keyed [] _ _ (spells position) apart rfl (Nat.zero_le _)

theorem spelledParses {admits : Binary64 → Prop} {v : Value} (cooked : v.Every (Cooked admits))
    (keyed : v.Keyed) {text : Bytes} (spells : Spells text v.tokens []) :
    if v.nesting ≤ depthLimit then parse text = .ok v.typeFirst
    else ∃ position, parse text = .error (.parse position "Maximum nesting depth exceeded") := by
  have reads := spelledReads cooked keyed spells (apartEnd (0 + text.length))
  rw [List.append_nil, ReadsTo, List.length_nil, Nat.zero_add] at reads
  split
  · next fits =>
    rw [if_pos fits] at reads
    exact parseNext reads
  · next deep =>
    rw [if_neg deep] at reads
    obtain ⟨position, refused⟩ := reads
    exact ⟨position, parseFault refused⟩

theorem cleanTextReadsBack (v : Value) (legible : v.Every (Legible .clean)) (keyed : v.Keyed) :
    (v.nesting ≤ 512 → parse (v.write .clean) = .ok v.typeFirst) ∧
      (512 < v.nesting →
        ∃ position text, parse (v.write .clean) = .error (.parse position text)) := by
  have parses := spelledParses (legibleCooked legible) keyed (spelledValue legible (stopsEnd _))
  refine ⟨fun fits => ?_, fun deep => ?_⟩
  · rwa [if_pos (show v.nesting ≤ depthLimit from fits)] at parses
  · rw [if_neg (show ¬ v.nesting ≤ depthLimit from Nat.not_le.mpr deep)] at parses
    obtain ⟨position, refused⟩ := parses
    exact ⟨position, _, refused⟩

def catalog : Value :=
  .dict
    [("Counts", .arr [.int (-7), .int 3, .int 0, .ref ⟨12, 3⟩, .real ⟨0x3FF8000000000000⟩]),
      ("Tïtle #1", .str [0x28, 0x0A, 0x5C, 0xFF] false),
      ("Digest", .str [0x00, 0x3E] true),
      ("Type", .name "Catalog")]

def nested : Nat → Value
  | 0 => .arr []
  | depth + 1 => .arr [nested depth]

theorem nestedProper (depth : Nat) :
    (nested depth).Every (Legible .clean) ∧ (nested depth).Keyed ∧
      (nested depth).nesting = depth + 1 := by
  induction depth with
  | zero => simp [nested, Every, EveryItems, Legible, Keyed, KeyedItems, nesting, nestingItems]
  | succ depth ih =>
    obtain ⟨legible, keyed, deep⟩ := ih
    refine ⟨⟨trivial, legible, trivial⟩, ⟨keyed, trivial⟩, ?_⟩
    simp only [nested, nesting, nestingItems, deep, Nat.max_zero]

theorem catalogReadsBack :
    parse (catalog.write .clean) = .ok catalog.typeFirst ∧
      ∃ position text, parse ((nested 512).write .clean) = .error (.parse position text) := by
  have legible : catalog.Every (Legible .clean) := by
    simp only [catalog, Every, EveryEntries, EveryItems, Legible, and_true, true_and]
    exact ⟨_, _, rfl, by decide⟩
  have keyed : catalog.Keyed := by
    simp [catalog, Keyed, KeyedEntries, KeyedItems]
  obtain ⟨legibleNested, keyedNested, deep⟩ := nestedProper 512
  exact ⟨(cleanTextReadsBack catalog legible keyed).1 (by decide),
    (cleanTextReadsBack (nested 512) legibleNested keyedNested).2 (by omega)⟩

def joined (vs : List Value) : Bytes := vs.flatMap (write .compact)

theorem joinedStops {vs : List Value} (legible : ∀ v ∈ vs, v.Every (Legible .compact)) :
    Stops Bytes.isRegular (joined vs) := by
  cases vs with
  | nil => trivial
  | cons v vs => exact stopsCompact (legibleCooked (legible v (by simp))) _

theorem joinedApart {vs : List Value} (legible : ∀ v ∈ vs, v.Every (Legible .compact))
    (position : Nat) : Apart ⟨position, joined vs⟩ := by
  induction vs generalizing position with
  | nil => exact apartEnd position
  | cons v vs ih =>
    have others : ∀ w ∈ vs, w.Every (Legible .compact) := fun w found => legible w (by simp [found])
    exact apartValue (spelledValue (legible v (by simp)) (joinedStops others) position)
      (ih others _)

theorem joinedReads {vs : List Value} (legible : ∀ v ∈ vs, v.Every (Legible .compact))
    (keyed : ∀ v ∈ vs, v.Keyed) (shallow : ∀ v ∈ vs, v.nesting ≤ depthLimit) (position : Nat) :
    parseMany (vs.length + 1) ⟨position, joined vs⟩ =
      vs.map (fun v => .ok v.typeFirst) ++
        [.error (.parse (position + (joined vs).length) "Unexpected end of input")] := by
  induction vs generalizing position with
  | nil =>
    have last : next ⟨position, joined []⟩ = _ := resumeEnd position
    simp only [parseMany, List.length_nil, last]
    rfl
  | cons v vs ih =>
    have others : ∀ w ∈ vs, w.Every (Legible .compact) := fun w found => legible w (by simp [found])
    have reads := spelledReads (legibleCooked (legible v (by simp))) (keyed v (by simp))
      (spelledValue (legible v (by simp)) (joinedStops others))
      (joinedApart others (position + (v.write .compact).length))
    rw [ReadsTo, List.length_nil, Nat.zero_add, if_pos (shallow v (by simp))] at reads
    have first : next ⟨position, joined (v :: vs)⟩ = _ := reads
    have behind := ih others (fun w found => keyed w (by simp [found]))
      (fun w found => shallow w (by simp [found])) (position + (v.write .compact).length)
    have longer : (joined (v :: vs)).length = (v.write .compact).length + (joined vs).length := by
      rw [joined, List.flatMap_cons, List.length_append, joined]
    rw [List.length_cons, parseMany, first, longer, ← Nat.add_assoc, List.map_cons, List.cons_append]
    exact congrArg _ behind

theorem joinedTextsReadBack (vs : List Value) (legible : ∀ v ∈ vs, v.Every (Legible .compact))
    (keyed : ∀ v ∈ vs, v.Keyed) (shallow : ∀ v ∈ vs, v.nesting ≤ 512) :
    parseMany (vs.length + 1) (.start (joined vs)) =
      vs.map (fun v => .ok v.typeFirst) ++
        [.error (.parse (joined vs).length "Unexpected end of input")] := by
  have reads := joinedReads legible keyed shallow 0
  rwa [Nat.zero_add] at reads

theorem numbersReadBack :
    parseMany 6 (.start (joined [.int 1, .int 0, .ref ⟨4, 2⟩, .name "R", .arr [.int 5, .bool true]])) =
      [.ok (.int 1), .ok (.int 0), .ok (.ref ⟨4, 2⟩), .ok (.name "R"),
        .ok (.arr [.int 5, .bool true]), .error (.parse 21 "Unexpected end of input")] :=
  joinedTextsReadBack [.int 1, .int 0, .ref ⟨4, 2⟩, .name "R", .arr [.int 5, .bool true]]
    (by simp [Every, EveryItems, Legible]) (by simp [Keyed, KeyedItems]) (by decide)

end Value
end PdfBody
