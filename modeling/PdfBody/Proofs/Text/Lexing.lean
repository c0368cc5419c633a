import PdfBody.Value.Write
import PdfBody.Proofs.Text.Progress

/-! Strings, names and bare words as the writer spells them are one token each. A string ends with
its own last octet whatever follows; a name or a word ends where no regular octet follows. -/
namespace PdfBody

theorem Bytes.asciiAppend (a b : String) : Bytes.ascii (a ++ b) = Bytes.ascii a ++ Bytes.ascii b := by
  simp [Bytes.ascii]

def Stops (class? : UInt8 → Bool) : Bytes → Prop
  | [] => True
  | b :: _ => class? b = false

theorem stopsEnd (class? : UInt8 → Bool) : Stops class? [] := trivial

theorem Stops.of {class? other? : UInt8 → Bool} {text : Bytes} (stops : Stops other? text)
    (part : ∀ b, class? b = true → other? b = true) : Stops class? text := by
  cases text with
  | nil => trivial
  | cons b rest =>
    have outside : other? b = false := stops
    cases h : class? b with
    | false => exact h
    | true => rw [part b h] at outside; contradiction

theorem Cursor.runStops {class? : UInt8 → Bool} {taken rest : Bytes}
    (all : ∀ b ∈ taken, class? b = true) (stops : Stops class? rest) (position : Nat) :
    (Cursor.mk position (taken ++ rest)).run class? = (taken, ⟨position + taken.length, rest⟩) := by
  have none : rest.takeWhile class? = [] ∧ rest.dropWhile class? = rest := by
    cases rest with
    | nil => exact ⟨rfl, rfl⟩
    | cons b rest =>
      have outside : class? b = false := stops
      simp [outside]
  have kept : (taken ++ rest).takeWhile class? = taken := by
    rw [List.takeWhile_append_of_pos all, none.1, List.append_nil]
  have left : (taken ++ rest).dropWhile class? = rest := by
    rw [List.dropWhile_append_of_pos all, none.2]
  simp only [run, kept, left]

namespace Lexer

abbrev Blank (text : Bytes) : Prop := ∀ b ∈ text, Bytes.isSpace b = true

theorem nextSolid {b : UInt8} (solid : Bytes.isSpace b = false) (position : Nat) (rest : Bytes) :
    next ⟨position, b :: rest⟩ = token b ⟨position + 1, rest⟩ ⟨position, b :: rest⟩ := by
  simp only [next, Cursor.runNone solid]

theorem nextEnd (position : Nat) : next ⟨position, []⟩ = (.ok .done, ⟨position, []⟩) := rfl

theorem blankSpace : Blank [0x20] := List.all_eq_true.mp rfl

theorem blankLine : Blank [0x0A] := List.all_eq_true.mp rfl

theorem nextBlank {blank : Bytes} (spaces : Blank blank) (position : Nat) (text : Bytes) :
    next ⟨position, blank ++ text⟩ = next ⟨position + blank.length, text⟩ := by
  induction blank generalizing position with
  | nil => rfl
  | cons b blank ih =>
    have space := spaces b (by simp)
    have rest : Blank blank := fun c found => spaces c (by simp [found])
    have same : next ⟨position, b :: (blank ++ text)⟩ = next ⟨position + 1, blank ++ text⟩ := by
      simp only [next, Cursor.runCons space]
    rw [List.cons_append, same, ih rest]
    simp only [List.length_cons]
    rw [Nat.add_assoc, Nat.add_comm 1]

theorem hexValueDigit {n : Nat} (small : n < 16) : Bytes.hexValue? (Bytes.hexDigit n) = some n := by
  have all : ∀ n : Fin 16, Bytes.hexValue? (Bytes.hexDigit n) = some n.val := by decide
  exact all ⟨n, small⟩

theorem hexDigitVisible {n : Nat} (small : n < 16) :
    Bytes.isSpace (Bytes.hexDigit n) = false ∧ Bytes.hexDigit n ≠ 0x3E ∧ Bytes.hexDigit n ≠ 0x3C := by
  have all : ∀ n : Fin 16, Bytes.isSpace (Bytes.hexDigit n) = false ∧
      Bytes.hexDigit n ≠ 0x3E ∧ Bytes.hexDigit n ≠ 0x3C := by decide
  exact all ⟨n, small⟩

theorem highNibble (b : UInt8) : b.toNat / 16 < 16 := by
  have := b.toNat_lt
  omega

theorem lowNibble (b : UInt8) : b.toNat % 16 < 16 := Nat.mod_lt _ (by decide)

theorem nibblesOctet (b : UInt8) : Bytes.ofNibbles (b.toNat / 16) (b.toNat % 16) = b := by
  rw [Bytes.ofNibbles, Nat.div_add_mod, Nat.toUInt8_eq, UInt8.ofNat_toNat]

theorem plainRegular {b : UInt8} (plain : Value.isPlainInName b = true) :
    Bytes.isRegular b = true ∧ b ≠ 0x23 := by
  simp only [Value.isPlainInName, Bool.and_eq_true, Bool.not_eq_true', decide_eq_true_eq,
    bne_iff_ne] at plain
  obtain ⟨⟨⟨low, high⟩, outside⟩, sign⟩ := plain
  refine ⟨?_, sign⟩
  have visible : Bytes.isSpace b = false := by
    rw [UInt8.le_iff_toNat_le] at low
    have different : ∀ c : UInt8, c.toNat < 0x21 → (b == c) = false := by
      intro c small
      rw [beq_eq_false_iff_ne]
      rintro rfl
      exact absurd low (by simpa using small)
    simp [Bytes.isSpace, Bytes.isBlank, different]
  simp [Bytes.isRegular, visible, outside]

theorem nameBodyStop {b : UInt8} (outside : Bytes.isRegular b = false) (done : Bytes)
    (position : Nat) (rest : Bytes) :
    nameBody done position (b :: rest) = (.ok (.name done.reverse), ⟨position, b :: rest⟩) := by
  rw [nameBody.eq_def]
  simp [outside]

theorem nameBodyPlain {b : UInt8} (regular : Bytes.isRegular b = true) (sign : b ≠ 0x23)
    (done : Bytes) (position : Nat) (rest : Bytes) :
    nameBody done position (b :: rest) = nameBody (b :: done) (position + 1) rest := by
  rw [nameBody.eq_def]
  simp [regular, sign]

theorem nameBodyPair {high low : UInt8} {h l : Nat} (first : Bytes.hexValue? high = some h)
    (second : Bytes.hexValue? low = some l) (done : Bytes) (position : Nat) (rest : Bytes) :
    nameBody done position (0x23 :: high :: low :: rest) =
      nameBody (Bytes.ofNibbles h l :: done) (position + 3) rest := by
  have regular : Bytes.isRegular 0x23 = true := by decide
  rw [nameBody.eq_def]
  simp [regular, first, second]

theorem nameBodyEscape (b : UInt8) (done : Bytes) (position : Nat) (rest : Bytes) :
    nameBody done position (0x23 :: (Bytes.hexPair b ++ rest)) =
      nameBody (b :: done) (position + 3) rest := by
  have pair := nameBodyPair (hexValueDigit (highNibble b)) (hexValueDigit (lowNibble b)) done
    position rest
  rwa [nibblesOctet] at pair

theorem nameBodySpelled (name done rest : Bytes) (position : Nat) :
    nameBody done position (name.flatMap Value.spelledInName ++ rest) =
      nameBody (name.reverse ++ done) (position + (name.flatMap Value.spelledInName).length) rest := by
  induction name generalizing done position with
  | nil => rfl
  | cons b name ih =>
    rw [List.flatMap_cons, List.append_assoc, List.length_append, ← Nat.add_assoc]
    cases plain : Value.isPlainInName b with
    | true =>
      obtain ⟨regular, sign⟩ := plainRegular plain
      have spelled : Value.spelledInName b = [b] := by rw [Value.spelledInName, if_pos plain]
      rw [spelled, List.singleton_append, nameBodyPlain regular sign, ih, List.reverse_cons]
      simp
    | false =>
      have spelled : Value.spelledInName b = 0x23 :: Bytes.hexPair b := by
        simp [Value.spelledInName, plain]
      rw [spelled, List.cons_append, nameBodyEscape, ih, List.reverse_cons]
      simp [Bytes.hexPair]

theorem nameBodyWritten (name done : Bytes) {rest : Bytes} (stops : Stops Bytes.isRegular rest)
    (position : Nat) :
    nameBody done position (name.flatMap Value.spelledInName ++ rest) =
      (.ok (.name (done.reverse ++ name)),
        ⟨position + (name.flatMap Value.spelledInName).length, rest⟩) := by
  rw [nameBodySpelled]
  cases rest with
  | nil => simp [nameBody]
  | cons b rest => simp [nameBodyStop stops]

theorem nameBodyTakes {b : UInt8} (regular : Bytes.isRegular b = true) (done : Bytes)
    (position : Nat) (rest : Bytes) :
    Cursor.Ahead ⟨position + 1, rest⟩ (nameBody done position (b :: rest)).2 := by
  by_cases sign : b = 0x23
  · subst sign
    rw [nameBody.eq_def]
    simp only [regular, Bool.not_true, Bool.false_eq_true, if_false, if_true]
    split
    · split
      · exact ((Cursor.Ahead.step _ _ _).trans (Cursor.Ahead.step _ _ _)).trans (nameBodyAhead _ _ _)
      · exact (Cursor.Ahead.step _ _ _).trans (Cursor.Ahead.step _ _ _)
    · exact ⟨List.nil_suffix, by simp only [fail, List.length_nil]; omega⟩
  · rw [nameBodyPlain regular sign]
    exact nameBodyAhead _ _ _

theorem nextName (name : String) {rest : Bytes} (stops : Stops Bytes.isRegular rest)
    (position : Nat) :
    next ⟨position, Value.writeName name ++ rest⟩ =
      (.ok (.name (Utf8.encode name)), ⟨position + (Value.writeName name).length, rest⟩) := by
  rw [Value.writeName, List.cons_append, nextSolid (by decide)]
  change nameBody [] (position + 1) _ = _
  rw [nameBodyWritten _ _ stops, List.length_cons, Nat.add_assoc, Nat.add_comm 1]
  rfl

theorem hexBodyPair (b : UInt8) (done : Bytes) (position : Nat) (rest : Bytes) :
    hexBody none done position (Bytes.hexPair b ++ rest) =
      hexBody none (b :: done) (position + 2) rest := by
  obtain ⟨spaceHigh, closeHigh, _⟩ := hexDigitVisible (highNibble b)
  obtain ⟨spaceLow, closeLow, _⟩ := hexDigitVisible (lowNibble b)
  simp [Bytes.hexPair, hexBody, spaceHigh, closeHigh, spaceLow, closeLow,
    hexValueDigit (highNibble b), hexValueDigit (lowNibble b), nibblesOctet]

theorem hexBodyWritten (bytes done : Bytes) (position : Nat) (rest : Bytes) :
    hexBody none done position (bytes.flatMap Bytes.hexPair ++ 0x3E :: rest) =
      (.ok (.hexStr (done.reverse ++ bytes)),
        ⟨position + (bytes.flatMap Bytes.hexPair).length + 1, rest⟩) := by
  induction bytes generalizing done position with
  | nil => simp [hexBody, closeHex]
  | cons b bytes ih =>
    rw [List.flatMap_cons, List.append_assoc, hexBodyPair, ih]
    simp [Bytes.hexPair]
    omega

theorem literalBodyPlain (done : Bytes) (position : Nat) {b : UInt8}
    (visible : b ≠ 0x5C ∧ b ≠ 0x28 ∧ b ≠ 0x29) (rest : Bytes) :
    literalBody ⟨.plain, 1, done⟩ position (b :: rest) =
      literalBody ⟨.plain, 1, b :: done⟩ (position + 1) rest := by
  simp [literalBody, Literal.step, Literal.plain, visible]

theorem literalBodyEscape {b c : UInt8} {done : Bytes}
    (escape : Literal.escape ⟨.escape, 1, done⟩ c = ⟨.plain, 1, b :: done⟩) (position : Nat)
    (rest : Bytes) :
    literalBody ⟨.plain, 1, done⟩ position (0x5C :: c :: rest) =
      literalBody ⟨.plain, 1, b :: done⟩ (position + 2) rest := by
  simp [literalBody, Literal.step, Literal.plain, escape]

theorem literalBodySpelled (b : UInt8) (done : Bytes) (position : Nat) (rest : Bytes) :
    literalBody ⟨.plain, 1, done⟩ position (Value.escaped b ++ rest) =
      literalBody ⟨.plain, 1, b :: done⟩ (position + (Value.escaped b).length) rest := by
  unfold Value.escaped
  split
  · next special =>
    refine literalBodyEscape ?_ _ _
    rcases special with rfl | rfl | rfl <;> rfl
  split
  · next special => subst special; exact literalBodyEscape rfl _ _
  split
  · next special => subst special; exact literalBodyEscape rfl _ _
  split
  · next special => subst special; exact literalBodyEscape rfl _ _
  split
  · next special => subst special; exact literalBodyEscape rfl _ _
  split
  · next special => subst special; exact literalBodyEscape rfl _ _
  · next plain _ _ _ _ _ =>
    obtain ⟨opening, closing, backslash⟩ : b ≠ 0x28 ∧ b ≠ 0x29 ∧ b ≠ 0x5C := by
      simpa [not_or] using plain
    exact literalBodyPlain _ _ ⟨backslash, opening, closing⟩ _

theorem literalBodyWritten (bytes done : Bytes) (position : Nat) (rest : Bytes) :
    literalBody ⟨.plain, 1, done⟩ position (bytes.flatMap Value.escaped ++ 0x29 :: rest) =
      (.ok (.str (done.reverse ++ bytes)),
        ⟨position + (bytes.flatMap Value.escaped).length + 1, rest⟩) := by
  induction bytes generalizing done position with
  | nil => simp [literalBody, Literal.step, Literal.plain]
  | cons b bytes ih =>
    rw [List.flatMap_cons, List.append_assoc, literalBodySpelled, ih]
    simp [Nat.add_assoc]

def stringToken (bytes : Bytes) (hex : Bool) : Token := if hex then .hexStr bytes else .str bytes

theorem nextString (bytes : Bytes) (hex : Bool) (rest : Bytes) (position : Nat) :
    next ⟨position, Value.writeString bytes hex ++ rest⟩ =
      (.ok (stringToken bytes hex), ⟨position + (Value.writeString bytes hex).length, rest⟩) := by
  cases hex with
  | false =>
    simp only [Value.writeString, Bool.false_eq_true, if_false, List.cons_append,
      List.append_assoc, List.nil_append]
    rw [nextSolid (by decide)]
    change literalBody ⟨.plain, 1, []⟩ (position + 1) _ = _
    rw [literalBodyWritten]
    simp [stringToken, Nat.add_assoc, Nat.add_comm, Nat.add_left_comm]
  | true =>
    simp only [Value.writeString, if_true, List.cons_append, List.append_assoc, List.nil_append]
    rw [nextSolid (by decide)]
    have inside : token 0x3C ⟨position + 1, bytes.flatMap Bytes.hexPair ++ 0x3E :: rest⟩
        ⟨position, 0x3C :: (bytes.flatMap Bytes.hexPair ++ 0x3E :: rest)⟩ =
          hexBody none [] (position + 1) (bytes.flatMap Bytes.hexPair ++ 0x3E :: rest) := by
      cases bytes with
      | nil => rfl
      | cons b bytes =>
        obtain ⟨_, _, opening⟩ := hexDigitVisible (highNibble b)
        simp [token, Bytes.hexPair, opening]
    rw [inside, hexBodyWritten]
    simp [stringToken, Nat.add_assoc, Nat.add_comm, Nat.add_left_comm]

def beginsNumeral (b : UInt8) : Bool := b = 0x2B || b = 0x2D || b = 0x2E || Bytes.isDigit b

theorem regularSolid {b : UInt8} (regular : Bytes.isRegular b = true) :
    Bytes.isSpace b = false ∧ Bytes.isDelimiter b = false := by
  simpa [Bytes.isRegular] using regular

theorem nextRegular {b : UInt8} (regular : Bytes.isRegular b = true) (position : Nat)
    (rest : Bytes) : next ⟨position, b :: rest⟩ =
      if beginsNumeral b then number ⟨position, b :: rest⟩ else word ⟨position, b :: rest⟩ := by
  obtain ⟨solid, outside⟩ := regularSolid regular
  have delimiter (c : UInt8) (mark : Bytes.isDelimiter c = true) : b ≠ c := by
    rintro rfl
    rw [outside] at mark
    contradiction
  rw [nextSolid solid]
  simp only [token, if_neg (delimiter 0x25 (by decide)), if_neg (delimiter 0x2F (by decide)),
    if_neg (delimiter 0x28 (by decide)), if_neg (delimiter 0x3C (by decide)),
    if_neg (delimiter 0x3E (by decide)), if_neg (delimiter 0x5B (by decide)),
    if_neg (delimiter 0x5D (by decide)), outside, Bool.false_eq_true, if_false]
  rfl

theorem nextWord {b : UInt8} {letters rest : Bytes}
    (all : ∀ c ∈ b :: letters, Bytes.isRegular c = true) (begins : beginsNumeral b = false)
    (stops : Stops Bytes.isRegular rest) (position : Nat) :
    next ⟨position, b :: letters ++ rest⟩ =
      ((word ⟨0, b :: letters⟩).1, ⟨position + (b :: letters).length, rest⟩) := by
  have whole := Cursor.runStops all (stopsEnd _) 0
  have cut := Cursor.runStops all stops position
  rw [List.append_nil] at whole
  rw [List.cons_append, nextRegular (all b (by simp)), begins, ← List.cons_append]
  simp only [word, whole, cut, Bool.false_eq_true, if_false]

theorem nextNull {rest : Bytes} (stops : Stops Bytes.isRegular rest) (position : Nat) :
    next ⟨position, Bytes.ascii "null" ++ rest⟩ = (.ok .null, ⟨position + 4, rest⟩) :=
  nextWord (List.all_eq_true.mp rfl) (by decide) stops position

theorem nextBool (truth : Bool) {rest : Bytes} (stops : Stops Bytes.isRegular rest)
    (position : Nat) :
    next ⟨position, Bytes.ascii (if truth then "true" else "false") ++ rest⟩ =
      (.ok (.bool truth),
        ⟨position + (Bytes.ascii (if truth then "true" else "false")).length, rest⟩) := by
  cases truth with
  | true => exact nextWord (List.all_eq_true.mp rfl) (by decide) stops position
  | false => exact nextWord (List.all_eq_true.mp rfl) (by decide) stops position

theorem nextLetterR {rest : Bytes} (stops : Stops Bytes.isRegular rest) (position : Nat) :
    next ⟨position, 0x52 :: rest⟩ = (.ok (.word "R"), ⟨position + 1, rest⟩) :=
  have single : ∀ c ∈ [(0x52 : UInt8)], Bytes.isRegular c = true := List.all_eq_true.mp rfl
  nextWord single (by decide) stops position

theorem seekBehind (before text : Bytes) :
    Cursor.seek (before ++ text) before.length = ⟨before.length, text⟩ := by
  simp [Cursor.seek]

theorem seekFurther (before text rest : Bytes) :
    Cursor.seek (before ++ (text ++ rest)) (before.length + text.length) =
      ⟨before.length + text.length, rest⟩ := by
  have behind := seekBehind (before ++ text) rest
  rwa [List.append_assoc, List.length_append] at behind

theorem writtenTokensLexBack (before rest : Bytes) (layout : Layout) :
    (∀ (bytes : Bytes) (hex : Bool),
      next (.seek (before ++ ((Value.str bytes hex).write layout ++ rest)) before.length) =
        (.ok (if hex then .hexStr bytes else .str bytes),
          .seek (before ++ ((Value.str bytes hex).write layout ++ rest))
            (before.length + ((Value.str bytes hex).write layout).length))) ∧
    ∀ name : String,
      next (.seek (before ++ ((Value.name name).write layout ++ rest)) before.length) =
          (.ok (.name (Utf8.encode name)),
            .seek (before ++ ((Value.name name).write layout ++ rest))
              (before.length + ((Value.name name).write layout).length)) ↔
        rest = [] ∨ ∃ b more, rest = b :: more ∧
          (Bytes.isSpace b = true ∨ Bytes.isDelimiter b = true) := by
  refine ⟨fun bytes hex => ?_, fun name => ?_⟩
  · rw [seekBehind, seekFurther, Value.write]
    exact nextString bytes hex rest before.length
  · rw [seekBehind, seekFurther, Value.write]
    cases rest with
    | nil => exact iff_of_true (nextName name (stopsEnd _) _) (.inl rfl)
    | cons b more =>
      cases regular : Bytes.isRegular b with
      | false =>
        have stops : Stops Bytes.isRegular (b :: more) := regular
        refine iff_of_true (nextName name stops _) (.inr ⟨b, more, rfl, ?_⟩)
        rwa [Bytes.isRegular, ← Bool.not_or, Bool.not_eq_false', Bool.or_eq_true] at regular
      | true =>
        obtain ⟨solid, outside⟩ := regularSolid regular
        refine iff_of_false (fun read => ?_) (by simp [solid, outside])
        -- the name goes on with the octet, so that the lexer stops behind it
        have goes : next ⟨before.length, Value.writeName name ++ b :: more⟩ =
            nameBody [] (before.length + 1)
              ((Utf8.encode name).flatMap Value.spelledInName ++ b :: more) := by
          rw [Value.writeName, List.cons_append, nextSolid (by decide)]
          rfl
        rw [goes, nameBodySpelled] at read
        have takes := (nameBodyTakes regular ((Utf8.encode name).reverse ++ [])
          (before.length + 1 + ((Utf8.encode name).flatMap Value.spelledInName).length) more).length
        rw [read] at takes
        exact absurd takes (Nat.not_succ_le_self more.length)

end Lexer
end PdfBody
