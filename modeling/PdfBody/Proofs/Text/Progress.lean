import PdfBody.Text.Parser

/-! Reading only moves forward. Every token but the end takes an octet, so the lexemes of a text
are the first token and the lexemes behind it, whatever count they were asked for with. -/
namespace PdfBody

structure Cursor.Ahead (c d : Cursor) : Prop where
  suffix : d.rest <:+ c.rest
  total : d.position + d.rest.length = c.position + c.rest.length

namespace Cursor.Ahead

theorem refl (c : Cursor) : Ahead c c := ⟨List.suffix_rfl, rfl⟩

theorem trans {c d e : Cursor} (first : Ahead c d) (second : Ahead d e) : Ahead c e :=
  ⟨second.suffix.trans first.suffix, second.total.trans first.total⟩

theorem step (position : Nat) (b : UInt8) (rest : Bytes) :
    Ahead ⟨position, b :: rest⟩ ⟨position + 1, rest⟩ :=
  ⟨List.suffix_cons b rest, by simp only [List.length_cons]; omega⟩

theorem front {c : Cursor} {b : UInt8} {rest : Bytes} (same : c.rest = b :: rest) :
    Ahead c ⟨c.position + 1, rest⟩ := by
  obtain ⟨position, bytes⟩ := c
  cases same
  exact step position b rest

theorem length {c d : Cursor} (ahead : Ahead c d) : d.rest.length ≤ c.rest.length :=
  ahead.suffix.length_le

end Cursor.Ahead

namespace Cursor

theorem runAhead (c : Cursor) (class? : UInt8 → Bool) : Ahead c (c.run class?).2 := by
  refine ⟨List.dropWhile_suffix class?, ?_⟩
  have whole : c.rest.takeWhile class? ++ c.rest.dropWhile class? = c.rest :=
    List.takeWhile_append_dropWhile
  have lengths := congrArg List.length whole
  simp only [List.length_append] at lengths
  simp only [run]
  omega

theorem runCons {class? : UInt8 → Bool} {position : Nat} {b : UInt8} {rest : Bytes}
    (member : class? b = true) :
    (Cursor.mk position (b :: rest)).run class? =
      (b :: ((Cursor.mk (position + 1) rest).run class?).1,
        ((Cursor.mk (position + 1) rest).run class?).2) := by
  simp only [run, List.takeWhile_cons, List.dropWhile_cons, member, if_true, List.length_cons]
  rw [Nat.add_assoc, Nat.add_comm 1]

theorem runNone {class? : UInt8 → Bool} {position : Nat} {b : UInt8} {rest : Bytes}
    (other : class? b = false) :
    (Cursor.mk position (b :: rest)).run class? = ([], ⟨position, b :: rest⟩) := by
  simp [run, other]

end Cursor

namespace Lexer
open Cursor (Ahead)

theorem nameBodyAhead (done : Bytes) (position : Nat) (bytes : Bytes) :
    Ahead ⟨position, bytes⟩ (nameBody done position bytes).2 := by
  fun_induction nameBody done position bytes with
  | case1 => exact Ahead.refl _
  | case2 => exact Ahead.refl _
  | case3 done position regular high low more h l hh hl ih =>
    exact ((Ahead.step _ _ _).trans ((Ahead.step _ _ _).trans (Ahead.step _ _ _))).trans ih
  | case4 => exact (Ahead.step _ _ _).trans ((Ahead.step _ _ _).trans (Ahead.step _ _ _))
  | case5 done position regular short =>
    exact ⟨List.nil_suffix, by simp only [fail, List.length_nil, List.length_cons]; omega⟩
  | case6 done position b rest regular plain ih => exact (Ahead.step _ _ _).trans ih

theorem literalBodyAhead (s : Literal) (position : Nat) (bytes : Bytes) :
    Ahead ⟨position, bytes⟩ (literalBody s position bytes).2 := by
  induction bytes generalizing s position with
  | nil => exact Ahead.refl _
  | cons b rest ih =>
    simp only [literalBody]
    split
    · exact Ahead.step _ _ _
    · exact (Ahead.step _ _ _).trans (ih _ _)

theorem hexBodyAhead (high : Option Nat) (done : Bytes) (position : Nat) (bytes : Bytes) :
    Ahead ⟨position, bytes⟩ (hexBody high done position bytes).2 := by
  induction bytes generalizing high done position with
  | nil => exact Ahead.refl _
  | cons b rest ih =>
    unfold hexBody
    split
    · exact Ahead.step _ _ _
    · split
      · exact (Ahead.step _ _ _).trans (ih _ _ _)
      · split
        · exact Ahead.step _ _ _
        · split
          · exact (Ahead.step _ _ _).trans (ih _ _ _)
          · exact (Ahead.step _ _ _).trans (ih _ _ _)

namespace Numeral

theorem placesAhead (c : Cursor) : Ahead c (places c).2 := by
  obtain ⟨position, bytes⟩ := c
  cases bytes with
  | nil => exact Ahead.refl _
  | cons b rest =>
    simp only [places]
    split
    · exact (Ahead.step _ _ _).trans (Cursor.runAhead _ _)
    · exact Ahead.refl _

theorem readAhead {position : Nat} {b : UInt8} {rest : Bytes}
    (begins : b = 0x2B ∨ b = 0x2D ∨ b = 0x2E ∨ Bytes.isDigit b = true) :
    Ahead ⟨position + 1, rest⟩ (read ⟨position, b :: rest⟩).2 := by
  change Ahead _ (places ((sign ⟨position, b :: rest⟩).2.run Bytes.isDigit).2).2
  by_cases signed : b = 0x2D ∨ b = 0x2B
  · have behind : (sign ⟨position, b :: rest⟩).2 = ⟨position + 1, rest⟩ := by
      rcases signed with minus | plus
      · simp [sign, minus]
      · simp [sign, plus]
    rw [behind]
    exact (Cursor.runAhead _ _).trans (placesAhead _)
  · obtain ⟨minus, plus⟩ := not_or.mp signed
    have unsigned : (sign ⟨position, b :: rest⟩).2 = ⟨position, b :: rest⟩ := by
      simp only [sign, if_neg minus, if_neg plus]
    rw [unsigned]
    cases digit : Bytes.isDigit b with
    | true =>
      rw [Cursor.runCons digit]
      exact (Cursor.runAhead _ _).trans (placesAhead _)
    | false =>
      have dot : b = 0x2E := by simpa [minus, plus, digit] using begins
      rw [Cursor.runNone digit]
      simp only [places, if_pos dot]
      exact Cursor.runAhead _ _

end Numeral

theorem numberStop (c : Cursor) : (number c).2 = (Numeral.read c).2 := by
  simp only [number]
  split <;> rfl

theorem wordAhead {position : Nat} {b : UInt8} {rest : Bytes} (regular : Bytes.isRegular b = true) :
    Ahead ⟨position + 1, rest⟩ (word ⟨position, b :: rest⟩).2 := by
  simp only [word, Cursor.runCons regular]
  exact Cursor.runAhead _ _

def Took (c inside : Cursor) (scan : Scan Token) : Prop :=
  Ahead inside scan.2 ∨ ∃ text, scan = fail text c

theorem tokenAhead {position : Nat} {b : UInt8} {rest : Bytes} (solid : Bytes.isSpace b = false) :
    Took ⟨position, b :: rest⟩ ⟨position + 1, rest⟩
      (token b ⟨position + 1, rest⟩ ⟨position, b :: rest⟩) := by
  unfold token
  split
  · exact .inl (Cursor.runAhead _ _)
  split
  · exact .inl (nameBodyAhead _ _ _)
  split
  · exact .inl (literalBodyAhead _ _ _)
  split
  · split
    · next more same => exact .inl (Ahead.front same)
    · exact .inl (hexBodyAhead _ _ _ _)
  split
  · split
    · next more same => exact .inl (Ahead.front same)
    · next more same => exact .inl (Ahead.front same)
    · exact .inl (Ahead.refl _)
  split
  · exact .inl (Ahead.refl _)
  split
  · exact .inl (Ahead.refl _)
  split
  · next begins =>
    refine .inl ?_
    rw [numberStop]
    exact Numeral.readAhead (by simpa [or_assoc] using begins)
  split
  · exact .inr ⟨_, rfl⟩
  · next delimiter =>
    exact .inl (wordAhead (by simpa [Bytes.isRegular, solid] using delimiter))

theorem solidBehindSpaces {c : Cursor} {b : UInt8} {rest : Bytes}
    (behind : (c.run Bytes.isSpace).2.rest = b :: rest) : Bytes.isSpace b = false := by
  have nonempty : c.rest.dropWhile Bytes.isSpace ≠ [] := by
    rw [show c.rest.dropWhile Bytes.isSpace = b :: rest from behind]; simp
  have first := List.head_dropWhile_not Bytes.isSpace nonempty
  simpa [show c.rest.dropWhile Bytes.isSpace = b :: rest from behind] using first

theorem nextAhead (c : Cursor) : Ahead c (next c).2 ∧
    ∀ t, (next c).1 = .ok t → t ≠ .done → (next c).2.rest.length < c.rest.length := by
  have spaces := c.runAhead Bytes.isSpace
  simp only [next]
  split
  · exact ⟨spaces, fun t read more => absurd (Except.ok.inj read).symm more⟩
  · next b rest behind =>
    have solid := solidBehindSpaces behind
    generalize (c.run Bytes.isSpace).2 = d at behind spaces
    obtain ⟨position, bytes⟩ := d
    cases behind
    rcases tokenAhead solid with inside | ⟨text, failed⟩
    · refine ⟨spaces.trans ((Ahead.step _ _ _).trans inside), fun _ _ _ => ?_⟩
      exact Nat.lt_of_lt_of_le (Nat.lt_succ_of_le inside.length) spaces.length
    · rw [failed]
      exact ⟨spaces, fun t read _ => nomatch read⟩

def Placed {α : Type} (scan : Scan α) : Prop :=
  ∀ fault, scan.1 = .error fault → ∃ text, fault = .parse scan.2.position text

theorem failPlaced {α : Type} (text : String) (c : Cursor) : Placed (fail (α := α) text c) :=
  fun _ same => ⟨text, (Except.error.inj same).symm⟩

theorem nameBodyPlaced (done : Bytes) (position : Nat) (bytes : Bytes) :
    Placed (nameBody done position bytes) := by
  fun_induction nameBody done position bytes with
  | case1 | case2 => exact nofun
  | case3 done position regular high low more h l hh hl ih => exact ih
  | case4 | case5 => exact failPlaced _ _
  | case6 done position b rest regular plain ih => exact ih

theorem literalBodyPlaced (s : Literal) (position : Nat) (bytes : Bytes) :
    Placed (literalBody s position bytes) := by
  fun_induction literalBody s position bytes with
  | case1 => exact failPlaced _ _
  | case2 => exact nofun
  | case3 s position b rest next opened ih => exact ih

theorem hexBodyPlaced (high : Option Nat) (done : Bytes) (position : Nat) (bytes : Bytes) :
    Placed (hexBody high done position bytes) := by
  induction bytes generalizing high done position with
  | nil => exact failPlaced _ _
  | cons b rest ih =>
    unfold hexBody
    split
    · exact nofun
    split
    · exact ih _ _ _
    split
    · exact failPlaced _ _
    split
    · exact ih _ _ _
    · exact ih _ _ _

theorem numberPlaced (c : Cursor) : Placed (number c) := by
  simp only [number]
  split
  · exact nofun
  · exact failPlaced _ _

theorem tokenPlaced (b : UInt8) (inside c : Cursor) : Placed (token b inside c) := by
  unfold token
  split
  · exact nofun
  split
  · exact nameBodyPlaced _ _ _
  split
  · exact literalBodyPlaced _ _ _
  split
  · split
    · exact nofun
    · exact hexBodyPlaced _ _ _ _
  split
  · split
    · exact nofun
    · exact failPlaced _ _
    · exact failPlaced _ _
  split
  · exact nofun
  split
  · exact nofun
  split
  · exact numberPlaced c
  split
  · exact failPlaced _ _
  · exact nofun

theorem nextPlaced (c : Cursor) : Placed (next c) := by
  simp only [next]
  split
  · exact nofun
  · exact tokenPlaced _ _ _

theorem nextShorter {c stop : Cursor} {t : Token} (read : next c = (.ok t, stop))
    (more : t ≠ .done) : stop.rest.length < c.rest.length := by
  have moved := (nextAhead c).2
  rw [read] at moved
  exact moved t rfl more

theorem throughTokens {holds : Cursor → Prop}
    (fault : ∀ (c stop : Cursor) (fault : Fault), next c = (.error fault, stop) → holds c)
    (done : ∀ (c stop : Cursor), next c = (.ok .done, stop) → holds c)
    (token : ∀ (c stop : Cursor) (t : Token), next c = (.ok t, stop) → t ≠ .done → holds stop →
      holds c)
    (c : Cursor) : holds c := by
  generalize size : c.rest.length = n
  induction n using Nat.strongRecOn generalizing c with
  | ind n ih =>
    cases read : next c with
    | mk result stop =>
      cases result with
      | error f => exact fault c stop f read
      | ok t =>
        by_cases last : t = .done
        · subst last
          exact done c stop read
        · exact token c stop t read last (ih _ (size ▸ nextShorter read last) stop rfl)

end Lexer

namespace Parser

theorem lexemesCount {count other : Nat} {c : Cursor} (enough : c.rest.length < count)
    (too : c.rest.length < other) : lexemesWithin count c = lexemesWithin other c := by
  induction count generalizing other c with
  | zero => omega
  | succ count ih =>
    cases other with
    | zero => omega
    | succ other =>
      unfold lexemesWithin
      split
      · rfl
      · next t stop more read =>
        have shorter := Lexer.nextShorter read more
        have same : lexemesWithin count stop = lexemesWithin other stop := ih (by omega) (by omega)
        rw [same]
      · rfl

theorem lexemesDone {c stop : Cursor} (read : Lexer.next c = (.ok .done, stop)) :
    lexemes c = [⟨.ok .done, stop⟩] := by
  simp only [lexemes, lexemesWithin, read]

theorem lexemesFault {c stop : Cursor} {fault : Fault} (read : Lexer.next c = (.error fault, stop)) :
    lexemes c = [⟨.error fault, stop⟩] := by
  simp only [lexemes, lexemesWithin, read]

theorem lexemesToken {c stop : Cursor} {t : Token} (read : Lexer.next c = (.ok t, stop))
    (more : t ≠ .done) : lexemes c = ⟨.ok t, stop⟩ :: lexemes stop := by
  have same : lexemesWithin c.rest.length stop = lexemes stop :=
    lexemesCount (Lexer.nextShorter read more) (Nat.lt_succ_self _)
  rw [← same]
  simp only [lexemes, lexemesWithin, read]

end Parser
end PdfBody
