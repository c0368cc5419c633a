import PdfBody.Proofs.Text.Tokens

/-! Texts side by side. A token that ends where its text ends may go on with what is put behind the
text; where it does not, the two texts together have the tokens of the one and then of the other. -/
namespace PdfBody

namespace Lexer

def goesOn : Token → UInt8 → Bool
  | .int _, b => Bytes.isDigit b || b == 0x2E
  | .real _, b => Bytes.isDigit b
  | .bool _, b | .null, b | .name _, b | .word _, b => Bytes.isRegular b
  | .comment _, b => b != 0x0A && b != 0x0D
  | _, _ => false

theorem goesOnRegular {t : Token} (plain : t.isComment = false) {b : UInt8}
    (goes : goesOn t b = true) : Bytes.isRegular b = true := by
  have dot : Bytes.isRegular 0x2E = true := by decide
  cases t with
  | int n =>
    rcases Bool.or_eq_true_iff.mp goes with digit | same
    · exact (Bytes.digitRegular digit).1
    · rwa [beq_iff_eq.mp same]
  | real x => exact (Bytes.digitRegular goes).1
  | bool | null | name | word => exact goes
  | comment => cases plain
  | str | hexStr | arrOpen | arrClose | dictOpen | dictClose | done => cases goes

def Lasts (rest : Bytes) (short long : Scan Token) : Prop :=
  ∀ t, short.1 = .ok t → (t ≠ .done ∧ t.isComment = false) ∧
    ((short.2.rest = [] → Stops (goesOn t) rest) →
      ∃ behind, long = (.ok t, ⟨behind, short.2.rest ++ rest⟩))

theorem closedLasts {t : Token} {bytes rest : Bytes} {p q : Nat}
    (token : t ≠ .done ∧ t.isComment = false) :
    Lasts rest (.ok t, ⟨p, bytes⟩) (.ok t, ⟨q, bytes ++ rest⟩) := by
  rintro t ⟨⟩
  exact ⟨token, fun _ => ⟨q, rfl⟩⟩

theorem refusedLasts {fault : Fault} {c : Cursor} {rest : Bytes} {long : Scan Token} :
    Lasts rest (.error fault, c) long := by
  rintro t ⟨⟩

theorem runLasts {class? : UInt8 → Bool} (c : Cursor) {rest : Bytes}
    (stops : (c.run class?).2.rest = [] → Stops class? rest) (q : Nat) :
    (Cursor.mk q (c.rest ++ rest)).run class? =
      ((c.run class?).1, ⟨q + (c.run class?).1.length, (c.run class?).2.rest ++ rest⟩) := by
  have whole : c.rest.takeWhile class? ++ c.rest.dropWhile class? = c.rest :=
    List.takeWhile_append_dropWhile
  have behind : Stops class? (c.rest.dropWhile class? ++ rest) := by
    cases left : c.rest.dropWhile class? with
    | nil => exact stops left
    | cons b more =>
      have outside := List.head?_dropWhile_not class? c.rest
      rw [left] at outside
      exact outside
  have taken : ∀ b ∈ c.rest.takeWhile class?, class? b = true :=
    List.all_eq_true.mp List.all_takeWhile
  have run := Cursor.runStops taken behind q
  rwa [← List.append_assoc, whole] at run

theorem nameBodyLasts (done : Bytes) (p q : Nat) (bytes rest : Bytes) :
    Lasts rest (nameBody done p bytes) (nameBody done q (bytes ++ rest)) := by
  fun_induction nameBody done p bytes generalizing q with
  | case1 done p =>
    rintro t ⟨⟩
    refine ⟨⟨by simp, rfl⟩, fun stops => ⟨q, ?_⟩⟩
    cases rest with
    | nil => rfl
    | cons b rest =>
      have outside : Bytes.isRegular b = false := stops rfl
      rw [List.nil_append, nameBodyStop outside]
  | case2 done p b bytes outside =>
    rw [List.cons_append, nameBodyStop (by simpa using outside)]
    exact closedLasts ⟨by simp, rfl⟩
  | case3 done p high low more h l second first regular ih =>
    rw [List.cons_append, List.cons_append, List.cons_append, nameBodyPair first second]
    exact ih _
  | case4 | case5 => exact refusedLasts
  | case6 done p b bytes regular plain ih =>
    rw [List.cons_append, nameBodyPlain (by simpa using regular) plain]
    exact ih _

theorem literalBodyLasts (s : Literal) (p q : Nat) (bytes rest : Bytes) :
    Lasts rest (literalBody s p bytes) (literalBody s q (bytes ++ rest)) := by
  induction bytes generalizing s p q with
  | nil => exact refusedLasts
  | cons b bytes ih =>
    simp only [List.cons_append, literalBody]
    split
    · exact closedLasts ⟨by simp, rfl⟩
    · exact ih _ _ _

theorem hexBodyLasts (high : Option Nat) (done : Bytes) (p q : Nat) (bytes rest : Bytes) :
    Lasts rest (hexBody high done p bytes) (hexBody high done q (bytes ++ rest)) := by
  induction bytes generalizing high done p q with
  | nil => exact refusedLasts
  | cons b bytes ih =>
    rw [List.cons_append, hexBody, hexBody]
    split
    · exact closedLasts ⟨by simp, rfl⟩
    split
    · exact ih _ _ _ _
    split
    · exact refusedLasts
    split
    · exact ih _ _ _ _
    · exact ih _ _ _ _

namespace Numeral

def goesOn (n : Numeral) (b : UInt8) : Bool :=
  Bytes.isDigit b || n.fraction.isNone && b == 0x2E

theorem stopsDigits {n : Numeral} {rest : Bytes} (stops : Stops n.goesOn rest) :
    Stops Bytes.isDigit rest :=
  stops.of fun b digit => by rw [goesOn, digit]; rfl

theorem tokenGoesOn {n : Numeral} {t : Token} (made : n.token = .ok t) :
    (t ≠ .done ∧ t.isComment = false) ∧ Lexer.goesOn t = n.goesOn := by
  unfold token at made
  split at made
  · next whole =>
    dsimp only at made
    split at made
    · cases made
    · cases made
      refine ⟨⟨by simp, rfl⟩, funext fun b => ?_⟩
      rw [goesOn, whole]
      rfl
  · next places fraction =>
    split at made
    · cases made
    · cases made
      refine ⟨⟨by simp, rfl⟩, funext fun b => ?_⟩
      rw [goesOn, fraction]
      exact (Bool.or_false _).symm

theorem placesEnded {c : Cursor} (ended : c.rest = []) : (places c).2.rest = [] := by
  rw [places, ended]
  exact ended

theorem placesLasts (c : Cursor) {rest : Bytes} (q : Nat)
    (stops : (places c).2.rest = [] →
      Stops (fun b => Bytes.isDigit b || (places c).1.isNone && b == 0x2E) rest) :
    ∃ stop, places ⟨q, c.rest ++ rest⟩ = ((places c).1, ⟨stop, (places c).2.rest ++ rest⟩) := by
  obtain ⟨p, bytes⟩ := c
  cases bytes with
  | nil =>
    cases rest with
    | nil => exact ⟨q, rfl⟩
    | cons b rest =>
      have outside : (Bytes.isDigit b || b == 0x2E) = false := stops rfl
      have dot : b ≠ 0x2E := by
        rintro rfl
        cases outside
      exact ⟨q, by simp [places, dot]⟩
  | cons b bytes =>
    by_cases dot : b = 0x2E
    · simp only [places, if_pos dot, List.cons_append] at stops ⊢
      refine ⟨_, congrArg (fun run => (some run.1, run.2))
        (runLasts ⟨p + 1, bytes⟩ (fun ended => (stops ended).of fun b digit => ?_) (q + 1))⟩
      rw [digit]
      rfl
    · exact ⟨q, by simp [places, dot]⟩

theorem readLasts (c : Cursor) (some : c.rest ≠ []) {rest : Bytes} (q : Nat)
    (stops : (read c).2.rest = [] → Stops (read c).1.goesOn rest) :
    ∃ stop, read ⟨q, c.rest ++ rest⟩ = ((read c).1, ⟨stop, (read c).2.rest ++ rest⟩) := by
  have signed : ∃ p, sign ⟨q, c.rest ++ rest⟩ = ((sign c).1, ⟨p, (sign c).2.rest ++ rest⟩) := by
    obtain ⟨place, bytes⟩ := c
    cases bytes with
    | nil => contradiction
    | cons b bytes =>
      simp only [sign, List.cons_append]
      split
      · exact ⟨_, rfl⟩
      split
      · exact ⟨_, rfl⟩
      · exact ⟨_, rfl⟩
  obtain ⟨p, signed⟩ := signed
  have digits := runLasts (sign c).2 (fun ended => stopsDigits (stops (placesEnded ended))) p
  obtain ⟨stop, last⟩ := placesLasts ((sign c).2.run Bytes.isDigit).2
    (p + ((sign c).2.run Bytes.isDigit).1.length) stops
  refine ⟨stop, ?_⟩
  simp only [read, signed, digits, last]

end Numeral

theorem numberLasts (c : Cursor) (some : c.rest ≠ []) (q : Nat) (rest : Bytes) :
    Lasts rest (number c) (number ⟨q, c.rest ++ rest⟩) := by
  intro t read
  have made : (Numeral.read c).1.token = .ok t := by
    simp only [number] at read
    split at read
    · next made =>
      cases read
      exact made
    · cases read
  obtain ⟨token, class?⟩ := Numeral.tokenGoesOn made
  refine ⟨token, fun stops => ?_⟩
  rw [numberStop, class?] at stops
  obtain ⟨stop, same⟩ := Numeral.readLasts c some q stops
  refine ⟨stop, ?_⟩
  rw [numberStop]
  simp only [number, same, made]

theorem wordLasts (c : Cursor) (q : Nat) (rest : Bytes) :
    Lasts rest (word c) (word ⟨q, c.rest ++ rest⟩) := by
  intro t read
  have regular : (t ≠ .done ∧ t.isComment = false) ∧ goesOn t = Bytes.isRegular := by
    simp only [word, Except.ok.injEq] at read
    subst read
    split
    · exact ⟨⟨by simp, rfl⟩, rfl⟩
    split
    · exact ⟨⟨by simp, rfl⟩, rfl⟩
    split
    · exact ⟨⟨by simp, rfl⟩, rfl⟩
    · exact ⟨⟨by simp, rfl⟩, rfl⟩
  refine ⟨regular.1, fun stops => ?_⟩
  rw [regular.2] at stops
  have run := runLasts c stops q
  simp only [word, run] at read ⊢
  exact ⟨_, congrArg (·, _) read⟩

theorem tokenLasts {b : UInt8} (plain : b ≠ 0x25) (bytes rest : Bytes) (p q : Nat) :
    Lasts rest (token b ⟨p + 1, bytes⟩ ⟨p, b :: bytes⟩)
      (token b ⟨q + 1, bytes ++ rest⟩ ⟨q, b :: (bytes ++ rest)⟩) := by
  simp only [token, if_neg plain]
  split
  · exact nameBodyLasts _ _ _ _ _
  split
  · exact literalBodyLasts _ _ _ _ _
  split
  · cases bytes with
    | nil => exact refusedLasts
    | cons c more =>
      rw [List.cons_append]
      split
      · next same =>
        cases same
        exact closedLasts ⟨by simp, rfl⟩
      · next other =>
        split
        · next same =>
          cases same
          exact absurd rfl (other more)
        · exact hexBodyLasts _ _ _ _ (c :: more) _
  split
  · cases bytes with
    | nil => exact refusedLasts
    | cons c more =>
      rw [List.cons_append]
      split
      · next same =>
        cases same
        exact closedLasts ⟨by simp, rfl⟩
      · exact refusedLasts
      · exact refusedLasts
  split
  · exact closedLasts ⟨by simp, rfl⟩
  split
  · exact closedLasts ⟨by simp, rfl⟩
  split
  · exact numberLasts _ (List.cons_ne_nil _ _) _ _
  split
  · exact refusedLasts
  · exact wordLasts _ _ _

theorem commentLasts (c : Cursor) (q : Nat) {rest : Bytes} {t : Token}
    (read : (comment c).1 = .ok t) (stops : (comment c).2.rest = [] → Stops (goesOn t) rest) :
    ∃ behind, comment ⟨q, c.rest ++ rest⟩ = (.ok t, ⟨behind, (comment c).2.rest ++ rest⟩) := by
  cases read
  have run := runLasts c stops q
  simp only [comment, run]
  exact ⟨_, rfl⟩

theorem blankOrSolid (bytes : Bytes) : Blank bytes ∨ ∃ blank b inside,
    Blank blank ∧ Bytes.isSpace b = false ∧ bytes = blank ++ b :: inside := by
  have spaces : Blank (bytes.takeWhile Bytes.isSpace) := List.all_eq_true.mp List.all_takeWhile
  have whole : bytes.takeWhile Bytes.isSpace ++ bytes.dropWhile Bytes.isSpace = bytes :=
    List.takeWhile_append_dropWhile
  cases solid : bytes.dropWhile Bytes.isSpace with
  | nil =>
    rw [solid, List.append_nil] at whole
    exact .inl (whole ▸ spaces)
  | cons b inside =>
    have outside := List.head?_dropWhile_not Bytes.isSpace bytes
    rw [solid] at outside whole
    exact .inr ⟨_, b, inside, spaces, outside, whole.symm⟩

theorem nextBlankEnd {blank : Bytes} (spaces : Blank blank) (position : Nat) :
    next ⟨position, blank⟩ = (.ok .done, ⟨position + blank.length, []⟩) := by
  have ended := nextBlank spaces position []
  rwa [List.append_nil, nextEnd] at ended

theorem nextLasts (c : Cursor) (q : Nat) (rest : Bytes) {t : Token} {stop : Cursor}
    (read : next c = (.ok t, stop)) :
    t = .done ∧ Blank c.rest ∨
      (t ≠ .done ∧ (t.isComment = true → 0x25 ∈ c.rest)) ∧
        ((stop.rest = [] → Stops (goesOn t) rest) →
          ∃ behind, next ⟨q, c.rest ++ rest⟩ = (.ok t, ⟨behind, stop.rest ++ rest⟩)) := by
  obtain ⟨p, bytes⟩ := c
  rcases blankOrSolid bytes with blank | ⟨blank, b, inside, spaces, outside, rfl⟩
  · rw [nextBlankEnd blank] at read
    cases read
    exact .inl ⟨rfl, blank⟩
  · rw [nextBlank spaces, nextSolid outside] at read
    rw [List.append_assoc, nextBlank spaces, List.cons_append, nextSolid outside]
    refine .inr ?_
    by_cases sign : b = 0x25
    · subst sign
      have comment : (comment ⟨p + blank.length + 1, inside⟩).1 = .ok t := congrArg Prod.fst read
      refine ⟨⟨?_, fun _ => by simp⟩, fun stops => ?_⟩
      · cases comment
        simp
      · obtain rfl : (Lexer.comment ⟨p + blank.length + 1, inside⟩).2 = stop :=
          congrArg Prod.snd read
        exact commentLasts _ (q + blank.length + 1) comment stops
    · have lasts := tokenLasts sign inside rest (p + blank.length) (q + blank.length)
      rw [read] at lasts
      obtain ⟨⟨token, plain⟩, lasting⟩ := lasts t rfl
      exact ⟨⟨token, fun commented => absurd (plain.symm.trans commented) Bool.false_ne_true⟩,
        lasting⟩

end Lexer

namespace Parser
open Lexer (goesOn Blank)

def lastToken : List Lexeme → Option Token
  | [] => none
  | ⟨.ok .done, _⟩ :: _ | ⟨.error _, _⟩ :: _ => none
  | ⟨.ok t, stop⟩ :: more => if stop.rest = [] then some t else lastToken more

def joins (text behind : Bytes) : Bool :=
  (lastToken (lexemes (.start text))).any fun t => behind.head?.any (goesOn t)

theorem lexedSame {c d : Cursor} {ts : List Token} (same : Lexer.next c = Lexer.next d)
    (lexed : Lexed c ts) : Lexed d ts := by
  rcases lexedNext lexed with ⟨rfl, stop, ended⟩ | ⟨t, more, stop, rfl, last, read, behind⟩
  · rw [Lexed, lexemesDone (same.symm.trans ended)]
    rfl
  · rw [Lexed, lexemesToken (same.symm.trans read) last, tokensOfToken last, behind]
    rfl

theorem lexedCons {c stop : Cursor} {t : Token} {ts : List Token}
    (read : Lexer.next c = (.ok t, stop)) (more : t ≠ .done) (behind : Lexed stop ts) :
    Lexed c (t :: ts) := by
  rw [Lexed, lexemesToken read more, tokensOfToken more, behind]
  rfl

theorem spelledLexed {c stop : Cursor} {ts : List Token} (spelled : Spelled c ts stop)
    (ended : stop.rest = []) : Lexed c ts := by
  induction spelled with
  | nil c =>
    obtain ⟨position, bytes⟩ := c
    cases ended
    rfl
  | cons read more _ ih => exact lexedCons read more (ih ended)

theorem lastTokenCons {c stop : Cursor} {t : Token} (read : Lexer.next c = (.ok t, stop))
    (more : t ≠ .done) :
    lastToken (lexemes c) = if stop.rest = [] then some t else lastToken (lexemes stop) := by
  rw [lexemesToken read more]
  cases t with
  | done => contradiction
  | _ => rfl

theorem lastTokenEnded {c : Cursor} (ended : c.rest = []) : lastToken (lexemes c) = none := by
  obtain ⟨position, bytes⟩ := c
  cases ended
  rw [lexemesDone (Lexer.nextEnd position)]
  rfl

theorem lexedAppend {c : Cursor} {ts us : List Token} {rest : Bytes} (lexed : Lexed c ts)
    (apart : ∀ t, lastToken (lexemes c) = some t → Stops (goesOn t) rest)
    (behind : ∀ q, Lexed ⟨q, rest⟩ us) (q : Nat) : Lexed ⟨q, c.rest ++ rest⟩ (ts ++ us) := by
  -- on the tokens in front: of them only one that ends where its text ends can go on
  induction ts generalizing c q with
  | nil =>
    obtain ⟨stop, ended⟩ := lexedEnd lexed
    rcases Lexer.nextLasts c q rest ended with ⟨-, blank⟩ | ⟨⟨more, -⟩, -⟩
    · exact lexedSame (Lexer.nextBlank blank q rest).symm (behind _)
    · contradiction
  | cons t ts ih =>
    obtain ⟨more, stop, read, tail⟩ := lexedToken lexed
    have last := lastTokenCons read more
    rcases Lexer.nextLasts c q rest read with ⟨ended, -⟩ | ⟨-, lasts⟩
    · contradiction
    · obtain ⟨place, same⟩ := lasts fun ended => apart t (by rw [last, if_pos ended])
      refine lexedCons same more (ih tail (fun u found => apart u ?_) place)
      rw [last]
      split
      · next ended =>
        rw [lastTokenEnded ended] at found
        cases found
      · exact found

theorem lexedAnywhere {c : Cursor} {ts : List Token} (lexed : Lexed c ts) (q : Nat) :
    Lexed ⟨q, c.rest⟩ ts := by
  have moved := lexedAppend lexed (fun t _ => stopsEnd (goesOn t))
    (fun q => (rfl : Lexed ⟨q, []⟩ [])) q
  rwa [List.append_nil, List.append_nil] at moved

theorem lexedPlain {c : Cursor} {ts : List Token} (lexed : Lexed c ts) (clean : 0x25 ∉ c.rest) :
    ∀ t ∈ ts, t.isComment = false := by
  induction ts generalizing c with
  | nil => exact fun _ found => absurd found List.not_mem_nil
  | cons t ts ih =>
    obtain ⟨more, stop, read, tail⟩ := lexedToken lexed
    rcases Lexer.nextLasts c 0 [] read with ⟨ended, -⟩ | ⟨⟨-, commented⟩, -⟩
    · contradiction
    · have ahead := (Lexer.nextAhead c).1
      rw [read] at ahead
      exact List.forall_mem_cons.mpr ⟨Bool.eq_false_iff.mpr (mt commented clean),
        ih tail fun found => clean (ahead.suffix.subset found)⟩

theorem lastTokenAmong {c : Cursor} {ts : List Token} (lexed : Lexed c ts) {t : Token}
    (last : lastToken (lexemes c) = some t) : t ∈ ts := by
  induction ts generalizing c with
  | nil =>
    obtain ⟨stop, ended⟩ := lexedEnd lexed
    rw [lexemesDone ended] at last
    cases last
  | cons u ts ih =>
    obtain ⟨more, stop, read, tail⟩ := lexedToken lexed
    rw [lastTokenCons read more] at last
    split at last
    · cases last
      exact List.mem_cons_self
    · exact List.mem_cons_of_mem u (ih tail last)

section

variable {text behind : Bytes} {ts us : List Token}

theorem tokensAppend (first : tokens text = .ok ts) (second : tokens behind = .ok us)
    (apart : joins text behind = false) : tokens (text ++ behind) = .ok (ts ++ us) := by
  refine lexedAppend (c := .start text) first (fun t last => ?_) (lexedAnywhere second) 0
  rw [joins, last] at apart
  cases behind with
  | nil => trivial
  | cons b behind => exact apart

theorem tokensBlank {blank : Bytes} (spaces : Blank blank) (lexed : tokens text = .ok ts) :
    tokens (blank ++ text) = .ok ts :=
  lexedSame (Lexer.nextBlank spaces 0 text).symm (lexedAnywhere lexed _)

theorem joinsFront (some : behind ≠ []) (rest : Bytes) :
    joins text (behind ++ rest) = joins text behind := by
  cases behind with
  | nil => contradiction
  | cons b behind => rfl

theorem joinsStopped (lexed : tokens text = .ok ts) (plain : ∀ t ∈ ts, t.isComment = false)
    (stops : Stops Bytes.isRegular behind) : joins text behind = false := by
  rw [joins]
  cases last : lastToken (lexemes (.start text)) with
  | none => rfl
  | some t =>
    cases behind with
    | nil => rfl
    | cons b behind =>
      have outside : Bytes.isRegular b = false := stops
      refine Bool.eq_false_iff.mpr fun goes => ?_
      rw [Lexer.goesOnRegular (plain t (lastTokenAmong lexed last)) goes] at outside
      cases outside

structure Divided (text : Bytes) (ts : List Token) : Prop where
  some : text ≠ []
  lexed : tokens text = .ok ts
  plain : ∀ t ∈ ts, t.isComment = false

namespace Divided

theorem append (first : Divided text ts) (second : Divided behind us)
    (apart : joins text behind = false) : Divided (text ++ behind) (ts ++ us) :=
  ⟨List.append_ne_nil_of_left_ne_nil first.some behind,
    tokensAppend first.lexed second.lexed apart,
    List.forall_mem_append.mpr ⟨first.plain, second.plain⟩⟩

theorem blank {blank : Bytes} (spaces : Blank blank) (divided : Divided text ts) :
    Divided (blank ++ text) ts :=
  ⟨List.append_ne_nil_of_right_ne_nil blank divided.some, tokensBlank spaces divided.lexed,
    divided.plain⟩

theorem stopped (divided : Divided text ts) (stops : Stops Bytes.isRegular behind) :
    joins text behind = false := joinsStopped divided.lexed divided.plain stops

end Divided

end

end Parser
end PdfBody
