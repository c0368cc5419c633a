import PdfBody.Proofs.Text.RoundTrip

/-! The tokens of a text and the value that they spell. What a text is read as depends on its tokens
alone: their places in the text go into messages and nowhere else. -/
namespace PdfBody

def Token.isComment : Token → Bool
  | comment _ => true
  | _ => false

namespace Parser

def tokensOf : List Lexeme → Except Fault (List Token)
  | [] => .ok []
  | ⟨.error fault, _⟩ :: _ => .error fault
  | ⟨.ok .done, _⟩ :: _ => .ok []
  | ⟨.ok t, _⟩ :: more => (tokensOf more).map (t :: ·)

def tokens (text : Bytes) : Except Fault (List Token) := tokensOf (lexemes (.start text))

def significant (ts : List Token) : List Token := ts.filter fun t => !t.isComment

def Lexed (c : Cursor) (ts : List Token) : Prop := tokensOf (lexemes c) = .ok ts

theorem tokensOfToken {t : Token} (more : t ≠ .done) (stop : Cursor) (ls : List Lexeme) :
    tokensOf (⟨.ok t, stop⟩ :: ls) = (tokensOf ls).map (t :: ·) := by
  cases t with
  | done => contradiction
  | _ => rfl

theorem lexedNext {c : Cursor} {ts : List Token} (lexed : Lexed c ts) :
    (ts = [] ∧ ∃ stop, Lexer.next c = (.ok .done, stop)) ∨
      ∃ t more stop, ts = t :: more ∧ t ≠ .done ∧ Lexer.next c = (.ok t, stop) ∧
        Lexed stop more := by
  unfold Lexed at lexed
  cases read : Lexer.next c with
  | mk result stop =>
    cases result with
    | error fault =>
      rw [lexemesFault read] at lexed
      cases lexed
    | ok t =>
      by_cases last : t = .done
      · subst last
        rw [lexemesDone read] at lexed
        cases lexed
        exact .inl ⟨rfl, stop, rfl⟩
      · rw [lexemesToken read last, tokensOfToken last] at lexed
        cases behind : tokensOf (lexemes stop) with
        | error fault =>
          rw [behind] at lexed
          cases lexed
        | ok more =>
          rw [behind] at lexed
          cases lexed
          exact .inr ⟨t, more, stop, rfl, last, rfl, behind⟩

theorem lexedEnd {c : Cursor} (lexed : Lexed c []) : ∃ stop, Lexer.next c = (.ok .done, stop) := by
  rcases lexedNext lexed with ⟨-, ended⟩ | ⟨t, more, stop, some, -⟩
  · exact ended
  · cases some

theorem lexedToken {c : Cursor} {t : Token} {more : List Token} (lexed : Lexed c (t :: more)) :
    t ≠ .done ∧ ∃ stop, Lexer.next c = (.ok t, stop) ∧ Lexed stop more := by
  rcases lexedNext lexed with ⟨none, -⟩ | ⟨_, _, stop, same, last, read, behind⟩
  · cases none
  · cases same
    exact ⟨last, stop, read, behind⟩

def referred? (stack : List Frame) : List Token → Option ObjId
  | .int n :: .int g :: .word letter :: _ =>
    if awaitsValue stack then reference? n g letter else none
  | _ => none

def readTokens (stack : List Frame) : List Token → Option (Value × List Token)
  | [] => none
  | t :: more =>
    match referred? stack (t :: more) with
    | some id =>
      match deliver (.ref id) stack with
      | .stop outcome => outcome.toOption.map fun v => (v, more.drop 2)
      | .go next => readTokens next (more.drop 2)
    | none =>
      match take 0 stack t with
      | .stop outcome => outcome.toOption.map fun v => (v, more)
      | .go next => readTokens next more
termination_by ts => ts.length
decreasing_by
  · simp only [List.length_drop, List.length_cons]; omega
  · simp

def followTokens (left : List Token) : Turn → Option (Value × List Token)
  | .stop outcome => outcome.toOption.map fun v => (v, left)
  | .go stack => readTokens stack left

section

variable {stack : List Frame} {t : Token} {more : List Token}

theorem readReferred {id : ObjId} (found : referred? stack (t :: more) = some id) :
    readTokens stack (t :: more) = followTokens (more.drop 2) (deliver (.ref id) stack) := by
  rw [readTokens, found]
  rfl

theorem readAlone (alone : referred? stack (t :: more) = none) :
    readTokens stack (t :: more) = followTokens more (take 0 stack t) := by
  rw [readTokens, alone]
  rfl

theorem referredMade {id : ObjId} (found : referred? stack (t :: more) = some id) :
    ∃ n g letter rest, t = .int n ∧ more = .int g :: .word letter :: rest := by
  unfold referred? at found
  split at found
  · next n g letter rest same =>
    cases same
    exact ⟨n, g, letter, rest, rfl, rfl⟩
  · cases found

theorem unreferred (other : ∀ n, t ≠ .int n) : referred? stack (t :: more) = none := by
  cases found : referred? stack (t :: more) with
  | none => rfl
  | some id =>
    obtain ⟨n, _, _, _, same, _⟩ := referredMade found
    exact absurd same (other n)

end

inductive Turn.Like : Turn → Turn → Prop where
  | same (turn : Turn) : Like turn turn
  | refused (first second : Fault) : Like (.stop (.error first)) (.stop (.error second))

theorem enterAnywhere (p q : Nat) (stack : List Frame) (frame : Frame) :
    (enter p stack frame).Like (enter q stack frame) := by
  unfold enter
  split
  · exact .refused _ _
  · exact .same _

theorem beginAnywhere (p q : Nat) (stack : List Frame) (t : Token) :
    (beginValue p stack t).Like (beginValue q stack t) := by
  cases t with
  | arrOpen | dictOpen => exact enterAnywhere p q stack _
  | arrClose | dictClose | word | comment | done => exact .refused _ _
  | _ => exact .same _

theorem takeAnywhere (p q : Nat) (stack : List Frame) (t : Token) :
    (take p stack t).Like (take q stack t) := by
  unfold take
  split
  · exact .same _
  · exact .same _
  · exact .refused _ _
  · exact .same _
  · exact .same _
  · exact .refused _ _
  · exact .refused _ _
  · exact beginAnywhere p q stack _

theorem takeComment (position : Nat) (stack : List Frame) (bytes : Bytes) :
    take position stack (.comment bytes) = .go stack := by
  cases stack with
  | nil => rfl
  | cons frame outer => cases frame <;> rfl

theorem takeWord (position : Nat) (stack : List Frame) (letter : String) :
    ∃ fault, take position stack (.word letter) = .stop (.error fault) := by
  cases stack with
  | nil => exact ⟨_, rfl⟩
  | cons frame outer => cases frame <;> exact ⟨_, rfl⟩

inductive Agrees : Scan Value → Option (Value × List Token) → Prop where
  | read {v : Value} {stop : Cursor} {left : List Token} (lexed : Lexed stop left) :
      Agrees (.ok v, stop) (some (v, left))
  | refused (fault : Fault) (stop : Cursor) : Agrees (.error fault, stop) none

theorem resumeDone {c stop : Cursor} (ended : Lexer.next c = (.ok .done, stop))
    (stack : List Frame) : ∃ fault, resume stack c = (.error fault, stop) := by
  obtain ⟨fault, refused⟩ := takeDone stop.position stack
  exact ⟨fault, by rw [resumeEnded ended, refused, follow]⟩

theorem resumeReferred {c : Cursor} {stack : List Frame} {t : Token} {more : List Token} {id : ObjId}
    (lexed : Lexed c (t :: more)) (found : referred? stack (t :: more) = some id) :
    ∃ stop, resume stack c = follow stop (deliver (.ref id) stack) ∧ Lexed stop (more.drop 2) := by
  unfold referred? at found
  split at found
  · next n g letter rest same =>
    cases same
    obtain ⟨-, first, number, lexed⟩ := lexedToken lexed
    obtain ⟨-, middle, generation, lexed⟩ := lexedToken lexed
    obtain ⟨-, behind, word, lexed⟩ := lexedToken lexed
    split at found
    · next ready => exact ⟨behind, resumeReference number generation word found ready, lexed⟩
    · cases found
  · cases found

theorem lexedRead {c stop : Cursor} {t : Token} {ts : List Token} (lexed : Lexed c ts)
    (read : Lexer.next c = (.ok t, stop)) (last : t ≠ .done) :
    ∃ more, ts = t :: more ∧ Lexed stop more := by
  rcases lexedNext lexed with ⟨-, ended, done⟩ | ⟨_, more, _, same, -, next, behind⟩
  · rw [read] at done
    cases done
    contradiction
  · rw [read] at next
    cases next
    exact ⟨more, same, behind⟩

theorem resumeAlone {c : Cursor} {stack : List Frame} {t : Token} {more : List Token}
    (lexed : Lexed c (t :: more)) (none : referred? stack (t :: more) = none) :
    ∃ stop, resume stack c = follow stop (take stop.position stack t) ∧ Lexed stop more := by
  obtain ⟨last, stop, read, behind⟩ := lexedToken lexed
  refine ⟨stop, resumeUnreferred read last fun ready n same => ?_, behind⟩
  subst same
  unfold referenceBehind
  split
  · next g middle number =>
    split
    · next letter beyond word =>
      obtain ⟨tail, rfl, further⟩ := lexedRead behind number (by simp)
      obtain ⟨rest, rfl, -⟩ := lexedRead further word (by simp)
      simp only [referred?, ready, if_true] at none
      rw [none]
      rfl
    · rfl
  · rfl

theorem resumeLike {c : Cursor} {stack : List Frame} {t : Token} {more : List Token}
    (lexed : Lexed c (t :: more)) (alone : referred? stack (t :: more) = none) :
    ∃ stop turn, resume stack c = follow stop turn ∧ turn.Like (take 0 stack t) ∧
      Lexed stop more := by
  obtain ⟨stop, read, behind⟩ := resumeAlone lexed alone
  exact ⟨stop, _, read, takeAnywhere stop.position 0 stack t, behind⟩

theorem resumeAgrees {stack : List Frame} {ts : List Token} {c : Cursor} (lexed : Lexed c ts) :
    Agrees (resume stack c) (readTokens stack ts) := by
  fun_induction readTokens stack ts generalizing c with
  | case1 stack =>
    obtain ⟨stop, ended⟩ := lexedEnd lexed
    obtain ⟨fault, refused⟩ := resumeDone ended stack
    rw [refused]
    exact .refused fault stop
  | case2 stack t more id found outcome delivered =>
    obtain ⟨stop, read, behind⟩ := resumeReferred lexed found
    rw [read, delivered]
    cases outcome with
    | error fault => exact .refused fault stop
    | ok v => exact .read behind
  | case3 stack t more id found next delivered ih =>
    obtain ⟨stop, read, behind⟩ := resumeReferred lexed found
    rw [read, delivered]
    exact ih behind
  | case4 stack t more alone outcome taken =>
    obtain ⟨stop, turn, read, like, behind⟩ := resumeLike lexed alone
    rw [taken] at like
    rw [read]
    cases like with
    | same =>
      cases outcome with
      | error fault => exact .refused fault stop
      | ok v => exact .read behind
    | refused first second => exact .refused first stop
  | case5 stack t more alone next taken ih =>
    obtain ⟨stop, turn, read, like, behind⟩ := resumeLike lexed alone
    rw [taken] at like
    rw [read]
    cases like with
    | same => exact ih behind

theorem skipLexed {c : Cursor} {ts : List Token} (lexed : Lexed c ts) (last : Cursor) :
    (∃ stop, nextToken.skip last (lexemes c) = (.ok .done, stop)) ↔ significant ts = [] := by
  induction ts generalizing c last with
  | nil =>
    obtain ⟨stop, ended⟩ := lexedEnd lexed
    rw [lexemesDone ended]
    exact ⟨fun _ => rfl, fun _ => ⟨stop, rfl⟩⟩
  | cons t ts ih =>
    obtain ⟨more, stop, read, behind⟩ := lexedToken lexed
    rw [lexemesToken read more]
    cases t with
    | comment bytes => exact ih behind stop
    | done => contradiction
    | _ => exact ⟨nofun, nofun⟩

theorem parseTokens {text : Bytes} {ts : List Token} (cut : tokens text = .ok ts) (v : Value) :
    parse text = .ok v ↔ ∃ left, readTokens [] ts = some (v, left) ∧ significant left = [] := by
  have lexed : Lexed (.start text) ts := cut
  have agrees : Agrees (resume [] (.start text)) (readTokens [] ts) := resumeAgrees lexed
  have first : next (.start text) = resume [] (.start text) := rfl
  rw [parse, first]
  generalize resume [] (.start text) = outcome at agrees ⊢
  generalize readTokens [] ts = spelled at agrees ⊢
  cases agrees with
  | refused fault stop =>
    constructor
    · rintro ⟨⟩
    · rintro ⟨_, ⟨⟩, _⟩
  | @read w stop left lexed =>
    have skipped := skipLexed lexed stop
    have same : nextToken stop = nextToken.skip stop (lexemes stop) := rfl
    dsimp only
    rw [same]
    constructor
    · intro parsed
      split at parsed
      · next ended found =>
        cases parsed
        exact ⟨left, rfl, skipped.mp ⟨ended, found⟩⟩
      · cases parsed
      · cases parsed
    · rintro ⟨_, read, comments⟩
      cases read
      obtain ⟨ended, found⟩ := skipped.mpr comments
      rw [found]

end Parser
end PdfBody
