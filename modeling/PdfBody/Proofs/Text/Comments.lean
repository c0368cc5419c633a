import PdfBody.Proofs.Text.Tokens

/-! Comments between tokens. Each is passed over like white space, but for those inside a reference: a
number looks for the rest of its reference in the very next tokens. A comment there leaves the word of
the reference alone, which is no value, so the text is refused. -/
namespace PdfBody.Parser

def completes (n : Int64) : List Token → Bool
  | .int g :: .word letter :: _ => (reference? n g letter).isSome
  | _ => false

/-- A comment stands inside a reference: without comments the tokens behind a number complete it, and
as they stand they do not. -/
def splits : List Token → Bool
  | [] => false
  | .int n :: more => completes n (significant more) && !completes n more || splits more
  | _ :: more => splits more

theorem significantKept {t : Token} (kept : t.isComment = false) (ts : List Token) :
    significant (t :: ts) = t :: significant ts :=
  List.filter_cons_of_pos (by rw [kept]; rfl)

theorem splitsTail {t : Token} {more : List Token} (whole : splits (t :: more) = false) :
    splits more = false := by
  cases t with
  | int n =>
    rw [splits, Bool.or_eq_false_iff] at whole
    exact whole.2
  | _ => exact whole

theorem referredSignificant {stack : List Frame} {t : Token} {more : List Token}
    (whole : splits (t :: more) = false) (alone : referred? stack (t :: more) = none) :
    referred? stack (t :: significant more) = none := by
  cases found : referred? stack (t :: significant more) with
  | none => rfl
  | some id =>
    obtain ⟨n, g, letter, rest, rfl, same⟩ := referredMade found
    rw [same, referred?] at found
    split at found
    · next ready =>
      have completed : completes n (significant more) = true := by rw [same, completes, found]; rfl
      rw [splits, completed, Bool.true_and, Bool.or_eq_false_iff, Bool.not_eq_false'] at whole
      obtain ⟨direct, -⟩ := whole
      unfold completes at direct
      split at direct
      · rw [referred?, if_pos ready] at alone
        rw [alone] at direct
        cases direct
      · cases direct
    · cases found

theorem readTokensSignificant {stack : List Frame} {ts : List Token} (whole : splits ts = false) :
    readTokens stack (significant ts) =
      (readTokens stack ts).map fun read => (read.1, significant read.2) := by
  fun_induction readTokens stack ts with
  | case1 stack =>
    rw [significant, List.filter_nil, readTokens]
    rfl
  | case2 stack t more id found outcome delivered =>
    obtain ⟨n, g, letter, rest, rfl, rfl⟩ := referredMade found
    have kept : referred? stack (.int n :: .int g :: .word letter :: significant rest) = some id :=
      found
    refine (readReferred kept).trans ?_
    rw [delivered]
    cases outcome <;> rfl
  | case3 stack t more id found next delivered ih =>
    obtain ⟨n, g, letter, rest, rfl, rfl⟩ := referredMade found
    have kept : referred? stack (.int n :: .int g :: .word letter :: significant rest) = some id :=
      found
    refine (readReferred kept).trans ?_
    rw [delivered]
    exact ih (splitsTail (splitsTail (splitsTail whole)))
  | case4 stack t more alone outcome taken =>
    cases kept : t.isComment with
    | false =>
      rw [significantKept kept, readAlone (referredSignificant whole alone), taken]
      cases outcome <;> rfl
    | true =>
      cases t with
      | comment bytes => cases (takeComment 0 stack bytes).symm.trans taken
      | _ => cases kept
  | case5 stack t more alone next taken ih =>
    cases kept : t.isComment with
    | false =>
      rw [significantKept kept, readAlone (referredSignificant whole alone), taken]
      exact ih (splitsTail whole)
    | true =>
      cases t with
      | comment bytes =>
        cases (takeComment 0 stack bytes).symm.trans taken
        exact ih (splitsTail whole)
      | _ => cases kept

theorem commentsWhole {ts : List Token} (comments : significant ts = []) : splits ts = false := by
  induction ts with
  | nil => rfl
  | cons t ts ih =>
    cases t with
    | comment bytes => exact ih comments
    | _ => cases comments

theorem readComment (stack : List Frame) (bytes : Bytes) (more : List Token) :
    readTokens stack (.comment bytes :: more) = readTokens stack more := by
  rw [readAlone (unreferred (by simp)), takeComment]
  rfl

theorem wordStray {stack : List Frame} {ts rest : List Token} {letter : String}
    (behind : significant ts = .word letter :: rest) : readTokens stack ts = none := by
  induction ts with
  | nil => cases behind
  | cons t ts ih =>
    cases t with
    | comment bytes => exact (readComment stack bytes ts).trans (ih behind)
    | word other =>
      obtain ⟨fault, refused⟩ := takeWord 0 stack other
      rw [readAlone (unreferred (by simp)), refused]
      rfl
    | _ => cases behind

theorem wordBehind {stack : List Frame} {ts rest left : List Token} {g : Int64} {letter : String}
    {v : Value} (behind : significant ts = .int g :: .word letter :: rest)
    (read : readTokens stack ts = some (v, left)) : significant left ≠ [] := by
  induction ts with
  | nil => cases behind
  | cons t ts ih =>
    cases t with
    | comment bytes => exact ih behind ((readComment stack bytes ts).symm.trans read)
    | int m =>
      have word : significant ts = .word letter :: rest := (List.cons.inj behind).2
      have alone : referred? stack (.int m :: ts) = none := by
        cases found : referred? stack (.int m :: ts) with
        | none => rfl
        | some id =>
          obtain ⟨_, _, _, _, _, rfl⟩ := referredMade found
          cases word
      rw [readAlone alone] at read
      cases turn : take 0 stack (.int m) with
      | stop outcome =>
        rw [turn] at read
        obtain ⟨_, -, same⟩ := Option.map_eq_some_iff.mp read
        cases same
        rw [word]
        exact List.cons_ne_nil _ _
      | go next =>
        rw [turn] at read
        cases (wordStray word).symm.trans read
    | _ => cases behind

theorem completesShape {n : Int64} {ts : List Token} (completed : completes n ts = true) :
    ∃ g letter rest, ts = .int g :: .word letter :: rest := by
  unfold completes at completed
  split at completed
  · exact ⟨_, _, _, rfl⟩
  · cases completed

theorem splitsNext {t : Token} {more : List Token} (whole : splits more = false)
    (apart : ∀ n, t = .int n → completes n (significant more) = false) :
    splits (t :: more) = false := by
  cases t with
  | int n => rw [splits, apart n rfl, whole]; rfl
  | _ => exact whole

theorem splitsReferred {stack : List Frame} {t : Token} {more : List Token} {id : ObjId}
    (found : referred? stack (t :: more) = some id) (whole : splits (more.drop 2) = false) :
    splits (t :: more) = false := by
  obtain ⟨n, g, letter, rest, rfl, rfl⟩ := referredMade found
  have direct : completes n (.int g :: .word letter :: rest) = true := by
    rw [referred?] at found
    split at found
    · rw [completes, found]
      rfl
    · cases found
  have behind : splits (.int g :: .word letter :: rest) = false := splitsNext whole fun _ _ => rfl
  rw [splits, direct, behind, Bool.not_true, Bool.and_false]
  rfl

theorem readWhole {stack : List Frame} {ts left : List Token} {v : Value}
    (read : readTokens stack ts = some (v, left)) (comments : significant left = []) :
    splits ts = false := by
  fun_induction readTokens stack ts with
  | case1 stack => rfl
  | case2 stack t more id found outcome delivered =>
    obtain ⟨_, -, same⟩ := Option.map_eq_some_iff.mp read
    cases same
    exact splitsReferred found (commentsWhole comments)
  | case3 stack t more id found next delivered ih => exact splitsReferred found (ih read)
  | case4 stack t more alone outcome taken =>
    obtain ⟨_, -, same⟩ := Option.map_eq_some_iff.mp read
    cases same
    refine splitsNext (commentsWhole comments) fun n _ => ?_
    rw [comments]
    rfl
  | case5 stack t more alone next taken ih =>
    refine splitsNext (ih read) fun n _ => Bool.eq_false_iff.mpr fun completed => ?_
    obtain ⟨g, letter, rest, behind⟩ := completesShape completed
    exact wordBehind behind read comments

theorem parseWhole {text : Bytes} {ts : List Token} (cut : tokens text = .ok ts) (v : Value) :
    parse text = .ok v ↔ splits ts = false ∧ readTokens [] (significant ts) = some (v, []) := by
  rw [parseTokens cut]
  constructor
  · rintro ⟨left, read, comments⟩
    have whole := readWhole read comments
    rw [readTokensSignificant whole, read, Option.map_some, comments]
    exact ⟨whole, rfl⟩
  · rintro ⟨whole, read⟩
    rw [readTokensSignificant whole] at read
    obtain ⟨⟨w, left⟩, spelled, same⟩ := Option.map_eq_some_iff.mp read
    obtain ⟨rfl, comments⟩ := Prod.mk.inj same
    exact ⟨left, spelled, comments⟩

theorem commentsImmaterialUnlessSplitting {a b : Bytes} {ts us : List Token}
    (first : tokens a = .ok ts) (second : tokens b = .ok us)
    (same : significant ts = significant us) :
    (∀ v, parse a = .ok v ↔ parse b = .ok v) ↔
      (∀ v, parse a ≠ .ok v ∧ parse b ≠ .ok v) ∨ splits ts = false ∧ splits us = false := by
  constructor
  · intro agree
    cases read : parse a with
    | error fault =>
      refine .inl fun v => ⟨nofun, fun readToo => ?_⟩
      cases read.symm.trans ((agree v).mpr readToo)
    | ok v =>
      exact .inr ⟨((parseWhole first v).mp read).1,
        ((parseWhole second v).mp ((agree v).mp read)).1⟩
  · rintro (refused | ⟨whole, wholeToo⟩) v
    · exact iff_of_false (refused v).1 (refused v).2
    · rw [parseWhole first, parseWhole second, same, whole, wholeToo]

def plainKids : Bytes := Bytes.ascii "[1 2 0 R 3 0 R]"

def remarkedKids : Bytes := Bytes.ascii "[1% 0 R\n2 0 R 3 0 R]%"

theorem remarkImmaterial :
    tokens plainKids = .ok [.arrOpen, .int 1, .int 2, .int 0, .word "R", .int 3, .int 0, .word "R",
      .arrClose] ∧
    tokens remarkedKids = .ok [.arrOpen, .int 1, .comment (Bytes.ascii " 0 R"), .int 2, .int 0,
      .word "R", .int 3, .int 0, .word "R", .arrClose, .comment []] ∧
    ∀ v, parse plainKids = .ok v ↔ parse remarkedKids = .ok v := by
  have first : tokens plainKids = .ok [.arrOpen, .int 1, .int 2, .int 0, .word "R", .int 3, .int 0,
    .word "R", .arrClose] := rfl
  have second : tokens remarkedKids = .ok [.arrOpen, .int 1, .comment (Bytes.ascii " 0 R"), .int 2,
    .int 0, .word "R", .int 3, .int 0, .word "R", .arrClose, .comment []] := rfl
  refine ⟨first, second, (commentsImmaterialUnlessSplitting first second rfl).mpr (.inr ?_)⟩
  exact ⟨rfl, rfl⟩

theorem splitReferenceRefused :
    ¬ ∀ (a b : Bytes) (ts us : List Token), tokens a = .ok ts → tokens b = .ok us →
      significant ts = significant us → ∀ v, parse a = .ok v ↔ parse b = .ok v := by
  intro always
  have agree := always (Bytes.ascii "[1 0 R]") (Bytes.ascii "[1 %c\n0 R]") _ _ rfl rfl rfl
    (.arr [.ref ⟨1, 0⟩])
  cases agree.mp rfl

end PdfBody.Parser
