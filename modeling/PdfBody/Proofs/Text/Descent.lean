import PdfBody.Proofs.Text.Tokens
import PdfBody.Proofs.Text.Lexing

/-! Reading by descent. A reader that calls itself for what a container holds has the containers it
stands in counted, and gives each of them back on the way out, be it with a value or with a fault. It
reads what the reader with a stack reads, so between two calls only the place in the text has moved. -/
namespace PdfBody.Parser
open Lexer (Placed)
open Cursor (Ahead)

structure Reader where
  cursor : Cursor
  depth : Nat

abbrev Outcome := Except Fault Value × Reader

def Outcome.andThen (outcome : Outcome) (more : Value → Reader → Outcome) : Outcome :=
  match outcome with
  | (.ok v, r) => more v r
  | failed => failed

namespace Reader

def start (text : Bytes) : Reader := ⟨.start text, 0⟩

def refuse (r : Reader) (text : String) : Outcome := (.error (.parse r.cursor.position text), r)

def nested (r : Reader) (inside : Reader → Outcome) : Outcome :=
  if depthLimit ≤ r.depth then r.refuse "Maximum nesting depth exceeded"
  else
    let (outcome, inner) := inside ⟨r.cursor, r.depth + 1⟩
    (outcome, ⟨inner.cursor, inner.depth - 1⟩)

mutual

def value : Nat → Reader → Outcome
  | 0, r => r.refuse "Unexpected end of input"
  | fuel + 1, r =>
    match nextToken r.cursor with
    | (.error fault, stop) => (.error fault, ⟨stop, r.depth⟩)
    | (.ok token, stop) => fromToken fuel token ⟨stop, r.depth⟩

def fromToken : Nat → Token → Reader → Outcome
  | 0, _, r => r.refuse "Unexpected end of input"
  | fuel + 1, token, r =>
    match token with
    | .bool b => (.ok (.bool b), r)
    | .int n =>
      match referenceBehind n r.cursor with
      | some (id, behind) => (.ok (.ref id), ⟨behind, r.depth⟩)
      | none => (.ok (.int n), r)
    | .real x => (.ok (.real x), r)
    | .str bytes => (.ok (.str bytes false), r)
    | .hexStr bytes => (.ok (.str bytes true), r)
    | .name bytes => (.ok (.name (Utf8.decodeLossy bytes)), r)
    | .null => (.ok .null, r)
    | .arrOpen => r.nested (items fuel [])
    | .dictOpen => r.nested (entries fuel [])
    | .done => r.refuse "Unexpected end of input"
    | token => r.refuse s!"Unexpected token: {token.describe}"

def items : Nat → List Value → Reader → Outcome
  | 0, _, r => r.refuse "Unexpected end of input"
  | fuel + 1, done, r =>
    match nextToken r.cursor with
    | (.error fault, stop) => (.error fault, ⟨stop, r.depth⟩)
    | (.ok .arrClose, stop) => (.ok (.arr done.reverse), ⟨stop, r.depth⟩)
    | (.ok .done, stop) => refuse ⟨stop, r.depth⟩ "Unterminated array"
    | (.ok token, stop) =>
      (fromToken fuel token ⟨stop, r.depth⟩).andThen fun v r => items fuel (v :: done) r

def entries : Nat → Entries → Reader → Outcome
  | 0, _, r => r.refuse "Unexpected end of input"
  | fuel + 1, done, r =>
    match nextToken r.cursor with
    | (.error fault, stop) => (.error fault, ⟨stop, r.depth⟩)
    | (.ok .dictClose, stop) => (.ok (.dict done), ⟨stop, r.depth⟩)
    | (.ok (.name bytes), stop) =>
      (value fuel ⟨stop, r.depth⟩).andThen fun v r =>
        entries fuel (Entries.put (Utf8.decodeLossy bytes) v done) r
    | (.ok .done, stop) => refuse ⟨stop, r.depth⟩ "Unterminated dictionary"
    | (.ok token, stop) =>
      refuse ⟨stop, r.depth⟩ s!"Expected dictionary key, found {token.describe}"

end

def call (r : Reader) : Outcome := value (2 * r.cursor.rest.length + 1) r

def after : Nat → Reader → Reader
  | 0, r => r
  | count + 1, r => after count r.call.2

end Reader

structure Passed (c d : Cursor) : Prop where
  ahead : c.Ahead d
  token : nextToken c = Lexer.next d
  plain : ∀ bytes, (Lexer.next d).1 ≠ .ok (.comment bytes)
  resumed : ∀ stack, resume stack c = resume stack d

theorem passedComments (c : Cursor) : ∃ d, Passed c d := by
  have here {c stop : Cursor} {result : Except Fault Token} (read : Lexer.next c = (result, stop))
      (plain : ∀ bytes, result ≠ .ok (.comment bytes)) (token : nextToken c = (result, stop)) :
      ∃ d, Passed c d :=
    ⟨c, Ahead.refl c, token.trans read.symm, by rwa [read], fun _ => rfl⟩
  induction c using Lexer.throughTokens with
  | fault c stop fault read => exact here read (by simp) (by rw [nextToken, lexemesFault read]; rfl)
  | done c stop read => exact here read (by simp) (by rw [nextToken, lexemesDone read]; rfl)
  | token c stop t read last ih =>
    cases t with
    | comment bytes =>
      obtain ⟨d, ahead, token, plain, resumed⟩ := ih
      have moved := (Lexer.nextAhead c).1
      rw [read] at moved
      refine ⟨d, moved.trans ahead, ?_, plain, fun stack => ?_⟩
      · rw [← token, nextToken, lexemesToken read last]
        rfl
      · rw [← resumed, resumeToken read last (by simp), takeComment]
        rfl
    | done => contradiction
    | _ => exact here read (by simp) (by rw [nextToken, lexemesToken read last]; rfl)

theorem Passed.notComment {c d stop : Cursor} {t : Token} (passed : Passed c d)
    (read : Lexer.next d = (.ok t, stop)) (bytes : Bytes) : t ≠ .comment bytes :=
  fun same => passed.plain bytes (by rw [read, same])

theorem Passed.shorter {c d stop : Cursor} {t : Token} (passed : Passed c d)
    (read : Lexer.next d = (.ok t, stop)) (more : t ≠ .done) : stop.rest.length < c.rest.length :=
  Nat.lt_of_lt_of_le (Lexer.nextShorter read more) passed.ahead.length

theorem nextTokenAhead (c : Cursor) : c.Ahead (nextToken c).2 ∧
    ∀ t, (nextToken c).1 = .ok t → t ≠ .done → (nextToken c).2.rest.length < c.rest.length := by
  obtain ⟨d, ahead, token, -, -⟩ := passedComments c
  obtain ⟨moved, shorter⟩ := Lexer.nextAhead d
  rw [token]
  exact ⟨ahead.trans moved, fun t read more => Nat.lt_of_lt_of_le (shorter t read more) ahead.length⟩

theorem nextTokenPlaced (c : Cursor) : Placed (nextToken c) := by
  obtain ⟨d, -, token, -, -⟩ := passedComments c
  rw [token]
  exact Lexer.nextPlaced d

namespace Reader

structure Settled (r : Reader) (result : Outcome) : Prop where
  ahead : r.cursor.Ahead result.2.cursor
  depth : result.2.depth = r.depth
  placed : ∀ fault, result.1 = .error fault →
    ∃ text, fault = .parse result.2.cursor.position text

theorem Settled.further {r middle : Reader} {result : Outcome} (behind : Settled middle result)
    (ahead : r.cursor.Ahead middle.cursor) (depth : middle.depth = r.depth) : Settled r result :=
  ⟨ahead.trans behind.ahead, behind.depth.trans depth, behind.placed⟩

theorem readSettled (r : Reader) (v : Value) : Settled r (.ok v, r) :=
  ⟨Ahead.refl _, rfl, nofun⟩

theorem refuseSettled (r : Reader) (text : String) : Settled r (r.refuse text) :=
  ⟨Ahead.refl _, rfl, fun _ same => ⟨text, (Except.error.inj same).symm⟩⟩

theorem thenSettled {r : Reader} {outcome : Outcome} (first : Settled r outcome)
    {more : Value → Reader → Outcome} (second : ∀ v r, Settled r (more v r)) :
    Settled r (outcome.andThen more) := by
  obtain ⟨result, inner⟩ := outcome
  cases result with
  | error fault => exact first
  | ok v => exact (second v inner).further first.ahead first.depth

theorem nestedSettled {r : Reader} {inside : Reader → Outcome}
    (settled : ∀ r, Settled r (inside r)) : Settled r (r.nested inside) := by
  unfold nested
  split
  · exact refuseSettled _ _
  · obtain ⟨ahead, depth, placed⟩ := settled ⟨r.cursor, r.depth + 1⟩
    exact ⟨ahead, by simp only [depth, Nat.add_sub_cancel], placed⟩

theorem referenceAhead {n : Int64} {c behind : Cursor} {id : ObjId}
    (found : referenceBehind n c = some (id, behind)) : c.Ahead behind := by
  unfold referenceBehind at found
  split at found
  · next g middle number =>
    split at found
    · next letter last word =>
      obtain ⟨_, -, same⟩ := Option.map_eq_some_iff.mp found
      cases same
      have first := (Lexer.nextAhead c).1
      have second := (Lexer.nextAhead middle).1
      rw [number] at first
      rw [word] at second
      exact first.trans second
    · cases found
  · cases found

theorem tokenSettled {r : Reader} {result : Except Fault Token} {stop : Cursor}
    (read : nextToken r.cursor = (result, stop)) {outcome : Outcome}
    (behind : Settled ⟨stop, r.depth⟩ outcome) : Settled r outcome := by
  have ahead := (nextTokenAhead r.cursor).1
  rw [read] at ahead
  exact behind.further ahead rfl

theorem faultSettled {r : Reader} {fault : Fault} {stop : Cursor}
    (read : nextToken r.cursor = (.error fault, stop)) :
    Settled r (.error fault, ⟨stop, r.depth⟩) := by
  have ahead := (nextTokenAhead r.cursor).1
  have placed := nextTokenPlaced r.cursor
  rw [read] at ahead placed
  exact ⟨ahead, rfl, fun _ same => placed _ (congrArg _ (Except.error.inj same))⟩

theorem fromTokenInt (fuel : Nat) (n : Int64) (r : Reader) :
    fromToken (fuel + 1) (.int n) r =
      match referenceBehind n r.cursor with
      | some (id, behind) => (.ok (.ref id), ⟨behind, r.depth⟩)
      | none => (.ok (.int n), r) := rfl

theorem settles (fuel : Nat) :
    (∀ r, Settled r (value fuel r)) ∧ (∀ t r, Settled r (fromToken fuel t r)) ∧
      (∀ done r, Settled r (items fuel done r)) ∧ ∀ done r, Settled r (entries fuel done r) := by
  induction fuel with
  | zero =>
    exact ⟨fun r => refuseSettled r _, fun _ r => refuseSettled r _, fun _ r => refuseSettled r _,
      fun _ r => refuseSettled r _⟩
  | succ fuel ih =>
    obtain ⟨values, tokens, arrays, dictionaries⟩ := ih
    refine ⟨fun r => ?_, fun t r => ?_, fun done r => ?_, fun done r => ?_⟩
    · rw [value]
      split
      · next read => exact faultSettled read
      · next read => exact tokenSettled read (tokens _ _)
    · cases t with
      | int n =>
        rw [fromTokenInt]
        split
        · next id behind found => exact ⟨referenceAhead found, rfl, nofun⟩
        · exact readSettled _ _
      | arrOpen => exact nestedSettled (arrays [])
      | dictOpen => exact nestedSettled (dictionaries [])
      | bool | real | str | hexStr | name | null => exact readSettled _ _
      | arrClose | dictClose | word | comment | done => exact refuseSettled _ _
    · rw [items]
      split
      · next read => exact faultSettled read
      · next read => exact tokenSettled read (readSettled _ _)
      · next read => exact tokenSettled read (refuseSettled _ _)
      · next t stop _ _ read =>
        exact tokenSettled read (thenSettled (tokens t _) fun _ => arrays _)
    · rw [entries]
      split
      · next read => exact faultSettled read
      · next read => exact tokenSettled read (readSettled _ _)
      · next bytes stop read =>
        exact tokenSettled read (thenSettled (values _) fun _ => dictionaries _)
      · next read => exact tokenSettled read (refuseSettled _ _)
      · next read => exact tokenSettled read (refuseSettled _ _)

def settle (stack : List Frame) : Outcome → Scan Value
  | (.ok v, r) => follow r.cursor (deliver v stack)
  | (.error fault, r) => (.error fault, r.cursor)

theorem resumeBehind {c stop behind : Cursor} {n : Int64} {id : ObjId} {stack : List Frame}
    (read : Lexer.next c = (.ok (.int n), stop)) (found : referenceBehind n stop = some (id, behind))
    (ready : awaitsValue stack = true) :
    resume stack c = follow behind (deliver (.ref id) stack) := by
  unfold referenceBehind at found
  split at found
  · next g middle number =>
    split at found
    · next letter last word =>
      obtain ⟨_, made, same⟩ := Option.map_eq_some_iff.mp found
      cases same
      exact resumeReference read number word made ready
    · cases found
  · cases found

/-- With so much fuel the calls come to what the reader with a stack comes to. -/
structure Agree (fuel : Nat) : Prop where
  values : ∀ (c : Cursor) (stack : List Frame), awaitsValue stack = true →
    (∀ items outer, stack ≠ .array items :: outer) → 2 * c.rest.length + 1 ≤ fuel →
    resume stack c = settle stack (value fuel ⟨c, stack.length⟩)
  tokens : ∀ (t : Token) (c stop : Cursor) (stack : List Frame), awaitsValue stack = true →
    Lexer.next c = (.ok t, stop) → (∀ bytes, t ≠ .comment bytes) → Inside stack t →
    (t ≠ .done → 2 * stop.rest.length + 2 ≤ fuel) →
    resume stack c = settle stack (fromToken fuel t ⟨stop, stack.length⟩)
  arrays : ∀ (done : List Value) (c : Cursor) (outer : List Frame), 2 * c.rest.length + 1 ≤ fuel →
    resume (.array done :: outer) c = settle outer (items fuel done ⟨c, outer.length + 1⟩)
  dictionaries : ∀ (done : Entries) (c : Cursor) (outer : List Frame),
    2 * c.rest.length + 1 ≤ fuel →
    resume (.dict done :: outer) c = settle outer (entries fuel done ⟨c, outer.length + 1⟩)

theorem followEntered {stop : Cursor} {stack : List Frame} {frame : Frame}
    {inside : Reader → Outcome}
    (reads : resume (frame :: stack) stop = settle stack (inside ⟨stop, stack.length + 1⟩)) :
    follow stop (enter stop.position stack frame) =
      settle stack (nested ⟨stop, stack.length⟩ inside) := by
  unfold enter nested
  split
  · rfl
  · rw [follow, reads]
    cases inside ⟨stop, stack.length + 1⟩ with
    | mk outcome inner => cases outcome <;> rfl

theorem agreeToken {fuel : Nat} (agree : Agree fuel) (t : Token) (c stop : Cursor)
    (stack : List Frame) (ready : awaitsValue stack = true) (read : Lexer.next c = (.ok t, stop))
    (plain : ∀ bytes, t ≠ .comment bytes) (inside : Inside stack t)
    (enough : t ≠ .done → 2 * stop.rest.length + 2 ≤ fuel + 1) :
    resume stack c = settle stack (fromToken (fuel + 1) t ⟨stop, stack.length⟩) := by
  have alone (more : t ≠ .done) (single : ∀ n, t = .int n → referenceBehind n stop = none) :
      resume stack c = follow stop (beginValue stop.position stack t) := by
    rw [resumeUnreferred read more fun _ => single, takeAwaited ready inside plain]
  cases t with
  | int n =>
    cases found : referenceBehind n stop with
    | none =>
      rw [alone nofun fun _ same => (Token.int.inj same) ▸ found, fromTokenInt]
      simp only [found]
      rfl
    | some referred =>
      rw [resumeBehind read found ready, fromTokenInt]
      simp only [found]
      rfl
  | done =>
    rw [resumeEnded read, takeAwaited ready inside plain]
    rfl
  | arrOpen =>
    rw [alone nofun nofun]
    exact followEntered (agree.arrays [] stop stack (by have := enough nofun; omega))
  | dictOpen =>
    rw [alone nofun nofun]
    exact followEntered (agree.dictionaries [] stop stack (by have := enough nofun; omega))
  | comment bytes => exact absurd rfl (plain bytes)
  | bool | real | str | hexStr | name | null | arrClose | dictClose | word =>
    rw [alone nofun nofun]
    rfl

theorem itemsToken {fuel : Nat} {done : List Value} {r : Reader} {t : Token} {stop : Cursor}
    (read : nextToken r.cursor = (.ok t, stop)) (closes : t ≠ .arrClose) (last : t ≠ .done) :
    items (fuel + 1) done r =
      (fromToken fuel t ⟨stop, r.depth⟩).andThen fun v r => items fuel (v :: done) r := by
  rw [items, read]
  cases t with
  | arrClose | done => contradiction
  | _ => rfl

theorem settleThen {frame : Frame} {outer : List Frame} {outcome : Outcome}
    {more : Value → Reader → Outcome} (depth : outcome.2.depth = outer.length + 1)
    (goes : ∀ v, outcome.1 = .ok v → follow outcome.2.cursor (deliver v (frame :: outer)) =
      settle outer (more v ⟨outcome.2.cursor, outer.length + 1⟩)) :
    settle (frame :: outer) outcome = settle outer (outcome.andThen more) := by
  obtain ⟨result, c, inner⟩ := outcome
  subst depth
  cases result with
  | error fault => rfl
  | ok v => exact goes v rfl

theorem agreeValue {fuel : Nat} (agree : Agree fuel) (c : Cursor) (stack : List Frame)
    (ready : awaitsValue stack = true) (other : ∀ items outer, stack ≠ .array items :: outer)
    (enough : 2 * c.rest.length + 1 ≤ fuel + 1) :
    resume stack c = settle stack (value (fuel + 1) ⟨c, stack.length⟩) := by
  obtain ⟨d, passed⟩ := passedComments c
  rw [passed.resumed, value, passed.token]
  cases read : Lexer.next d with
  | mk result stop =>
    cases result with
    | error fault => exact resumeFault read stack
    | ok t =>
      exact agree.tokens t d stop stack ready read (passed.notComment read)
        (fun items outer same => absurd same (other items outer))
        fun more => by have := passed.shorter read more; omega

theorem agreeItems {fuel : Nat} (agree : Agree fuel) (done : List Value) (c : Cursor)
    (outer : List Frame) (enough : 2 * c.rest.length + 1 ≤ fuel + 1) :
    resume (.array done :: outer) c =
      settle outer (items (fuel + 1) done ⟨c, outer.length + 1⟩) := by
  obtain ⟨d, passed⟩ := passedComments c
  have token := passed.token
  rw [passed.resumed]
  cases read : Lexer.next d with
  | mk result stop =>
    rw [read] at token
    cases result with
    | error fault =>
      rw [resumeFault read, items, token]
      rfl
    | ok t =>
      by_cases closes : t = .arrClose
      · subst closes
        rw [resumeToken read nofun nofun, items, token]
        rfl
      by_cases last : t = .done
      · subst last
        rw [resumeEnded read, items, token]
        rfl
      -- one octet fewer pays for the call on the token and for the one behind it
      have shorter := passed.shorter read last
      have settled := (settles fuel).2.1 t ⟨stop, (Frame.array done :: outer).length⟩
      have left := settled.ahead.length
      rw [agree.tokens t d stop (.array done :: outer) rfl read (passed.notComment read)
        (fun _ _ _ => ⟨closes, last⟩) fun _ => by omega, itemsToken token closes last]
      exact settleThen settled.depth fun v _ =>
        agree.arrays (v :: done) _ outer (by dsimp only at left; omega)

theorem agreeEntries {fuel : Nat} (agree : Agree fuel) (done : Entries) (c : Cursor)
    (outer : List Frame) (enough : 2 * c.rest.length + 1 ≤ fuel + 1) :
    resume (.dict done :: outer) c =
      settle outer (entries (fuel + 1) done ⟨c, outer.length + 1⟩) := by
  obtain ⟨d, passed⟩ := passedComments c
  rw [passed.resumed, entries, passed.token]
  cases read : Lexer.next d with
  | mk result stop =>
    cases result with
    | error fault => exact resumeFault read _
    | ok t =>
      cases t with
      | comment bytes => exact absurd rfl (passed.notComment read bytes)
      | done =>
        rw [resumeEnded read]
        rfl
      | name bytes =>
        have shorter := passed.shorter read nofun
        have settled := (settles fuel).1
          ⟨stop, (Frame.entry (Utf8.decodeLossy bytes) done :: outer).length⟩
        have left := settled.ahead.length
        rw [resumeToken read nofun nofun]
        exact (agree.values stop (.entry (Utf8.decodeLossy bytes) done :: outer) rfl nofun
          (by omega)).trans (settleThen settled.depth fun v _ =>
            agree.dictionaries _ _ outer (by dsimp only at left; omega))
      | _ =>
        -- no reference is looked for where a key is awaited
        have unready : ¬awaitsValue (.dict done :: outer) = true := Bool.false_ne_true
        exact resumeUnreferred read nofun fun ready => absurd ready unready

theorem agree (fuel : Nat) : Agree fuel := by
  induction fuel with
  | zero =>
    have short {n : Nat} {goal : Prop} (enough : 2 * n + 1 ≤ 0) : goal :=
      absurd enough (Nat.not_succ_le_zero _)
    refine ⟨fun _ _ _ _ => short, fun t c stop stack ready read plain inside enough => ?_,
      fun _ _ _ => short, fun _ _ _ => short⟩
    by_cases last : t = .done
    · subst last
      rw [resumeEnded read, takeAwaited ready inside plain]
      rfl
    · exact absurd (enough last) (Nat.not_succ_le_zero _)
  | succ fuel ih => exact ⟨agreeValue ih, agreeToken ih, agreeItems ih, agreeEntries ih⟩

theorem callAlike (c : Cursor) : Parser.next c = ((call ⟨c, 0⟩).1, (call ⟨c, 0⟩).2.cursor) := by
  have alike : Parser.next c = settle [] (call ⟨c, 0⟩) :=
    (agree _).values c [] rfl nofun (Nat.le_refl _)
  rw [alike]
  cases call ⟨c, 0⟩ with
  | mk outcome s => cases outcome <;> rfl

theorem callSettled (r : Reader) : Settled r r.call := (settles _).1 r

theorem callShorter {r s : Reader} {v : Value} (called : r.call = (.ok v, s)) :
    s.cursor.rest.length < r.cursor.rest.length := by
  rw [call, value] at called
  split at called
  · cases called
  · next t stop read =>
    have inside := ((settles (2 * r.cursor.rest.length)).2.1 t ⟨stop, r.depth⟩).ahead.length
    rw [called] at inside
    by_cases last : t = .done
    · subst last
      -- the end of the text is no value, with whatever fuel
      cases fuel : 2 * r.cursor.rest.length <;> rw [fuel] at called <;> cases called
    · have first := (nextTokenAhead r.cursor).2 t (by rw [read]) last
      rw [read] at first
      exact Nat.lt_of_le_of_lt inside first

structure Between (text : Bytes) (r : Reader) : Prop where
  depth : r.depth = 0
  ahead : (Cursor.start text).Ahead r.cursor

theorem startBetween (text : Bytes) : Between text (start text) := ⟨rfl, Ahead.refl _⟩

theorem callBetween {text : Bytes} {r : Reader} (between : Between text r) :
    Between text r.call.2 :=
  ⟨(callSettled r).depth.trans between.depth, between.ahead.trans (callSettled r).ahead⟩

theorem afterBetween {text : Bytes} {r : Reader} (between : Between text r) (count : Nat) :
    Between text (r.after count) := by
  induction count generalizing r with
  | zero => exact between
  | succ count ih => exact ih (callBetween between)

theorem parseManyAfter {text : Bytes} {r : Reader} (between : Between text r) (count : Nat) :
    (parseMany (count + 1) r.cursor)[count]? = some (r.after count).call.1 := by
  induction count generalizing r with
  | zero =>
    obtain ⟨c, depth⟩ := r
    cases between.depth
    rw [parseMany, callAlike]
    rfl
  | succ count ih =>
    have behind := ih (callBetween between)
    obtain ⟨c, depth⟩ := r
    cases between.depth
    rw [parseMany, callAlike]
    exact behind

theorem aheadSeek {text : Bytes} {c : Cursor} (ahead : (Cursor.start text).Ahead c) :
    c = .seek text c.position ∧ c.position + c.rest.length = text.length := by
  obtain ⟨before, whole⟩ := ahead.suffix
  have total := ahead.total
  obtain ⟨position, rest⟩ := c
  cases show before ++ rest = text from whole
  simp only [Cursor.start, List.length_append] at total
  obtain rfl : position = before.length := by omega
  exact ⟨(Lexer.seekBehind before rest).symm, List.length_append.symm⟩

theorem callsProgress (text : Bytes) (count : Nat) :
    ∃ (r s : Reader) (outcome : Except Fault Value),
      r = (start text).after count ∧ r.call = (outcome, s) ∧ r.depth = 0 ∧ s.depth = 0 ∧
      (parseMany (count + 1) (.start text))[count]? = some outcome ∧
      Parser.next (.seek text r.cursor.position) =
        (outcome, .seek text s.cursor.position) ∧
      r.cursor.position ≤ s.cursor.position ∧ s.cursor.position ≤ text.length ∧
      match outcome with
      | .ok _ => r.cursor.position < s.cursor.position
      | .error fault => ∃ message, fault = .parse s.cursor.position message := by
  have before := afterBetween (startBetween text) count
  have many := parseManyAfter (startBetween text) count
  generalize (start text).after count = r at before many ⊢
  have behind := callBetween before
  obtain ⟨here, reached⟩ := aheadSeek before.ahead
  obtain ⟨there, left⟩ := aheadSeek behind.ahead
  have moved := (callSettled r).ahead.length
  refine ⟨r, r.call.2, r.call.1, rfl, rfl, before.depth, behind.depth, many, ?_, by omega, by omega,
    ?_⟩
  · rw [← here, ← there]
    obtain ⟨c, depth⟩ := r
    cases before.depth
    exact callAlike c
  · cases called : r.call.1 with
    | ok v =>
      have shorter := callShorter (r := r) (s := r.call.2) (v := v) (by rw [← called])
      dsimp only
      omega
    | error fault => exact (callSettled r).placed fault called

end Reader

end PdfBody.Parser
