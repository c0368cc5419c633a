import PdfBody.Proofs.Text.Utf8
import PdfBody.Proofs.Text.Spelling

/-! What the reader makes of the tokens of a value. Between two tokens its state is the stack of
open containers and the cursor; a number is read alone exactly where the tokens behind it do not
complete a reference. -/
namespace PdfBody.Parser

def resume (stack : List Frame) (c : Cursor) : Scan Value := readFrom stack c (lexemes c)

def follow (c : Cursor) : Turn → Scan Value
  | .stop outcome => (outcome, c)
  | .go stack => resume stack c

structure Apart (c : Cursor) : Prop where
  noWord : ∀ letter stop, Lexer.next c ≠ (.ok (.word letter), stop)
  noTail : ∀ g middle letter stop, Lexer.next c = (.ok (.int g), middle) →
    Lexer.next middle ≠ (.ok (.word letter), stop)

theorem apartOf {c : Cursor} (noWord : ∀ letter stop, Lexer.next c ≠ (.ok (.word letter), stop))
    (noInt : ∀ n stop, Lexer.next c ≠ (.ok (.int n), stop)) : Apart c :=
  ⟨noWord, fun g middle _ _ read => absurd read (noInt g middle)⟩

theorem apartToken {c stop : Cursor} {t : Token} (read : Lexer.next c = (.ok t, stop))
    (noWord : ∀ letter, t ≠ .word letter) (noInt : ∀ n, t ≠ .int n) : Apart c := by
  refine apartOf (fun letter stop other => ?_) fun n stop other => ?_
  · rw [read] at other
    cases other
    exact noWord letter rfl
  · rw [read] at other
    cases other
    exact noInt n rfl

theorem lexemesHead {c stop : Cursor} {t : Token} {more : List Lexeme}
    (head : lexemes c = ⟨.ok t, stop⟩ :: more) (other : t ≠ .done) :
    Lexer.next c = (.ok t, stop) ∧ more = lexemes stop := by
  cases read : Lexer.next c with
  | mk result behind =>
    cases result with
    | error fault =>
      rw [lexemesFault read] at head
      cases head
    | ok first =>
      by_cases last : first = .done
      · subst last
        rw [lexemesDone read] at head
        cases head
        contradiction
      · rw [lexemesToken read last] at head
        cases head
        exact ⟨rfl, rfl⟩

theorem resumeFault {c stop : Cursor} {fault : Fault} (read : Lexer.next c = (.error fault, stop))
    (stack : List Frame) : resume stack c = (.error fault, stop) := by
  rw [resume, lexemesFault read, readFrom]

def referenceBehind (n : Int64) (c : Cursor) : Option (ObjId × Cursor) :=
  match Lexer.next c with
  | (.ok (.int g), middle) =>
    match Lexer.next middle with
    | (.ok (.word letter), behind) => (reference? n g letter).map fun id => (id, behind)
    | _ => none
  | _ => none

theorem resumeUnreferred {c stop : Cursor} {t : Token} {stack : List Frame}
    (read : Lexer.next c = (.ok t, stop)) (more : t ≠ .done)
    (alone : awaitsValue stack = true → ∀ n, t = .int n → referenceBehind n stop = none) :
    resume stack c = follow stop (take stop.position stack t) := by
  rw [resume, lexemesToken read more]
  by_cases triple : ∃ n g middle letter behind, t = .int n ∧
      Lexer.next stop = (.ok (.int g), middle) ∧ Lexer.next middle = (.ok (.word letter), behind)
  · obtain ⟨n, g, middle, letter, behind, rfl, number, word⟩ := triple
    have tail : lexemes stop =
        ⟨.ok (.int g), middle⟩ :: ⟨.ok (.word letter), behind⟩ :: lexemes behind := by
      rw [lexemesToken number (by simp), lexemesToken word (by simp)]
    unfold follow resume
    rw [tail, readFrom]
    cases ready : awaitsValue stack with
    | false => rfl
    | true =>
      have none := alone ready n rfl
      simp only [referenceBehind, number, word, Option.map_eq_none_iff] at none
      split
      · next found =>
        rw [none] at found
        cases found
      · rfl
  · rw [readFrom.eq_4]
    · rfl
    · intro n g middle letter behind rest behindNumber number
      obtain ⟨generation, tail⟩ := lexemesHead behindNumber (by simp)
      obtain ⟨word, -⟩ := lexemesHead tail.symm (by simp)
      exact triple ⟨n, g, middle, letter, behind, number, generation, word⟩

theorem Apart.unreferred {c : Cursor} (apart : Apart c) (n : Int64) : referenceBehind n c = none := by
  unfold referenceBehind
  split
  · next g middle number =>
    split
    · next letter stop word => exact absurd word (apart.noTail g middle letter stop number)
    · rfl
  · rfl

theorem resumeToken {c stop : Cursor} {t : Token} (read : Lexer.next c = (.ok t, stop))
    (more : t ≠ .done) (alone : ∀ n, t = .int n → Apart stop) (stack : List Frame) :
    resume stack c = follow stop (take stop.position stack t) :=
  resumeUnreferred read more fun _ n same => (alone n same).unreferred n

theorem takeDone (position : Nat) (stack : List Frame) :
    ∃ fault, take position stack .done = .stop (.error fault) := by
  cases stack with
  | nil => exact ⟨_, rfl⟩
  | cons frame outer => cases frame <;> exact ⟨_, rfl⟩

theorem resumeEnded {c stop : Cursor} (ended : Lexer.next c = (.ok .done, stop))
    (stack : List Frame) : resume stack c = follow stop (take stop.position stack .done) := by
  obtain ⟨fault, refused⟩ := takeDone stop.position stack
  rw [resume, lexemesDone ended, readFrom.eq_4 _ _ _ _ _ (by simp), refused]
  rfl

theorem resumeReference {c first middle behind : Cursor} {n g : Int64} {letter : String}
    (number : Lexer.next c = (.ok (.int n), first))
    (generation : Lexer.next first = (.ok (.int g), middle))
    (word : Lexer.next middle = (.ok (.word letter), behind)) {id : ObjId}
    (made : reference? n g letter = some id) {stack : List Frame} (ready : awaitsValue stack = true) :
    resume stack c = follow behind (deliver (.ref id) stack) := by
  rw [resume, lexemesToken number (by simp), lexemesToken generation (by simp),
    lexemesToken word (by simp), readFrom, ready, made]
  rfl

theorem smallNatural {n : Nat} (small : n ≤ 0xFFFFFFFF) : (Int64.ofNat n).toInt = n :=
  Int64.toInt_ofNat_of_lt (by omega)

theorem referenceMade (id : ObjId) :
    reference? (Int64.ofNat id.number.toNat) (Int64.ofNat id.generation.toNat) "R" = some id := by
  have number := id.number.toNat_lt
  have generation := id.generation.toNat_lt
  simp only [reference?, smallNatural (show id.number.toNat ≤ 0xFFFFFFFF by omega),
    smallNatural (show id.generation.toNat ≤ 0xFFFFFFFF by omega), Int.toNat_natCast]
  rw [if_pos ⟨trivial, by omega, by omega, by omega, by omega⟩, UInt32.ofNat_toNat, UInt16.ofNat_toNat]

theorem Spelled.split {c stop : Cursor} {ts us : List Token} (spelled : Spelled c (ts ++ us) stop) :
    ∃ middle, Spelled c ts middle ∧ Spelled middle us stop := by
  induction ts generalizing c with
  | nil => exact ⟨c, .nil c, spelled⟩
  | cons t ts ih =>
    cases spelled with
    | cons read more tail =>
      obtain ⟨middle, first, second⟩ := ih tail
      exact ⟨middle, .cons read more first, second⟩

theorem Spelled.single {c stop : Cursor} {t : Token} (spelled : Spelled c [t] stop) :
    Lexer.next c = (.ok t, stop) ∧ t ≠ .done := by
  cases spelled with
  | cons read more tail => cases tail; exact ⟨read, more⟩

theorem apartValue {v : Value} {c stop : Cursor} (spelled : Spelled c v.tokens stop)
    (apart : Apart stop) : Apart c := by
  cases v with
  | raw bytes => cases spelled; exact apart
  | int n =>
    obtain ⟨read, _⟩ := Spelled.single spelled
    refine ⟨fun letter behind other => ?_, fun g middle letter behind second third => ?_⟩
    · rw [read] at other; cases other
    · rw [read] at second
      cases second
      exact apart.noWord letter behind third
  | ref id =>
    cases spelled with
    | cons number _ tail =>
      cases tail with
      | cons generation _ _ =>
        refine ⟨fun letter behind other => ?_, fun g middle letter behind second third => ?_⟩
        · rw [number] at other; cases other
        · rw [number] at second
          cases second
          rw [generation] at third
          cases third
  | str bytes hex =>
    cases hex with
    | false =>
      exact apartToken (Spelled.single spelled).1 (by simp [Lexer.stringToken])
        (by simp [Lexer.stringToken])
    | true =>
      exact apartToken (Spelled.single spelled).1 (by simp [Lexer.stringToken])
        (by simp [Lexer.stringToken])
  | arr items =>
    cases spelled with
    | cons read _ _ => exact apartToken read (by simp) (by simp)
  | dict entries =>
    cases spelled with
    | cons read _ _ => exact apartToken read (by simp) (by simp)
  | _ => exact apartToken (Spelled.single spelled).1 (by simp) (by simp)

theorem apartItems {items : List Value} {c stop : Cursor}
    (spelled : Spelled c (Value.tokensItems items) stop) (apart : Apart stop) : Apart c := by
  induction items generalizing c with
  | nil => cases spelled; exact apart
  | cons v items ih =>
    obtain ⟨middle, head, tail⟩ := Spelled.split spelled
    exact apartValue head (ih tail)

theorem apartEntries {typeEntry : Bool} {entries : Entries} {c stop : Cursor}
    (spelled : Spelled c (Value.tokensEntries typeEntry entries) stop) (apart : Apart stop) :
    Apart c := by
  induction entries with
  | nil => cases spelled; exact apart
  | cons entry entries ih =>
    obtain ⟨key, v⟩ := entry
    rw [Value.tokensEntries] at spelled
    split at spelled
    · cases spelled with
      | cons read _ _ => exact apartToken read (by simp) (by simp)
    · exact ih spelled

def TooDeep (result : Scan Value) : Prop :=
  ∃ position, result.1 = .error (.parse position "Maximum nesting depth exceeded")

def ReadsTo (stack : List Frame) (c : Cursor) (levels : Nat) (result : Scan Value) : Prop :=
  if stack.length + levels ≤ depthLimit then resume stack c = result else TooDeep (resume stack c)

namespace ReadsTo

theorem now {stack : List Frame} {c : Cursor} {result : Scan Value}
    (room : stack.length ≤ depthLimit) (read : resume stack c = result) :
    ReadsTo stack c 0 result := by
  rw [ReadsTo, if_pos (by omega)]
  exact read

theorem before {stack other : List Frame} {c d : Cursor} {levels : Nat} {result : Scan Value}
    (step : resume stack c = resume other d) (same : other.length = stack.length)
    (reads : ReadsTo other d levels result) : ReadsTo stack c levels result := by
  rw [ReadsTo, step, ← same]
  exact reads

theorem trans {stack other : List Frame} {c d : Cursor} {a b : Nat} {result : Scan Value}
    (first : ReadsTo stack c a (resume other d)) (same : other.length = stack.length)
    (second : ReadsTo other d b result) : ReadsTo stack c (max a b) result := by
  rw [ReadsTo] at first second ⊢
  rw [same] at second
  by_cases fits : stack.length + a ≤ depthLimit
  · rw [if_pos fits] at first
    rw [first]
    by_cases fitsToo : stack.length + b ≤ depthLimit
    · rw [if_pos (by omega)]
      rwa [if_pos fitsToo] at second
    · rw [if_neg (by omega)]
      rwa [if_neg fitsToo] at second
  · rw [if_neg (by omega)]
    rwa [if_neg fits] at first

theorem whole {stack : List Frame} {c : Cursor} {levels : Nat} {middle result : Scan Value}
    (reads : ReadsTo stack c levels middle) (same : middle = result) :
    ReadsTo stack c levels result := same ▸ reads

theorem inside {stack : List Frame} {frame : Frame} {c d : Cursor} {levels : Nat}
    {result : Scan Value} (room : stack.length ≤ depthLimit)
    (opened : resume stack c = follow d (enter d.position stack frame))
    (reads : stack.length < depthLimit → ReadsTo (frame :: stack) d levels result) :
    ReadsTo stack c (levels + 1) result := by
  by_cases full : depthLimit ≤ stack.length
  · rw [ReadsTo, if_neg (by omega), opened, enter, if_pos full]
    exact ⟨d.position, rfl⟩
  · have within := reads (by omega)
    rw [enter, if_neg full] at opened
    rw [ReadsTo, List.length_cons] at within
    rw [ReadsTo, opened]
    rwa [Nat.add_assoc, Nat.add_comm 1] at within

end ReadsTo

def passed (typeEntry : Bool) (entries : Entries) : Entries :=
  entries.filter fun entry => (entry.1 == "Type") == typeEntry

theorem passedTaken {typeEntry : Bool} {key : String} (taken : (key == "Type") = typeEntry)
    (v : Value) (entries : Entries) :
    passed typeEntry ((key, v) :: entries) = (key, v) :: passed typeEntry entries :=
  List.filter_cons_of_pos (by simpa using taken)

theorem passedOver {typeEntry : Bool} {key : String} (other : ¬ (key == "Type") = typeEntry)
    (v : Value) (entries : Entries) :
    passed typeEntry ((key, v) :: entries) = passed typeEntry entries :=
  List.filter_cons_of_neg (by simpa using other)

theorem nestingPassed (entries : Entries) : Value.nestingEntries entries =
    max (Value.nestingEntries (passed true entries)) (Value.nestingEntries (passed false entries)) := by
  induction entries with
  | nil => rfl
  | cons entry entries ih =>
    obtain ⟨key, v⟩ := entry
    cases flagged : key == "Type" with
    | true =>
      rw [passedTaken flagged, passedOver (by simp [flagged])]
      simp only [Value.nestingEntries, ih]
      omega
    | false =>
      rw [passedTaken flagged, passedOver (by simp [flagged])]
      simp only [Value.nestingEntries, ih]
      omega

theorem typeFirstPassed (entries : Entries) :
    passed true entries ++ passed false entries = Entries.typeFirst entries := by
  simp [passed, Entries.typeFirst, Entries.typeKey, bne]

def Inside (stack : List Frame) (t : Token) : Prop :=
  ∀ items outer, stack = .array items :: outer → t ≠ .arrClose ∧ t ≠ .done

theorem takeAwaited {stack : List Frame} (ready : awaitsValue stack = true) {t : Token}
    (inside : Inside stack t) (plain : ∀ bytes, t ≠ .comment bytes) (position : Nat) :
    take position stack t = beginValue position stack t := by
  unfold take
  split
  · exact absurd rfl (plain _)
  · exact absurd rfl (inside _ _ rfl).1
  · exact absurd rfl (inside _ _ rfl).2
  · cases ready
  · cases ready
  · cases ready
  · cases ready
  · rfl

theorem takeValue {stack : List Frame} (ready : awaitsValue stack = true) {t : Token}
    (within : t ≠ .arrClose) (more : t ≠ .done) (plain : ∀ bytes, t ≠ .comment bytes)
    (position : Nat) : take position stack t = beginValue position stack t :=
  takeAwaited ready (fun _ _ _ => ⟨within, more⟩) plain position

theorem resumeValue {c stop : Cursor} {t : Token} (read : Lexer.next c = (.ok t, stop))
    (alone : ∀ n, t = .int n → Apart stop) (within : t ≠ .arrClose) (more : t ≠ .done)
    (plain : ∀ bytes, t ≠ .comment bytes) {stack : List Frame} (ready : awaitsValue stack = true) :
    resume stack c = follow stop (beginValue stop.position stack t) := by
  rw [resumeToken read more alone, takeValue ready within more plain]

theorem resumeName {c stop : Cursor} {key : String}
    (read : Lexer.next c = (.ok (.name (Utf8.encode key)), stop)) (done : Entries)
    (outer : List Frame) :
    resume (.dict done :: outer) c = resume (.entry key done :: outer) stop := by
  rw [resumeToken read (by simp) (by simp)]
  simp only [take, follow, Utf8.decodeEncoded]

mutual

theorem readsValue {admits : Binary64 → Prop} : ∀ v : Value, v.Every (Value.Cooked admits) → v.Keyed →
    ∀ stack c stop, Spelled c v.tokens stop → Apart stop → awaitsValue stack = true →
    stack.length ≤ depthLimit →
    ReadsTo stack c v.nesting (follow stop (deliver v.typeFirst stack))
  | .null, _, _, stack, c, stop, spelled, _, ready, room =>
    .now room (resumeValue (Spelled.single spelled).1 (by simp) (by simp) (by simp) (by simp) ready)
  | .bool b, _, _, stack, c, stop, spelled, _, ready, room =>
    .now room (resumeValue (Spelled.single spelled).1 (by simp) (by simp) (by simp) (by simp) ready)
  | .int n, _, _, stack, c, stop, spelled, apart, ready, room =>
    .now room (resumeValue (Spelled.single spelled).1 (fun _ _ => apart) (by simp) (by simp)
      (by simp) ready)
  | .real x, _, _, stack, c, stop, spelled, _, ready, room =>
    .now room (resumeValue (Spelled.single spelled).1 (by simp) (by simp) (by simp) (by simp) ready)
  | .ref id, _, _, stack, c, stop, spelled, _, ready, room => by
    cases spelled with
    | cons number _ tail =>
      cases tail with
      | cons generation _ tail =>
        exact .now room (resumeReference number generation (Spelled.single tail).1
          (referenceMade id) ready)
  | .str bytes hex, _, _, stack, c, stop, spelled, _, ready, room => by
    cases hex with
    | false =>
      have read : Lexer.next c = (.ok (.str bytes), stop) := (Spelled.single spelled).1
      exact .now room (resumeValue read (by simp) (by simp) (by simp) (by simp) ready)
    | true =>
      have read : Lexer.next c = (.ok (.hexStr bytes), stop) := (Spelled.single spelled).1
      exact .now room (resumeValue read (by simp) (by simp) (by simp) (by simp) ready)
  | .name text, _, _, stack, c, stop, spelled, _, ready, room => by
    have named : Lexer.next c = (.ok (.name (Utf8.encode text)), stop) := (Spelled.single spelled).1
    have begun : beginValue stop.position stack (.name (Utf8.encode text)) =
        deliver (.name text) stack :=
      congrArg (fun name => deliver (.name name) stack) (Utf8.decodeEncoded text)
    have read := resumeValue named (by simp) (by simp) (by simp) (by simp) ready
    exact .now room (read.trans (congrArg (follow stop) begun))
  | .raw _, cooked, _, _, _, _, _, _, _, _ => absurd cooked id
  | .arr items, cooked, keyed, stack, c, stop, spelled, _, ready, room => by
    cases spelled with
    | @cons _ first _ _ _ opening _ tail =>
      obtain ⟨last, inside, closing⟩ := Spelled.split tail
      obtain ⟨close, _⟩ := Spelled.single closing
      have apart : Apart last := apartToken close (by simp) (by simp)
      refine .inside room (resumeValue opening (by simp) (by simp) (by simp) (by simp) ready)
        fun below => ?_
      refine (readsItems items cooked.2 keyed stack [] first last inside apart below).whole ?_
      rw [resumeToken close (by simp) (by simp), List.append_nil]
      simp only [take, List.reverse_reverse, Value.typeFirst]
  | .dict entries, cooked, keyed, stack, c, stop, spelled, _, ready, room => by
    cases spelled with
    | @cons _ first _ _ _ opening _ tail =>
      obtain ⟨middle, typed, tail⟩ := Spelled.split tail
      obtain ⟨last, others, closing⟩ := Spelled.split tail
      obtain ⟨close, _⟩ := Spelled.single closing
      have apart : Apart last := apartToken close (by simp) (by simp)
      obtain ⟨once, parts⟩ := keyed
      rw [Value.nesting, nestingPassed]
      refine .inside room (resumeValue opening (by simp) (by simp) (by simp) (by simp) ready)
        fun below => ?_
      have pass := readsEntries true entries cooked.2 parts once stack [] first middle typed
        (apartEntries others apart) (by simp) below
      -- the second pass puts nothing where the first put the `Type` entry
      have fresh : ∀ key ∈ entries.map Prod.fst, (key == "Type") = false →
          key ∉ (passed true (Value.typeFirstEntries entries)).map Prod.fst := by
        intro key _ other found
        obtain ⟨entry, member, rfl⟩ := List.mem_map.mp found
        have kept := (List.mem_filter.mp member).2
        rw [other] at kept
        cases kept
      refine (pass.trans rfl (readsEntries false entries cooked.2 parts once stack _ middle
        last others apart fresh below)).whole ?_
      rw [resumeToken close (by simp) (by simp), List.nil_append, typeFirstPassed]
      rfl

theorem readsItems {admits : Binary64 → Prop} : ∀ items : List Value,
    Value.EveryItems (Value.Cooked admits) items → Value.KeyedItems items →
    ∀ outer done c stop, Spelled c (Value.tokensItems items) stop → Apart stop →
    outer.length < depthLimit →
    ReadsTo (.array done :: outer) c (Value.nestingItems items)
      (resume (.array ((Value.typeFirstItems items).reverse ++ done) :: outer) stop)
  | [], _, _, outer, done, c, stop, spelled, _, room => by
    cases spelled
    exact .now room rfl
  | v :: items, cooked, keyed, outer, done, c, stop, spelled, apart, room => by
    obtain ⟨middle, head, tail⟩ := Spelled.split spelled
    have first := readsValue v cooked.1 keyed.1 (.array done :: outer) c middle head
      (apartItems tail apart) rfl room
    have behind := readsItems items cooked.2 keyed.2 outer (v.typeFirst :: done) middle stop
      tail apart room
    refine (ReadsTo.trans first rfl behind).whole ?_
    rw [Value.typeFirstItems, List.reverse_cons, List.append_assoc, List.singleton_append]

theorem readsEntries {admits : Binary64 → Prop} (typeEntry : Bool) : ∀ entries : Entries,
    Value.EveryEntries (Value.Cooked admits) entries → Value.KeyedEntries entries →
    (entries.map Prod.fst).Nodup →
    ∀ outer done c stop, Spelled c (Value.tokensEntries typeEntry entries) stop → Apart stop →
    (∀ key ∈ entries.map Prod.fst, (key == "Type") = typeEntry → key ∉ done.map Prod.fst) →
    outer.length < depthLimit →
    ReadsTo (.dict done :: outer) c (Value.nestingEntries (passed typeEntry entries))
      (resume (.dict (done ++ passed typeEntry (Value.typeFirstEntries entries)) :: outer) stop)
  | [], _, _, _, outer, done, c, stop, spelled, _, _, room => by
    cases spelled
    simp only [Value.typeFirstEntries, passed, List.filter_nil, List.append_nil]
    exact .now room rfl
  | (key, v) :: entries, cooked, keyed, once, outer, done, c, stop, spelled, apart, fresh, room => by
    obtain ⟨new, rest⟩ := List.nodup_cons.mp once
    rw [Value.tokensEntries] at spelled
    by_cases taken : (key == "Type") = typeEntry
    · rw [if_pos taken] at spelled
      cases spelled with
      | @cons _ first _ _ _ name _ tail =>
        obtain ⟨middle, head, tail⟩ := Spelled.split tail
        have value := readsValue v cooked.1 keyed.1 (.entry key done :: outer) first middle
          head (apartEntries tail apart) rfl room
        have appended : Entries.put key v.typeFirst done = done ++ [(key, v.typeFirst)] :=
          Entries.putNew (fresh key (by simp) taken)
        rw [deliver, appended] at value
        have behind := readsEntries typeEntry entries cooked.2 keyed.2 rest outer
          (done ++ [(key, v.typeFirst)]) middle stop tail apart (by
            intro other member flagged found
            rw [List.map_append, List.mem_append, List.map_singleton, List.mem_singleton] at found
            rcases found with old | same
            · exact fresh other (by simp [member]) flagged old
            · subst same; exact new member) room
        rw [Value.typeFirstEntries, passedTaken taken, passedTaken taken]
        refine (ReadsTo.before (resumeName name done outer) rfl
          (ReadsTo.trans value rfl behind)).whole ?_
        rw [List.append_assoc, List.singleton_append]
    · rw [if_neg taken] at spelled
      rw [Value.typeFirstEntries, passedOver taken, passedOver taken]
      exact readsEntries typeEntry entries cooked.2 keyed.2 rest outer done c stop spelled
        apart (fun other member => fresh other (by simp [member])) room

end

end PdfBody.Parser
