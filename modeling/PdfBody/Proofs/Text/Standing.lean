import PdfBody.Proofs.Text.Parsed
import PdfBody.Proofs.Text.Comments

/-! Tokens that spell a value wherever one stands. A run of tokens that is a value on its own is the
same value inside open containers, as far as the limit leaves room for the containers it opens. -/
namespace PdfBody.Parser

def Loose : List Token → Prop
  | .word _ :: _ | .int _ :: .word _ :: _ => False
  | _ => True

def openAfter (opened : Nat) : Token → Nat
  | .arrOpen | .dictOpen => opened + 1
  | .arrClose | .dictClose => opened - 1
  | _ => opened

def deepest (opened : Nat) : List Token → Nat
  | [] => opened
  | t :: more => max opened (deepest (openAfter opened t) more)

theorem deepestLeast (opened : Nat) (ts : List Token) : opened ≤ deepest opened ts := by
  cases ts with
  | nil => exact Nat.le_refl opened
  | cons t more => exact Nat.le_max_left _ _

def Turn.inside (base : List Frame) : Turn → Turn
  | .stop (.ok v) => deliver v base
  | .stop (.error fault) => .stop (.error fault)
  | .go stack => .go (stack ++ base)

theorem deliverInside (v : Value) (stack base : List Frame) :
    deliver v (stack ++ base) = (deliver v stack).inside base := by
  cases stack with
  | nil => rfl
  | cons frame outer => cases frame <;> rfl

theorem deliverLength {v : Value} {stack next : List Frame} (delivered : deliver v stack = .go next) :
    next.length = stack.length := by
  cases stack with
  | nil => cases delivered
  | cons frame outer =>
    cases frame <;> cases delivered <;> rfl

theorem awaitsInside {base : List Frame} (ready : awaitsValue base = true) (stack : List Frame) :
    awaitsValue (stack ++ base) = awaitsValue stack := by
  cases stack with
  | nil => exact ready
  | cons frame outer => cases frame <;> rfl

section

variable {base stack : List Frame} {t : Token}

structure Within (base stack : List Frame) (t : Token) (alone turn : Turn) : Prop where
  fits : base.length + openAfter stack.length t ≤ depthLimit → turn = alone.inside base
  full : depthLimit < base.length + openAfter stack.length t →
    ∃ fault, turn = .stop (.error fault)

theorem roomWithin {alone turn : Turn} (room : base.length + stack.length ≤ depthLimit)
    (opens : openAfter stack.length t ≤ stack.length) (same : turn = alone.inside base) :
    Within base stack t alone turn :=
  ⟨fun _ => same, fun full => by omega⟩

theorem enterWithin {frame : Frame} (opens : openAfter stack.length t = stack.length + 1)
    (taken : ∀ fault, enter 0 stack frame ≠ .stop (.error fault)) :
    Within base stack t (enter 0 stack frame) (enter 0 (stack ++ base) frame) := by
  unfold enter at taken ⊢
  rw [List.length_append]
  split at taken
  · exact absurd rfl (taken _)
  · next free =>
    rw [if_neg free]
    split
    · exact ⟨fun fits => by omega, fun _ => ⟨_, rfl⟩⟩
    · exact ⟨fun _ => rfl, fun full => by omega⟩

theorem beginWithin (room : base.length + stack.length ≤ depthLimit)
    (taken : ∀ fault, beginValue 0 stack t ≠ .stop (.error fault)) :
    Within base stack t (beginValue 0 stack t) (beginValue 0 (stack ++ base) t) := by
  cases t with
  | arrOpen | dictOpen => exact enterWithin rfl taken
  | arrClose | dictClose | word | comment | done => exact absurd rfl (taken _)
  | _ => exact roomWithin room (Nat.le_refl _) (deliverInside _ stack base)

theorem takeWithin (ready : awaitsValue base = true)
    (room : base.length + stack.length ≤ depthLimit)
    (taken : ∀ fault, take 0 stack t ≠ .stop (.error fault)) :
    Within base stack t (take 0 stack t) (take 0 (stack ++ base) t) := by
  have commented (bytes : Bytes) : Within base stack (.comment bytes)
      (take 0 stack (.comment bytes)) (take 0 (stack ++ base) (.comment bytes)) := by
    rw [takeComment, takeComment]
    exact roomWithin room (Nat.le_refl _) rfl
  cases stack with
  | nil =>
    have begun (within : t ≠ .arrClose) (more : t ≠ .done) (plain : ∀ bytes, t ≠ .comment bytes) :
        Within base [] t (take 0 [] t) (take 0 base t) := by
      have alone : take 0 [] t = beginValue 0 [] t := takeValue rfl within more plain 0
      rw [takeValue ready within more plain]
      rw [alone] at taken ⊢
      exact beginWithin room taken
    cases t with
    | comment bytes => exact commented bytes
    | arrClose | done => exact absurd rfl (taken _)
    | _ => exact begun nofun nofun nofun
  | cons frame outer =>
    have closes : outer.length + 1 - 1 ≤ outer.length + 1 := Nat.sub_le _ 1
    cases frame with
    | array items =>
      cases t with
      | comment bytes => exact commented bytes
      | arrClose => exact roomWithin room closes (deliverInside _ outer base)
      | done => exact absurd rfl (taken _)
      | _ => exact beginWithin room taken
    | dict entries =>
      cases t with
      | comment bytes => exact commented bytes
      | dictClose => exact roomWithin room closes (deliverInside _ outer base)
      | name bytes => exact roomWithin room (Nat.le_refl _) rfl
      | _ => exact absurd rfl (taken _)
    | entry key entries =>
      cases t with
      | comment bytes => exact commented bytes
      | _ => exact beginWithin room taken

theorem beginLength {next : List Frame} (taken : beginValue 0 stack t = .go next) :
    next.length = openAfter stack.length t := by
  have entered {frame : Frame} (went : enter 0 stack frame = .go next) :
      next.length = stack.length + 1 := by
    unfold enter at went
    split at went <;> cases went
    rfl
  cases t with
  | arrOpen | dictOpen => exact entered taken
  | arrClose | dictClose | word | comment | done => cases taken
  | _ => exact deliverLength taken

theorem takeLength {next : List Frame} (taken : take 0 stack t = .go next) :
    next.length = openAfter stack.length t := by
  have commented {bytes : Bytes} (went : take 0 stack (.comment bytes) = .go next) :
      next.length = stack.length := by
    rw [takeComment] at went
    cases went
    rfl
  cases stack with
  | nil =>
    cases t with
    | comment bytes => exact commented taken
    | _ => exact beginLength taken
  | cons frame outer =>
    cases frame with
    | array items =>
      cases t with
      | comment bytes => exact commented taken
      | arrClose => exact deliverLength taken
      | done => cases taken
      | _ => exact beginLength taken
    | dict entries =>
      cases t with
      | comment bytes => exact commented taken
      | dictClose => exact deliverLength taken
      | name bytes => cases taken; rfl
      | _ => cases taken
    | entry key entries =>
      cases t with
      | comment bytes => exact commented taken
      | _ => exact beginLength taken

end

theorem referredInside {base : List Frame} (ready : awaitsValue base = true) (stack : List Frame)
    (ts : List Token) : referred? (stack ++ base) ts = referred? stack ts := by
  unfold referred?
  rw [awaitsInside ready]

theorem referredBehind {ts us : List Token} (some : ts ≠ []) (loose : Loose us)
    (stack : List Frame) : referred? stack (ts ++ us) = referred? stack ts := by
  -- a reference is three tokens, so the cases are those where one or two are in front
  rcases ts with _ | ⟨t, _ | ⟨s, _ | ⟨r, rest⟩⟩⟩
  · contradiction
  · cases t with
    | int n =>
      rcases us with _ | ⟨u, _ | ⟨w, rest⟩⟩
      · rfl
      · cases u <;> rfl
      · cases u with
        | int g =>
          cases w with
          | word letter => exact loose.elim
          | _ => rfl
        | _ => rfl
    | _ => rfl
  · cases t with
    | int n =>
      cases s with
      | int g =>
        rcases us with _ | ⟨w, rest⟩
        · rfl
        · cases w with
          | word letter => exact loose.elim
          | _ => rfl
      | _ => rfl
    | _ => rfl
  · cases t with
    | int n =>
      cases s with
      | int g => cases r <;> rfl
      | _ => rfl
    | _ => rfl

theorem deepestReference (opened : Nat) (n g : Int64) (letter : String) (rest : List Token) :
    deepest opened (.int n :: .int g :: .word letter :: rest) = deepest opened rest := by
  have least := deepestLeast opened rest
  simp only [deepest, openAfter]
  omega

theorem readInside {base stack : List Frame} {ts us : List Token} {v : Value}
    (read : readTokens stack ts = some (v, [])) (ready : awaitsValue base = true)
    (loose : Loose us) (room : base.length + stack.length ≤ depthLimit) :
    readTokens (stack ++ base) (ts ++ us) =
      if base.length + deepest stack.length ts ≤ depthLimit then followTokens us (deliver v base)
      else none := by
  have referred {stack : List Frame} {t : Token} {more : List Token} :
      referred? (stack ++ base) (t :: (more ++ us)) = referred? stack (t :: more) :=
    (referredInside ready stack _).trans (referredBehind (List.cons_ne_nil t more) loose stack)
  fun_induction readTokens stack ts with
  | case1 => cases read
  | case2 stack t more id found outcome delivered =>
    obtain ⟨n, g, letter, rest, rfl, rfl⟩ := referredMade found
    cases outcome with
    | error fault => cases read
    | ok w =>
      cases read
      rw [List.cons_append, readReferred (referred.trans found), deliverInside, delivered,
        deepestReference, deepest, if_pos room]
      rfl
  | case3 stack t more id found next delivered ih =>
    obtain ⟨n, g, letter, rest, rfl, rfl⟩ := referredMade found
    have length := deliverLength delivered
    have behind := ih read (by rw [length]; exact room)
    rw [length] at behind
    rw [List.cons_append, readReferred (referred.trans found), deliverInside, delivered,
      deepestReference]
    exact behind
  | case4 stack t more alone outcome taken =>
    cases outcome with
    | error fault => cases read
    | ok w =>
      -- the token ends the value, so that none is left
      cases read
      have within := takeWithin ready room (fun fault => by rw [taken]; simp)
      have same : base.length + deepest stack.length [t] ≤ depthLimit ↔
          base.length + openAfter stack.length t ≤ depthLimit := by
        simp only [deepest]
        omega
      rw [List.cons_append, readAlone (referred.trans alone), if_congr same rfl rfl]
      split
      · next fits =>
        rw [within.fits fits, taken]
        rfl
      · next full =>
        obtain ⟨fault, refused⟩ := within.full (by omega)
        rw [refused]
        rfl
  | case5 stack t more alone next taken ih =>
    have within := takeWithin ready room (fun fault => by rw [taken]; simp)
    have length := takeLength taken
    rw [List.cons_append, readAlone (referred.trans alone), deepest]
    by_cases fits : base.length + openAfter stack.length t ≤ depthLimit
    · have behind := ih read (by rw [length]; exact fits)
      rw [length] at behind
      have same : base.length + max stack.length (deepest (openAfter stack.length t) more) ≤
          depthLimit ↔ base.length + deepest (openAfter stack.length t) more ≤ depthLimit := by
        omega
      rw [within.fits fits, taken, if_congr same rfl rfl]
      exact behind
    · -- refused for what the token opens, whatever the tokens left would open
      obtain ⟨fault, refused⟩ := within.full (by omega)
      have least := deepestLeast (openAfter stack.length t) more
      rw [refused, if_neg (by omega)]
      rfl

structure Reads (ts : List Token) (v : Value) (levels : Nat) : Prop where
  loose : ∀ us, Loose us → Loose (ts ++ us)
  reads : ∀ stack us, awaitsValue stack = true → Loose us → stack.length ≤ depthLimit →
    readTokens stack (ts ++ us) =
      if stack.length + levels ≤ depthLimit then followTokens us (deliver v stack) else none

theorem aloneReads {ts : List Token} {v : Value} (read : readTokens [] ts = some (v, [])) :
    Reads ts v (deepest 0 ts) := by
  refine ⟨fun us loose => ?_, fun stack us ready loose room => readInside read ready loose room⟩
  cases ts with
  | nil =>
    rw [readTokens] at read
    cases read
  | cons t more =>
    cases t with
    | word letter =>
      rw [wordStray (significantKept rfl more)] at read
      cases read
    | int n =>
      cases more with
      | nil =>
        cases us with
        | nil => trivial
        | cons u us => cases u <;> first | exact loose | trivial
      | cons s more =>
        cases s with
        | word letter =>
          rw [readAlone rfl] at read
          cases read
        | _ => trivial
    | _ => trivial

theorem significantPlain {ts : List Token} (plain : ∀ t ∈ ts, t.isComment = false) :
    significant ts = ts :=
  List.filter_eq_self.mpr fun t among => by rw [plain t among]; rfl

theorem splitsPlain {ts : List Token} (plain : ∀ t ∈ ts, t.isComment = false) :
    splits ts = false := by
  induction ts with
  | nil => rfl
  | cons t ts ih =>
    obtain ⟨-, others⟩ := List.forall_mem_cons.mp plain
    cases t with
    | int n => rw [splits, significantPlain others, Bool.and_not_self, Bool.false_or, ih others]
    | _ => exact ih others

theorem parsedReads {text : Bytes} {ts : List Token} {v : Value} (lexed : tokens text = .ok ts)
    (plain : ∀ t ∈ ts, t.isComment = false) (parsed : parse text = .ok v) :
    Reads ts v (deepest 0 ts) := by
  obtain ⟨left, read, ended⟩ := (parseTokens lexed v).mp parsed
  have whole := @readTokensSignificant [] ts (splitsPlain plain)
  rw [significantPlain plain, read, Option.map_some, ended] at whole
  exact aloneReads (read.trans whole)

theorem openReads {t : Token} {frame : Frame} {inside : List Token} {v : Value} {levels : Nat}
    (opens : t = .arrOpen ∧ frame = .array [] ∨ t = .dictOpen ∧ frame = .dict [])
    (reads : ∀ stack us, stack.length < depthLimit → readTokens (frame :: stack) (inside ++ us) =
      if stack.length + 1 + levels ≤ depthLimit then followTokens us (deliver v stack) else none) :
    Reads (t :: inside) v (levels + 1) := by
  refine ⟨fun us _ => ?_, fun stack us ready _ _ => ?_⟩
  · rcases opens with ⟨rfl, -⟩ | ⟨rfl, -⟩ <;> trivial
  · have entered : readTokens stack (t :: (inside ++ us)) =
        followTokens (inside ++ us) (enter 0 stack frame) := by
      rcases opens with ⟨rfl, rfl⟩ | ⟨rfl, rfl⟩
      · rw [readAlone (unreferred (by simp)), takeValue ready (by simp) (by simp) (by simp)]
        rfl
      · rw [readAlone (unreferred (by simp)), takeValue ready (by simp) (by simp) (by simp)]
        rfl
    rw [List.cons_append, entered, enter]
    split
    · rw [if_neg (by omega)]
      rfl
    · next free =>
      have within := reads stack us (by omega)
      rwa [Nat.add_assoc, Nat.add_comm 1] at within

section

variable {α : Type} {ts : α → List Token} {made : α → Value}

theorem readParts (frame : List α → Frame) (levels : α → Nat) {outer : List Frame} {items : List α}
    (loose : ∀ x ∈ items, ∀ us, Loose us → Loose (ts x ++ us))
    (step : ∀ front x back us, items = front ++ x :: back → Loose us →
      readTokens (frame front :: outer) (ts x ++ us) =
        if outer.length + 1 + levels x ≤ depthLimit then readTokens (frame (front ++ [x]) :: outer) us
        else none)
    {us : List Token} (behind : Loose us) :
    readTokens (frame [] :: outer) (items.flatMap ts ++ us) =
      if ∀ x ∈ items, outer.length + 1 + levels x ≤ depthLimit then
        readTokens (frame items :: outer) us
      else none := by
  suffices from_ : ∀ back front, items = front ++ back → Loose (back.flatMap ts ++ us) ∧
      readTokens (frame front :: outer) (back.flatMap ts ++ us) =
        if ∀ x ∈ back, outer.length + 1 + levels x ≤ depthLimit then
          readTokens (frame items :: outer) us
        else none from (from_ items [] rfl).2
  intro back
  induction back with
  | nil =>
    rintro front rfl
    rw [if_pos fun _ found => absurd found List.not_mem_nil, List.append_nil]
    exact ⟨behind, rfl⟩
  | cons x back ih =>
    intro front whole
    obtain ⟨looseBack, readBack⟩ := ih (front ++ [x]) (by rw [whole]; simp)
    have among : x ∈ items := by rw [whole]; simp
    rw [List.flatMap_cons, List.append_assoc, step front x back _ whole looseBack, readBack,
      if_congr List.forall_mem_cons rfl rfl]
    refine ⟨loose x among _ looseBack, ?_⟩
    split
    · next fits => exact if_congr (iff_of_eq (by simp only [fits, true_and])) rfl rfl
    · next full => rw [if_neg fun both => full both.1]

variable {levels : α → Nat}

theorem partsFit {items : List α} {most opened : Nat}
    (bounds : ∀ n, most ≤ n ↔ ∀ x ∈ items, levels x ≤ n) (room : opened ≤ depthLimit) :
    (∀ x ∈ items, opened + levels x ≤ depthLimit) ↔ opened + most ≤ depthLimit := by
  have all := bounds (depthLimit - opened)
  constructor
  · intro fits
    have := all.mpr fun x among => by have := fits x among; omega
    omega
  · intro fits x among
    have := all.mp (by omega) x among
    omega

theorem readsArray {items : List α} (each : ∀ x ∈ items, Reads (ts x) (made x) (levels x))
    {most : Nat} (bounds : ∀ n, most ≤ n ↔ ∀ x ∈ items, levels x ≤ n) :
    Reads (.arrOpen :: (items.flatMap ts ++ [.arrClose])) (.arr (items.map made)) (most + 1) := by
  refine openReads (.inl ⟨rfl, rfl⟩) fun stack us room => ?_
  rw [List.append_assoc]
  refine (readParts (fun front => .array (front.map made).reverse) levels
    (fun x among => (each x among).loose) (fun front x back us whole loose => ?_)
    (by trivial)).trans ?_
  · have among : x ∈ items := by rw [whole]; simp
    rw [(each x among).reads (.array (front.map made).reverse :: stack) us rfl loose room,
      List.map_append, List.reverse_append]
    rfl
  · rw [if_congr (partsFit bounds room) rfl rfl, List.singleton_append,
      readAlone (unreferred (by simp)), take, List.reverse_reverse]

theorem readsDict {entries : List α} {key : α → String}
    (each : ∀ x ∈ entries, Reads (ts x) (made x) (levels x)) (once : (entries.map key).Nodup)
    {most : Nat} (bounds : ∀ n, most ≤ n ↔ ∀ x ∈ entries, levels x ≤ n) :
    Reads (.dictOpen :: (entries.flatMap (fun x => .name (Utf8.encode (key x)) :: ts x) ++
      [.dictClose])) (.dict (entries.map fun x => (key x, made x))) (most + 1) := by
  refine openReads (.inr ⟨rfl, rfl⟩) fun stack us room => ?_
  rw [List.append_assoc]
  refine (readParts (fun front => .dict (front.map fun x => (key x, made x))) levels
    (fun _ _ _ _ => by trivial) (fun front x back us whole loose => ?_) (by trivial)).trans ?_
  · have among : x ∈ entries := by rw [whole]; simp
    have new : key x ∉ (front.map fun x => (key x, made x)).map Prod.fst := by
      rw [whole, List.map_append, List.map_cons] at once
      rw [List.map_map]
      exact fun old => (List.nodup_append.mp once).2.2 _ old _ List.mem_cons_self rfl
    have named : take 0 (.dict (front.map fun x => (key x, made x)) :: stack)
        (.name (Utf8.encode (key x))) =
          .go (.entry (key x) (front.map fun x => (key x, made x)) :: stack) := by
      rw [take, Utf8.decodeEncoded]
    rw [List.cons_append, readAlone (unreferred (by simp)), named, followTokens,
      (each x among).reads (.entry (key x) _ :: stack) us rfl loose room, deliver,
      Entries.putNew new, List.map_append]
    rfl
  · rw [if_congr (partsFit bounds room) rfl rfl, List.singleton_append,
      readAlone (unreferred (by simp)), take]

end

end PdfBody.Parser
