import PdfBody.Proofs.Value.Recast
import PdfBody.Proofs.Text.SixPlaces

/-! The tokens a written value is cut into, in either layout and in front of any text that does not
go on with a regular octet. The white space of a layout belongs to the token behind it. A real may
be cut into the tokens of another value, or be refused, which is then all that becomes of the text. -/
namespace PdfBody

inductive Spelled : Cursor → List Token → Cursor → Prop where
  | nil (c : Cursor) : Spelled c [] c
  | cons {c middle stop : Cursor} {t : Token} {ts : List Token}
      (read : Lexer.next c = (.ok t, middle)) (more : t ≠ .done)
      (tail : Spelled middle ts stop) : Spelled c (t :: ts) stop

theorem Spelled.append {c middle stop : Cursor} {ts us : List Token}
    (first : Spelled c ts middle) (second : Spelled middle us stop) :
    Spelled c (ts ++ us) stop := by
  induction first with
  | nil => exact second
  | cons read more _ ih => exact .cons read more (ih second)

def Spells (text : Bytes) (ts : List Token) (rest : Bytes) : Prop :=
  ∀ position, Spelled ⟨position, text ++ rest⟩ ts ⟨position + text.length, rest⟩

namespace Spells

theorem one {text rest : Bytes} {t : Token} (more : t ≠ .done)
    (read : ∀ position,
      Lexer.next ⟨position, text ++ rest⟩ = (.ok t, ⟨position + text.length, rest⟩)) :
    Spells text [t] rest := fun position => .cons (read position) more (.nil _)

theorem append {text behind rest : Bytes} {ts us : List Token} (first : Spells text ts (behind ++ rest))
    (second : Spells behind us rest) : Spells (text ++ behind) (ts ++ us) rest := by
  intro position
  have joined := (first position).append (second (position + text.length))
  rwa [List.append_assoc, List.length_append, ← Nat.add_assoc]

theorem blank {blank text rest : Bytes} {ts : List Token} (spaces : Lexer.Blank blank)
    (some : ts ≠ []) (spells : Spells text ts rest) : Spells (blank ++ text) ts rest := by
  intro position
  have spelled := spells (position + blank.length)
  rw [List.append_assoc, List.length_append, ← Nat.add_assoc]
  cases ts with
  | nil => contradiction
  | cons t ts =>
    cases spelled with
    | cons read more tail => exact .cons ((Lexer.nextBlank spaces _ _).trans read) more tail

end Spells

inductive Faults : Cursor → Prop where
  | now {c stop : Cursor} {fault : Fault} (read : Lexer.next c = (.error fault, stop)) : Faults c
  | stray {c stop : Cursor} {letter : String} (read : Lexer.next c = (.ok (.word letter), stop))
      (other : letter ≠ "R") : Faults c
  | later {c stop : Cursor} {t : Token} (read : Lexer.next c = (.ok t, stop)) (more : t ≠ .done)
      (tail : Faults stop) : Faults c

namespace Faults

theorem behind {c stop : Cursor} {ts : List Token} (spelled : Spelled c ts stop)
    (faults : Faults stop) : Faults c := by
  induction spelled with
  | nil => exact faults
  | cons read more _ ih => exact .later read more (ih faults)

theorem blank {blank text : Bytes} (spaces : Lexer.Blank blank) {position : Nat}
    (faults : Faults ⟨position + blank.length, text⟩) : Faults ⟨position, blank ++ text⟩ := by
  have same := Lexer.nextBlank spaces position text
  cases faults with
  | now read => exact .now (same.trans read)
  | stray read other => exact .stray (same.trans read) other
  | later read more tail => exact .later (same.trans read) more tail

end Faults

structure Cuts (good : Prop) (text : Bytes) (ts : List Token) (rest : Bytes) : Prop where
  spells : good → Spells text ts rest
  faults : ¬ good → ∀ position, Faults ⟨position, text ++ rest⟩

namespace Cuts

variable {good more : Prop} {text behind rest : Bytes} {ts us : List Token}

theorem always (spells : Spells text ts rest) : Cuts True text ts rest :=
  ⟨fun _ => spells, fun never => absurd trivial never⟩

theorem iff (cuts : Cuts good text ts rest) (same : good ↔ more) : Cuts more text ts rest :=
  ⟨fun holds => cuts.spells (same.mpr holds), fun fails => cuts.faults (mt same.mp fails)⟩

theorem append (first : Cuts good text ts (behind ++ rest)) (second : Cuts more behind us rest) :
    Cuts (good ∧ more) (text ++ behind) (ts ++ us) rest := by
  refine ⟨fun ⟨good, more⟩ => (first.spells good).append (second.spells more),
    fun fails position => ?_⟩
  rw [List.append_assoc]
  by_cases holds : good
  · exact .behind (first.spells holds position)
      (second.faults (fun holdsToo => fails ⟨holds, holdsToo⟩) _)
  · exact first.faults holds position

theorem blank {blank : Bytes} (spaces : Lexer.Blank blank) (some : ts ≠ [])
    (cuts : Cuts good text ts rest) : Cuts good (blank ++ text) ts rest := by
  refine ⟨fun holds => .blank spaces some (cuts.spells holds), fun fails position => ?_⟩
  rw [List.append_assoc]
  exact .blank spaces (cuts.faults fails _)

end Cuts

namespace Value

mutual

def tokens : Value → List Token
  | null => [.null]
  | bool b => [.bool b]
  | int n => [.int n]
  | real x => [.real x]
  | ref id =>
    [.int (Int64.ofNat id.number.toNat), .int (Int64.ofNat id.generation.toNat), .word "R"]
  | str bytes hex => [Lexer.stringToken bytes hex]
  | name text => [.name (Utf8.encode text)]
  | raw _ => []
  | arr items => .arrOpen :: (tokensItems items ++ [.arrClose])
  | dict entries =>
    .dictOpen :: (tokensEntries true entries ++ (tokensEntries false entries ++ [.dictClose]))

def tokensItems : List Value → List Token
  | [] => []
  | v :: rest => tokens v ++ tokensItems rest

def tokensEntries (typeEntry : Bool) : List (String × Value) → List Token
  | [] => []
  | (key, v) :: rest =>
    if (key == "Type") = typeEntry then
      .name (Utf8.encode key) :: (tokens v ++ tokensEntries typeEntry rest)
    else tokensEntries typeEntry rest

end

def Legible (layout : Layout) : Value → Prop
  | raw _ => False
  | real x =>
    match layout with
    | .compact => False
    | .clean => Lexer.ReadsBack x
  | _ => True

theorem blankNil : Lexer.Blank [] := fun _ found => absurd found List.not_mem_nil

structure Separator (layout : Layout) (text : Bytes) : Prop where
  blank : Lexer.Blank text
  apart : layout = .clean → text ≠ []

theorem chosenSeparator (layout : Layout) {word : String}
    (blank : Lexer.Blank (Bytes.ascii word)) (some : Bytes.ascii word ≠ []) :
    Separator layout (layout.choose "" word) := by
  cases layout with
  | compact => exact ⟨blankNil, by simp⟩
  | clean => exact ⟨blank, fun _ => some⟩

theorem spaceSeparator (layout : Layout) : Separator layout (layout.choose "" " ") :=
  chosenSeparator layout Lexer.blankSpace (by decide)

theorem lineSeparator (layout : Layout) : Separator layout (layout.choose "" "\n") :=
  chosenSeparator layout Lexer.blankLine (by decide)

theorem stopsSpace {b : UInt8} (space : Bytes.isSpace b = true) (rest : Bytes) :
    Stops Bytes.isRegular (b :: rest) := by
  simp [Stops, Bytes.isRegular, space]

theorem stopsBlank (rest : Bytes) : Stops Bytes.isRegular (0x20 :: rest) :=
  stopsSpace (by decide) rest

theorem stopsSeparated {layout : Layout} {sep text : Bytes} (separator : Separator layout sep)
    (stops : layout = .compact → Stops Bytes.isRegular text) :
    Stops Bytes.isRegular (sep ++ text) := by
  cases sep with
  | nil =>
    cases layout with
    | compact => exact stops rfl
    | clean => exact absurd rfl (separator.apart rfl)
  | cons b sep => exact stopsSpace (separator.blank b (by simp)) _

theorem bareBlank (layout : Layout) (word : String) :
    ∃ blank, Lexer.Blank blank ∧ layout.bare word = blank ++ Bytes.ascii word := by
  cases layout with
  | compact => exact ⟨[0x20], Lexer.blankSpace, rfl⟩
  | clean => exact ⟨[], blankNil, rfl⟩

theorem legibleCooked {layout : Layout} {v : Value} (legible : v.Every (Legible layout)) :
    v.Every (Cooked fun x => Legible layout (real x)) := by
  refine everyWeaker (fun v part => ?_) legible
  cases v with
  | raw _ => exact part
  | real _ => exact part
  | _ => trivial

variable {admits good : Binary64 → Prop} {f : Binary64 → Value}

theorem stopsCompact {v : Value} (cooked : v.Every (Cooked admits)) (text : Bytes) :
    Stops Bytes.isRegular (v.write .compact ++ text) := by
  have bare (word : String) : Stops Bytes.isRegular (Layout.compact.bare word ++ text) :=
    stopsBlank _
  cases v with
  | null => rw [write]; exact bare _
  | bool b => rw [write]; exact bare _
  | int n => rw [write]; exact bare _
  | real x => rw [write]; exact bare _
  | ref id => rw [write]; exact bare _
  | str bytes hex =>
    cases hex with
    | false => exact (by decide : Bytes.isRegular 0x28 = false)
    | true => exact (by decide : Bytes.isRegular 0x3C = false)
  | name text => exact (by decide : Bytes.isRegular 0x2F = false)
  | raw bytes => exact absurd cooked id
  | arr items => rw [write]; exact (by decide : Bytes.isRegular 0x5B = false)
  | dict entries => rw [write]; exact (by decide : Bytes.isRegular 0x3C = false)

theorem stopsName (name : String) (text : Bytes) :
    Stops Bytes.isRegular (writeName name ++ text) := (by decide : Bytes.isRegular 0x2F = false)

theorem stopsItems {layout : Layout} {items : List Value} (cooked : EveryItems (Cooked admits) items)
    {text : Bytes} (stops : Stops Bytes.isRegular text) (compact : layout = .compact) (place : Nat) :
    Stops Bytes.isRegular (writeItems layout place items ++ text) := by
  subst compact
  cases items with
  | nil => exact stops
  | cons v rest =>
    rw [writeItems, List.append_assoc]
    exact stopsCompact cooked.1 _

theorem stopsEntries {layout : Layout} {text : Bytes} (stops : Stops Bytes.isRegular text)
    (typeEntry : Bool) (entries : List (String × Value)) :
    Stops Bytes.isRegular (writeEntries layout typeEntry entries ++ text) := by
  induction entries with
  | nil => exact stops
  | cons entry rest ih =>
    obtain ⟨key, v⟩ := entry
    rw [writeEntries]
    split
    · rw [List.append_assoc]; exact stopsName key _
    · exact ih

theorem spelledReference (id : ObjId) {rest : Bytes} (stops : Stops Bytes.isRegular rest) :
    Spells (Bytes.ascii id.text) (ref id).tokens rest := by
  have numberSmall : id.number.toNat ≤ 0xFFFFFFFF := by have := id.number.toNat_lt; omega
  have generationSmall : id.generation.toNat ≤ 0xFFFFFFFF := by
    have := id.generation.toNat_lt; omega
  have text : Bytes.ascii id.text = Bytes.decimal id.number.toNat ++
      ([0x20] ++ Bytes.decimal id.generation.toNat ++ ([0x20] ++ [0x52])) := by
    have spelled : id.text = toString id.number.toNat ++ (" " ++ toString id.generation.toNat ++
        (" " ++ "R")) := by
      simp [ObjId.text, String.append_assoc]; rfl
    simp only [spelled, Bytes.asciiAppend]
    rfl
  have number : Spells (Bytes.decimal id.number.toNat) [.int (Int64.ofNat id.number.toNat)]
      ([0x20] ++ Bytes.decimal id.generation.toNat ++ ([0x20] ++ [0x52]) ++ rest) :=
    .one (by simp) (Lexer.nextNatural numberSmall (stopsBlank _))
  have generation : Spells (Bytes.decimal id.generation.toNat)
      [.int (Int64.ofNat id.generation.toNat)] ([0x20] ++ [0x52] ++ rest) :=
    .one (by simp) (Lexer.nextNatural generationSmall (stopsBlank _))
  have letter : Spells [0x52] [.word "R"] rest := .one (by simp) (Lexer.nextLetterR stops)
  rw [text]
  exact number.append ((Spells.blank Lexer.blankSpace (by simp) generation).append
    (.blank Lexer.blankSpace (by simp) letter))

structure RealsCut (layout : Layout) (admits good : Binary64 → Prop) (f : Binary64 → Value) :
    Prop where
  some : ∀ x, (f x).tokens ≠ []
  cuts : ∀ x, admits x → ∀ rest, Stops Bytes.isRegular rest →
    Cuts (good x) (layout.bare (writeReal layout x)) (f x).tokens rest

theorem tokensSome (some : ∀ x, (f x).tokens ≠ []) {v : Value} (cooked : v.Every (Cooked admits)) :
    (v.recast f).tokens ≠ [] := by
  cases v with
  | raw bytes => exact absurd cooked id
  | real x => exact some x
  | _ => simp [recast, tokens]

theorem spelledBare (layout : Layout) {word : String} {t : Token} {rest : Bytes} (more : t ≠ .done)
    (read : ∀ position, Lexer.next ⟨position, Bytes.ascii word ++ rest⟩ =
      (.ok t, ⟨position + (Bytes.ascii word).length, rest⟩)) :
    Spells (layout.bare word) [t] rest := by
  obtain ⟨blank, spaces, spelled⟩ := bareBlank layout word
  rw [spelled]
  exact .blank spaces (by simp) (.one more read)

theorem spelledName (name : String) {rest : Bytes} (stops : Stops Bytes.isRegular rest) :
    Spells (writeName name) [.name (Utf8.encode name)] rest :=
  .one (by simp) (Lexer.nextName name stops)

theorem itemSeparator (layout : Layout) (place : Nat) :
    Separator layout (layout.choose "" (if place % 10 = 0 then "\n" else " ")) := by
  split
  · exact lineSeparator layout
  · exact spaceSeparator layout

def CookedPassed (admits : Binary64 → Prop) (typeEntry : Bool) (entries : Entries) : Prop :=
  ∀ entry ∈ entries, (entry.1 == "Type") = typeEntry → entry.2.Every (Cooked admits)

theorem passedBoth {entries : Entries} :
    CookedPassed admits true entries ∧ CookedPassed admits false entries ↔
      EveryEntries (Cooked admits) entries := by
  rw [everyEntryIff]
  refine ⟨fun ⟨typed, others⟩ entry member => ?_, fun every =>
    ⟨fun entry member _ => every entry member, fun entry member _ => every entry member⟩⟩
  cases flagged : entry.1 == "Type" with
  | true => exact typed entry member flagged
  | false => exact others entry member flagged

theorem passedCons {typeEntry : Bool} {key : String} {v : Value} {entries : Entries} :
    CookedPassed admits typeEntry ((key, v) :: entries) ↔
      ((key == "Type") = typeEntry → v.Every (Cooked admits)) ∧
        CookedPassed admits typeEntry entries := by
  simp only [CookedPassed, List.forall_mem_cons]

mutual

theorem cutValue {layout : Layout} (reals : RealsCut layout admits good f) :
    ∀ v : Value, v.Every (Cooked admits) → ∀ rest, Stops Bytes.isRegular rest →
    Cuts (v.Every (Cooked good)) (v.write layout) (v.recast f).tokens rest
  | null, _, _, stops => by
    rw [write]
    exact .always (spelledBare layout (by simp) (Lexer.nextNull stops))
  | bool b, _, _, stops => by
    rw [write]
    exact .always (spelledBare layout (by simp) (Lexer.nextBool b stops))
  | int n, _, _, stops => by
    rw [write]
    exact .always (spelledBare layout (by simp) (Lexer.nextInt n stops))
  | real x, admitted, rest, stops => by
    rw [write]
    exact reals.cuts x admitted rest stops
  | ref id, _, rest, stops => by
    obtain ⟨blank, spaces, spelled⟩ := bareBlank layout id.text
    rw [write, spelled]
    exact .always (.blank spaces (by simp [recast, tokens]) (spelledReference id stops))
  | str bytes hex, _, rest, _ => by
    rw [write]
    refine .always (.one ?_ (Lexer.nextString bytes hex rest))
    cases hex <;> simp [Lexer.stringToken]
  | name text, _, _, stops => by
    rw [write]
    exact .always (spelledName text stops)
  | raw _, cooked, _, _ => absurd cooked id
  | arr items, cooked, rest, _ => by
    have close (blank : Bytes) (spaces : Lexer.Blank blank) :
        Cuts True (blank ++ Bytes.ascii "]") [.arrClose] rest :=
      .always (.blank spaces (by simp) (.one (by simp) fun _ => rfl))
    have inside (blank : Bytes) (spaces : Lexer.Blank blank) :=
      cutItems reals items cooked.2 1 blank (Bytes.ascii "]") [.arrClose] rest True spaces close
        (by decide : Bytes.isRegular 0x5D = false)
    have opened (rest : Bytes) : Cuts True [0x5B] [.arrOpen] rest :=
      .always (.one (by simp) fun _ => rfl)
    rw [write, recast, tokens]
    have whole : True ∧ EveryItems (Cooked good) items ∧ True ↔ (arr items).Every (Cooked good) :=
      by rw [and_true]; exact Iff.rfl
    cases layout with
    | compact => exact ((opened _).append (inside [] blankNil)).iff whole
    | clean => exact ((opened _).append (inside [0x20] Lexer.blankSpace)).iff whole
  | dict entries, cooked, rest, _ => by
    have close (blank : Bytes) (spaces : Lexer.Blank blank) :
        Cuts True (blank ++ Bytes.ascii ">>") [.dictClose] rest :=
      .always (.blank spaces (by simp) (.one (by simp) fun _ => rfl))
    have closed : Stops Bytes.isRegular (Bytes.ascii ">>" ++ rest) :=
      (by decide : Bytes.isRegular 0x3E = false)
    have others (blank : Bytes) (spaces : Lexer.Blank blank) :=
      cutEntries reals false entries cooked.2 blank (Bytes.ascii ">>") [.dictClose] rest True
        spaces close closed
    have inside (blank : Bytes) (spaces : Lexer.Blank blank) :=
      cutEntries reals true entries cooked.2 blank _ _ rest _ spaces others
        (by rw [List.append_assoc]; exact stopsEntries closed false entries)
    have opened (rest : Bytes) : Cuts True [0x3C, 0x3C] [.dictOpen] rest :=
      .always (.one (by simp) fun _ => rfl)
    rw [write, recast, tokens]
    have whole : True ∧ CookedPassed good true entries ∧ CookedPassed good false entries ∧ True ↔
        (dict entries).Every (Cooked good) := by
      rw [and_true, passedBoth]
      exact Iff.rfl
    cases layout with
    | compact => exact ((opened _).append (inside [] blankNil)).iff whole
    | clean => exact ((opened _).append (inside [0x0A] Lexer.blankLine)).iff whole

theorem cutItems {layout : Layout} (reals : RealsCut layout admits good f) :
    ∀ items : List Value, EveryItems (Cooked admits) items →
    ∀ place blank text ts rest more, Lexer.Blank blank →
    (∀ blank, Lexer.Blank blank → Cuts more (blank ++ text) ts rest) →
    Stops Bytes.isRegular (text ++ rest) →
    Cuts (EveryItems (Cooked good) items ∧ more) (blank ++ (writeItems layout place items ++ text))
      (tokensItems (recastItems f items) ++ ts) rest
  | [], _, place, blank, text, ts, rest, more, spaces, behind, _ =>
    (behind blank spaces).iff (iff_of_eq (true_and more)).symm
  | v :: items, cooked, place, blank, text, ts, rest, more, spaces, behind, stops => by
    have sep := itemSeparator layout place
    have tail := cutItems reals items cooked.2 (place + 1) _ text ts rest more sep.blank behind stops
    have head := cutValue reals v cooked.1
      (layout.choose "" (if place % 10 = 0 then "\n" else " ") ++
        (writeItems layout (place + 1) items ++ text) ++ rest) (by
          rw [List.append_assoc, List.append_assoc]
          exact stopsSeparated sep fun compact => stopsItems cooked.2 stops compact _)
    rw [writeItems, recastItems, tokensItems, List.append_assoc, List.append_assoc,
      List.append_assoc]
    exact (Cuts.blank spaces (by simp [tokensSome reals.some cooked.1])
      (head.append tail)).iff and_assoc.symm

theorem cutEntries {layout : Layout} (reals : RealsCut layout admits good f) (typeEntry : Bool) :
    ∀ entries : List (String × Value), EveryEntries (Cooked admits) entries →
    ∀ blank text ts rest more, Lexer.Blank blank →
    (∀ blank, Lexer.Blank blank → Cuts more (blank ++ text) ts rest) →
    Stops Bytes.isRegular (text ++ rest) →
    Cuts (CookedPassed good typeEntry entries ∧ more)
      (blank ++ (writeEntries layout typeEntry entries ++ text))
      (tokensEntries typeEntry (recastEntries f entries) ++ ts) rest
  | [], _, blank, text, ts, rest, more, spaces, behind, _ =>
    (behind blank spaces).iff (by simp [CookedPassed])
  | (key, v) :: entries, cooked, blank, text, ts, rest, more, spaces, behind, stops => by
    rw [writeEntries, recastEntries, tokensEntries]
    split
    · next taken =>
      have colon := spaceSeparator layout
      have sep := lineSeparator layout
      have tail := cutEntries reals typeEntry entries cooked.2 _ text ts rest more sep.blank behind
        stops
      have head := cutValue reals v cooked.1 (layout.choose "" "\n" ++
        (writeEntries layout typeEntry entries ++ text) ++ rest) (by
          rw [List.append_assoc, List.append_assoc]
          exact stopsSeparated sep fun _ => stopsEntries stops typeEntry entries)
      have value := Cuts.blank colon.blank (by simp [tokensSome reals.some cooked.1])
        (head.append tail)
      have name : Spells (writeName key) [.name (Utf8.encode key)]
          (layout.choose "" " " ++ (v.write layout ++ (layout.choose "" "\n" ++
            (writeEntries layout typeEntry entries ++ text))) ++ rest) := by
        refine spelledName key ?_
        rw [List.append_assoc]
        refine stopsSeparated colon fun compact => ?_
        subst compact
        rw [List.append_assoc]
        exact stopsCompact cooked.1 _
      have same : True ∧ v.Every (Cooked good) ∧ CookedPassed good typeEntry entries ∧ more ↔
          CookedPassed good typeEntry ((key, v) :: entries) ∧ more := by
        rw [passedCons, true_and, and_assoc, forall_prop_of_true taken]
      simp only [List.append_assoc, List.cons_append]
      exact (Cuts.blank spaces (by simp) ((Cuts.always name).append value)).iff same
    · next other =>
      have same : CookedPassed good typeEntry entries ∧ more ↔
          CookedPassed good typeEntry ((key, v) :: entries) ∧ more := by
        rw [passedCons, forall_prop_of_false other, true_and]
      exact (cutEntries reals typeEntry entries cooked.2 blank text ts rest more spaces behind
        stops).iff same

end

theorem legibleReals (layout : Layout) :
    RealsCut layout (fun x => Legible layout (real x)) (fun _ => True) real := by
  refine ⟨fun x => by simp [tokens], fun x legible rest stops => .always ?_⟩
  cases layout with
  | compact => exact absurd legible id
  | clean =>
    have back : Lexer.ReadsBack x := legible
    exact spelledBare .clean (by simp)
      (Lexer.nextReal back (stops.of fun _ digit => (Bytes.digitRegular digit).1))

theorem spelledValue {layout : Layout} {v : Value} (legible : v.Every (Legible layout))
    {rest : Bytes} (stops : Stops Bytes.isRegular rest) : Spells (v.write layout) v.tokens rest := by
  have cut := cutValue (legibleReals layout) v (legibleCooked legible) rest stops
  rw [recastSame] at cut
  exact cut.spells (cookedWeaker (fun _ _ => trivial) (legibleCooked legible))

end Value
end PdfBody
