import PdfBody.Proofs.Text.Brief
import PdfBody.Proofs.Text.Tokens

/-! Compact texts read and written again. A text that the lexer refuses anywhere is no value. A text
that reads as a value is written again octet for octet, up to the signs of reals that have nothing
else left of them: an integer has no negative zero, so each of those makes the new text shorter. -/
namespace PdfBody
open PdfBody.Parser

namespace Parser

inductive Faulty : List Lexeme → Prop where
  | now (fault : Fault) (stop : Cursor) (more : List Lexeme) : Faulty (⟨.error fault, stop⟩ :: more)
  | stray {letter : String} (other : letter ≠ "R") (stop : Cursor) (more : List Lexeme) :
      Faulty (⟨.ok (.word letter), stop⟩ :: more)
  | later {lexeme : Lexeme} {more : List Lexeme} (behind : Faults lexeme.stop)
      (tail : Faulty more) : Faulty (lexeme :: more)

theorem Faulty.behind {t : Token} {stop : Cursor} {more : List Lexeme}
    (faulty : Faulty (⟨.ok t, stop⟩ :: more))
    (plain : ∀ letter, t = .word letter → letter = "R") :
    Faults stop ∧ Faulty more := by
  cases faulty with
  | stray other => exact absurd (plain _ rfl) other
  | later behind tail => exact ⟨behind, tail⟩

theorem lexemesFaulty {c : Cursor} (faults : Faults c) : Faulty (lexemes c) := by
  induction faults with
  | now read =>
    rw [lexemesFault read]
    exact .now _ _ _
  | stray read other =>
    rw [lexemesToken read (by simp)]
    exact .stray other _ _
  | later read more tail ih =>
    rw [lexemesToken read more]
    exact .later tail ih

theorem referenceLetter {n g : Int64} {letter : String} {id : ObjId}
    (made : reference? n g letter = some id) : letter = "R" := by
  simp only [reference?] at made
  split at made
  · next fits => exact fits.1
  · cases made

theorem takenPlain {position : Nat} {stack : List Frame} {t : Token} {turn : Turn}
    (taken : take position stack t = turn) (went : ∀ fault, turn ≠ .stop (.error fault))
    (letter : String) : t ≠ .word letter := by
  rintro rfl
  obtain ⟨fault, refused⟩ := takeWord position stack letter
  exact went fault (taken.symm.trans refused)

theorem readFromFaulty {stack : List Frame} {last stop : Cursor} {ls : List Lexeme} {v : Value}
    (faulty : Faulty ls) (read : readFrom stack last ls = (.ok v, stop)) : Faults stop := by
  fun_induction readFrom stack last ls with
  | case1 => cases read
  | case2 => cases read
  | case3 stack last n first g middle letter behind more id made ready outcome delivered =>
    cases read
    have tail := ((faulty.behind nofun).2.behind nofun).2
    exact (tail.behind fun _ same => by cases same; exact referenceLetter made).1
  | case4 stack last n first g middle letter behind more id made ready next delivered ih =>
    have tail := ((faulty.behind nofun).2.behind nofun).2
    exact ih (tail.behind fun _ same => by cases same; exact referenceLetter made).2 read
  | case5 =>
    cases read
    exact (faulty.behind nofun).1
  | case6 _ _ _ _ _ _ _ _ _ _ _ _ ih => exact ih (faulty.behind nofun).2 read
  | case7 stack last t first more _ outcome taken =>
    cases read
    exact (faulty.behind fun letter same => absurd same (takenPlain taken nofun letter)).1
  | case8 stack last t first more _ next taken ih =>
    exact ih (faulty.behind fun letter same => absurd same (takenPlain taken nofun letter)).2 read

theorem skipFaulty {c : Cursor} (faults : Faults c) (last stop : Cursor) :
    nextToken.skip last (lexemes c) ≠ (.ok .done, stop) := by
  induction faults generalizing last with
  | now read =>
    rw [lexemesFault read]
    exact nofun
  | stray read other =>
    rw [lexemesToken read (by simp)]
    exact nofun
  | later read more tail ih =>
    rw [lexemesToken read more, nextToken.skip.eq_def]
    split
    · next none => cases none
    · next same =>
      cases same
      exact ih _
    · next same =>
      cases same
      exact fun ended => more (Except.ok.inj (Prod.mk.inj ended).1)

theorem parseFaulty {text : Bytes} (faults : Faults (.start text)) (v : Value) :
    parse text ≠ .ok v := by
  intro parsed
  unfold parse at parsed
  split at parsed
  · cases parsed
  · next w c read =>
    have behind : Faults c := readFromFaulty (lexemesFaulty faults) read
    split at parsed
    · next stop ended => exact skipFaulty behind c stop ended
    · cases parsed
    · cases parsed

end Parser

namespace Value

theorem writeEntriesAppend (layout : Layout) (typeEntry : Bool) (first second : Entries) :
    writeEntries layout typeEntry (first ++ second) =
      writeEntries layout typeEntry first ++ writeEntries layout typeEntry second := by
  induction first with
  | nil => rfl
  | cons entry first ih =>
    obtain ⟨key, v⟩ := entry
    rw [List.cons_append, writeEntries, writeEntries]
    split
    · simp only [ih, List.append_assoc]
    · exact ih

theorem writeEntriesPassed (layout : Layout) (typeEntry other : Bool) (entries : Entries) :
    writeEntries layout typeEntry (passed other entries) =
      if typeEntry = other then writeEntries layout typeEntry entries else [] := by
  induction entries with
  | nil => simp [passed, writeEntries]
  | cons entry entries ih =>
    obtain ⟨key, v⟩ := entry
    by_cases taken : (key == "Type") = other
    · rw [passedTaken taken, writeEntries, writeEntries, ih, taken]
      by_cases same : typeEntry = other
      · simp only [if_pos same, if_pos same.symm]
      · simp only [if_neg same, if_neg (Ne.symm same)]
    · rw [passedOver taken, ih, writeEntries]
      by_cases same : typeEntry = other
      · rw [if_pos same, if_pos same, if_neg (same ▸ taken)]
      · rw [if_neg same, if_neg same]

theorem writeEntriesFront (layout : Layout) (typeEntry : Bool) (entries : Entries) :
    writeEntries layout typeEntry (Entries.typeFirst entries) =
      writeEntries layout typeEntry entries := by
  rw [← typeFirstPassed, writeEntriesAppend, writeEntriesPassed, writeEntriesPassed]
  cases typeEntry <;> simp

mutual

theorem writeTypeFirst (layout : Layout) : ∀ v : Value, v.typeFirst.write layout = v.write layout
  | arr items => by rw [typeFirst, write, write, writeItemsTypeFirst layout 1 items]
  | dict entries => by
    rw [typeFirst, write, write, writeEntriesFront, writeEntriesFront,
      writeEntriesTypeFirst layout true entries, writeEntriesTypeFirst layout false entries]
  | null | bool _ | int _ | real _ | ref _ | str _ _ | name _ | raw _ => rfl

theorem writeItemsTypeFirst (layout : Layout) (place : Nat) : ∀ items : List Value,
    writeItems layout place (typeFirstItems items) = writeItems layout place items
  | [] => rfl
  | v :: rest => by
    rw [typeFirstItems, writeItems, writeItems, writeTypeFirst layout v,
      writeItemsTypeFirst layout (place + 1) rest]

theorem writeEntriesTypeFirst (layout : Layout) (typeEntry : Bool) : ∀ entries : Entries,
    writeEntries layout typeEntry (typeFirstEntries entries) =
      writeEntries layout typeEntry entries
  | [] => rfl
  | (_, v) :: rest => by
    rw [typeFirstEntries, writeEntries, writeEntries, writeTypeFirst layout v,
      writeEntriesTypeFirst layout typeEntry rest]

end

structure Shrinks (good : Prop) (after before : Bytes) : Prop where
  same : good → after = before
  shorter : ¬ good → after.length < before.length

namespace Shrinks

variable {good more : Prop} {after before behind beyond : Bytes}

theorem refl (text : Bytes) : Shrinks True text text :=
  ⟨fun _ => rfl, fun never => absurd trivial never⟩

theorem iff (shrinks : Shrinks good after before) (same : good ↔ more) :
    Shrinks more after before :=
  ⟨fun holds => shrinks.same (same.mpr holds), fun fails => shrinks.shorter (mt same.mp fails)⟩

theorem most (shrinks : Shrinks good after before) : after.length ≤ before.length := by
  by_cases holds : good
  · rw [shrinks.same holds]
  · exact (shrinks.shorter holds).le

theorem append (first : Shrinks good after before) (second : Shrinks more behind beyond) :
    Shrinks (good ∧ more) (after ++ behind) (before ++ beyond) := by
  refine ⟨fun ⟨good, more⟩ => by rw [first.same good, second.same more], fun fails => ?_⟩
  have less := first.most
  have lessToo := second.most
  rw [List.length_append, List.length_append]
  by_cases holds : good
  · have := second.shorter fun holdsToo => fails ⟨holds, holdsToo⟩
    omega
  · have := first.shorter holds
    omega

theorem framed (front back : Bytes) (shrinks : Shrinks good after before) :
    Shrinks good (front ++ (after ++ back)) (front ++ (before ++ back)) :=
  ((refl front).append (shrinks.append (refl back))).iff (by rw [true_and, and_true])

theorem sameIff (shrinks : Shrinks good after before) : after = before ↔ good := by
  refine ⟨fun same => ?_, shrinks.same⟩
  by_contra fails
  exact absurd (congrArg List.length same) (shrinks.shorter fails).ne

end Shrinks

variable {layout : Layout} {admits good : Binary64 → Prop} {f : Binary64 → Value}

mutual

theorem shrinksValue
    (reals : ∀ x, admits x → Shrinks (good x) ((f x).write layout) ((real x).write layout)) :
    ∀ v : Value, v.Every (Cooked admits) →
      Shrinks (v.Every (Cooked good)) ((v.recast f).write layout) (v.write layout)
  | real x, admitted => reals x admitted
  | arr items, cooked => by
    rw [recast, write, write]
    exact (Shrinks.framed _ _ (shrinksItems reals 1 items cooked.2)).iff (true_and _).symm.to_iff
  | dict entries, cooked => by
    have both : True ∧ CookedPassed good true entries ∧ CookedPassed good false entries ∧ True ↔
        (dict entries).Every (Cooked good) := by
      rw [and_true, passedBoth]
      exact Iff.rfl
    rw [recast, write, write]
    exact ((Shrinks.refl _).append ((shrinksEntries reals true entries cooked.2).append
      ((shrinksEntries reals false entries cooked.2).append (.refl _)))).iff both
  | raw _, cooked => absurd cooked id
  | null, _ | bool _, _ | int _, _ | ref _, _ | str _ _, _ | name _, _ => .refl _

theorem shrinksItems
    (reals : ∀ x, admits x → Shrinks (good x) ((f x).write layout) ((real x).write layout))
    (place : Nat) : ∀ items : List Value, EveryItems (Cooked admits) items →
      Shrinks (EveryItems (Cooked good) items) (writeItems layout place (recastItems f items))
        (writeItems layout place items)
  | [], _ => .refl _
  | v :: rest, cooked => by
    rw [recastItems, writeItems, writeItems]
    exact ((shrinksValue reals v cooked.1).append ((Shrinks.refl _).append
      (shrinksItems reals (place + 1) rest cooked.2))).iff (by rw [true_and]; exact Iff.rfl)

theorem shrinksEntries
    (reals : ∀ x, admits x → Shrinks (good x) ((f x).write layout) ((real x).write layout))
    (typeEntry : Bool) : ∀ entries : Entries, EveryEntries (Cooked admits) entries →
      Shrinks (CookedPassed good typeEntry entries)
        (writeEntries layout typeEntry (recastEntries f entries))
        (writeEntries layout typeEntry entries)
  | [], _ => (Shrinks.refl _).iff (by simp [CookedPassed])
  | (key, v) :: rest, cooked => by
    rw [recastEntries, writeEntries, writeEntries]
    split
    · next taken =>
      have tail := shrinksEntries reals typeEntry rest cooked.2
      refine ((Shrinks.refl _).append ((Shrinks.refl _).append
        ((shrinksValue reals v cooked.1).append ((Shrinks.refl _).append tail)))).iff ?_
      rw [passedCons, forall_prop_of_true taken, true_and, true_and, true_and]
    · next other =>
      refine (shrinksEntries reals typeEntry rest cooked.2).iff ?_
      rw [passedCons, forall_prop_of_false other, true_and]

end

structure Plain (v : Value) : Prop where
  flat : v.nesting = 0
  keyed : v.Keyed
  cooked : v.Every (Cooked fun _ => True)

theorem RealsCut.parses (reals : RealsCut layout admits good f) (plain : ∀ x, (f x).Plain) {v : Value}
    (admitted : v.Every (Cooked admits)) (keyed : v.Keyed) (shallow : v.nesting ≤ depthLimit)
    (fits : v.Every (Cooked good)) :
    parse (v.write layout) = .ok (v.recast f).typeFirst := by
  have spells := (cutValue reals v admitted [] (stopsEnd _)).spells fits
  have parses := spelledParses (recastCooked (fun x _ => (plain x).cooked) v admitted)
    (recastKeyed (fun x => (plain x).keyed) v keyed) spells
  rwa [recastNesting (fun x => (plain x).flat) v, if_pos shallow] at parses

theorem RealsCut.refused (reals : RealsCut layout admits good f) {v : Value}
    (admitted : v.Every (Cooked admits)) (bad : ¬ v.Every (Cooked good)) (w : Value) :
    parse (v.write layout) ≠ .ok w := by
  have faults := (cutValue reals v admitted [] (stopsEnd _)).faults bad 0
  rw [List.append_nil] at faults
  exact parseFaulty faults w

open Binary64 Lexer

def KeepsSign (x : Binary64) : Prop := x.negative = true → millionths x ≠ 0

theorem sixPlacesSame {x y : Binary64} (finite : x.IsFinite) (finite' : y.IsFinite)
    (signs : y.negative = x.negative) (places : millionths y = millionths x) :
    y.sixPlaces = x.sixPlaces := by
  rw [sixPlacesChars finite, sixPlacesChars finite', places, signText, signText, signs]

theorem signedText {x : Binary64} {n : Nat} (some : x.negative = true → n ≠ 0) :
    Bytes.ascii (toString (signedValue x.negative n)) =
      Bytes.ascii x.signText ++ Bytes.decimal n := by
  rw [signText]
  cases negative : x.negative with
  | false => rfl
  | true =>
    obtain ⟨m, rfl⟩ := Nat.exists_eq_succ_of_ne_zero (some negative)
    have spelled : toString (signedValue true (m + 1)) = "-" ++ toString (m + 1) := rfl
    rw [if_pos rfl, spelled, Bytes.asciiAppend, Bytes.decimal]

theorem settledShrinks (x : Binary64) (fits : x.IsFinite ∧ Bounded x) :
    Shrinks (KeepsSign x) ((settled x).write .compact) ((real x).write .compact) := by
  obtain ⟨finite, bounded⟩ := fits
  have written : (real x).write .compact = 0x20 :: Bytes.ascii x.brief := rfl
  by_cases whole : millionths x % 1000000 = 0
  · have value := fittingInt (bounded whole)
    have again : (settled x).write .compact =
        0x20 :: Bytes.ascii (toString (signedValue x.negative (millionths x / 1000000))) := by
      rw [settled, if_pos whole, write, value]
      rfl
    rw [written, again, briefWhole finite whole]
    refine ⟨fun keeps => ?_, fun drops => ?_⟩
    · rw [signedText fun negative zero => keeps negative (by omega)]
    · obtain ⟨negative, zero⟩ : x.negative = true ∧ millionths x = 0 := by
        simpa [KeepsSign] using drops
      rw [signText, negative, zero]
      decide
  · have again : (settled x).write .compact = 0x20 :: Bytes.ascii (reread x).brief := by
      rw [settled, if_neg whole]
      rfl
    obtain ⟨finite', places⟩ := placesSettled finite
    have keeps : KeepsSign x := fun _ zero => whole (by rw [zero])
    refine ⟨fun _ => ?_, fun drops => absurd keeps drops⟩
    have text := sixPlacesSame finite finite' (ofRatioNegative _ _ _) places
    rw [written, again, brief, brief, text]

def Steady (x : Binary64) : Prop := Bounded x ∧ KeepsSign x

theorem compactParses {v : Value} (finite : v.Every (Cooked IsFinite)) (keyed : v.Keyed)
    (shallow : v.nesting ≤ depthLimit) (bounded : v.Every (Cooked Bounded)) :
    parse (v.write .compact) = .ok (v.recast settled).typeFirst := by
  refine briefCuts.parses (fun x => ?_) finite keyed shallow bounded
  unfold settled
  split <;> exact ⟨rfl, trivial, trivial⟩

theorem compactRefused {v : Value} (finite : v.Every (Cooked IsFinite))
    (unbounded : ¬ v.Every (Cooked Bounded)) (w : Value) : parse (v.write .compact) ≠ .ok w :=
  briefCuts.refused finite unbounded w

theorem compactTextStable (v : Value) (finite : v.Every (Cooked IsFinite)) (keyed : v.Keyed)
    (shallow : v.nesting ≤ 512) :
    ((∃ w, parse (v.write .compact) = .ok w) ↔ v.Every (Cooked Bounded)) ∧
      ((∃ w, parse (v.write .compact) = .ok w ∧ w.write .compact = v.write .compact) ↔
        v.Every (Cooked Steady)) := by
  by_cases bounded : v.Every (Cooked Bounded)
  · have parses := compactParses finite keyed shallow bounded
    have fits : v.Every (Cooked fun x => x.IsFinite ∧ Bounded x) :=
      cookedBoth (fun _ => And.intro) finite bounded
    have again := (shrinksValue settledShrinks v fits).sameIff
    have steady : v.Every (Cooked KeepsSign) ↔ v.Every (Cooked Steady) :=
      ⟨cookedBoth (fun _ => And.intro) bounded, cookedWeaker fun _ => And.right⟩
    refine ⟨iff_of_true ⟨_, parses⟩ bounded, ?_⟩
    rw [parses, ← steady, ← again, ← writeTypeFirst .compact (v.recast settled)]
    constructor
    · rintro ⟨w, parsed, same⟩
      rwa [Except.ok.inj parsed]
    · exact fun same => ⟨_, rfl, same⟩
  · have refused : ¬ ∃ w, parse (v.write .compact) = .ok w :=
      fun ⟨w, parsed⟩ => compactRefused finite bounded w parsed
    refine ⟨iff_of_false refused bounded, iff_of_false ?_ fun steady => ?_⟩
    · exact fun ⟨w, parsed, _⟩ => refused ⟨w, parsed⟩
    · exact bounded (cookedWeaker (fun _ => And.left) steady)

def legend : Value :=
  .dict
    [("Scale", .arr [.real ⟨0x3FF8000000000000⟩, .real ⟨0xC3E0000000000000⟩,
        .real ⟨0xBFB999999999999A⟩]),
      ("Type", .name "Legend")]

theorem legendStable :
    ∃ w, parse (legend.write .compact) = .ok w ∧ w.write .compact = legend.write .compact := by
  refine (compactTextStable legend ?_ ?_ (by decide)).2.mpr ?_
  · simp only [legend, Every, EveryEntries, EveryItems, Cooked, IsFinite, and_true, true_and]
    decide
  · simp [legend, Keyed, KeyedEntries, KeyedItems]
  · simp only [legend, Every, EveryEntries, EveryItems, Cooked, Steady, Bounded, KeepsSign, FitsInt,
      and_true, true_and]
    decide

theorem largeWholeUnstable :
    ¬ ∀ v : Value, v.Every (Cooked IsFinite) → v.Keyed → v.nesting ≤ 512 →
      ∃ w, parse (v.write .compact) = .ok w ∧ w.write .compact = v.write .compact := by
  intro always
  have finite : (real ⟨0x43E0000000000000⟩).Every (Cooked IsFinite) := ⟨by decide, by decide⟩
  have unbounded : ¬ (real ⟨0x43E0000000000000⟩).Every (Cooked Bounded) := by
    simp only [Every, Cooked, Bounded, FitsInt]
    decide
  obtain ⟨w, parsed, _⟩ := always _ finite trivial (by decide)
  exact compactRefused finite unbounded w parsed

example : (real ⟨0x8000000000000000⟩).write .compact = Bytes.ascii " -0" ∧
    parse (Bytes.ascii " -0") = .ok (int 0) := ⟨by decide, rfl⟩

end Value
end PdfBody
