import Mathlib.Data.List.Chain
import Mathlib.Tactic.Choose
import PdfBody.Proofs.Text.Neighbours
import PdfBody.Proofs.Text.Standing
import PdfBody.Proofs.Value.Comparable

/-! Values with raw text among them. What raw text spells is read back in its place if the text is
not joined to what stands in front of it: white space sees to that in the clean layout, and nothing
does in the compact one. -/
namespace PdfBody
open PdfBody.Parser

namespace Value

mutual

def unwrapped : Value → Value
  | raw bytes => (parse bytes).toOption.getD (raw bytes)
  | arr items => arr (unwrappedItems items)
  | dict entries => dict (unwrappedEntries entries)
  | v => v

def unwrappedItems : List Value → List Value
  | [] => []
  | v :: rest => unwrapped v :: unwrappedItems rest

def unwrappedEntries : List (String × Value) → List (String × Value)
  | [] => []
  | (key, v) :: rest => (key, unwrapped v) :: unwrappedEntries rest

end

mutual

/-- The most containers that the text of the value has open at once, those in raw text included. -/
def levels : Value → Nat
  | raw bytes => deepest 0 ((Parser.tokens bytes).toOption.getD [])
  | arr items => levelsItems items + 1
  | dict entries => levelsEntries entries + 1
  | _ => 0

def levelsItems : List Value → Nat
  | [] => 0
  | v :: rest => max (levels v) (levelsItems rest)

def levelsEntries : List (String × Value) → Nat
  | [] => 0
  | (_, v) :: rest => max (levels v) (levelsEntries rest)

end

def Verbatim : Value → Prop
  | raw bytes => 0x25 ∉ bytes ∧ ∃ v, parse bytes = .ok v
  | real _ => False
  | _ => True

/-- In the compact layout nothing in the container is joined to what stands in front of it. -/
def SetApart : Value → Prop
  | arr items => items.IsChain fun v next => joins (v.write .compact) (next.write .compact) = false
  | dict entries => ∀ entry ∈ entries, joins (writeName entry.1) (entry.2.write .compact) = false
  | _ => True

variable {items : List Value} {entries : Entries} {layout : Layout}

theorem unwrappedItemsMap : unwrappedItems items = items.map unwrapped := by
  induction items with
  | nil => rfl
  | cons v rest ih => rw [unwrappedItems, ih, List.map_cons]

theorem unwrappedEntriesMap :
    unwrappedEntries entries = entries.map fun entry => (entry.1, entry.2.unwrapped) := by
  induction entries with
  | nil => rfl
  | cons entry rest ih => rw [unwrappedEntries, ih, List.map_cons]

theorem levelsItemsMost (n : Nat) : levelsItems items ≤ n ↔ ∀ v ∈ items, v.levels ≤ n := by
  induction items with
  | nil => simp [levelsItems]
  | cons v rest ih => simp [levelsItems, ih]

theorem levelsEntriesMost (n : Nat) :
    levelsEntries entries ≤ n ↔ ∀ entry ∈ entries, entry.2.levels ≤ n := by
  induction entries with
  | nil => simp [levelsEntries]
  | cons entry rest ih => simp [levelsEntries, ih]

theorem dividedArray : Divided (Bytes.ascii "[") [.arrOpen] ∧ Divided (Bytes.ascii "]") [.arrClose] :=
  ⟨⟨by decide, rfl, by decide⟩, ⟨by decide, rfl, by decide⟩⟩

theorem dividedDict : Divided (Bytes.ascii "<<") [.dictOpen] ∧ Divided (Bytes.ascii ">>") [.dictClose] :=
  ⟨⟨by decide, rfl, by decide⟩, ⟨by decide, rfl, by decide⟩⟩

theorem joinsOpening (behind : Bytes) :
    joins (Bytes.ascii "[") behind = false ∧ joins (Bytes.ascii "<<") behind = false := by
  cases behind with
  | nil => exact ⟨rfl, rfl⟩
  | cons b behind => exact ⟨rfl, rfl⟩

theorem dividedItems (place : Nat) {ts : Value → List Token} {blank : Bytes}
    (each : ∀ v ∈ items, Divided (v.write layout) (ts v))
    (apart : layout = .compact →
      items.IsChain fun v next => joins (v.write .compact) (next.write .compact) = false)
    (spaces : Lexer.Blank blank) :
    Divided (blank ++ (writeItems layout place items ++ Bytes.ascii "]"))
      (items.flatMap ts ++ [.arrClose]) := by
  induction items generalizing place blank with
  | nil => exact .blank spaces dividedArray.2
  | cons v rest ih =>
    obtain ⟨first, others⟩ := List.forall_mem_cons.mp each
    have sep := itemSeparator layout place
    have tail := ih (place + 1) others (fun compact => (apart compact).tail) sep.blank
    rw [writeItems, List.append_assoc, List.append_assoc, List.flatMap_cons, List.append_assoc]
    refine .blank spaces (first.append tail ?_)
    cases layout with
    | clean => exact first.stopped (stopsSeparated sep nofun)
    | compact =>
      cases rest with
      | nil => exact first.stopped (by decide : Bytes.isRegular 0x5D = false)
      | cons w rest =>
        have next : joins (v.write .compact) (w.write .compact) = false :=
          (List.isChain_cons_cons.mp (apart rfl)).1
        rw [writeItems, List.append_assoc]
        exact (joinsFront (others w List.mem_cons_self).some _).trans next

def entryText (layout : Layout) (entry : String × Value) : Bytes :=
  writeName entry.1 ++ (layout.choose "" " " ++ (entry.2.write layout ++ layout.choose "" "\n"))

theorem writePassed (layout : Layout) (typeEntry : Bool) (entries : Entries) :
    writeEntries layout typeEntry entries =
      (passed typeEntry entries).flatMap (entryText layout) := by
  induction entries with
  | nil => rfl
  | cons entry rest ih =>
    obtain ⟨key, v⟩ := entry
    rw [writeEntries]
    split
    · next taken =>
      rw [passedTaken taken, List.flatMap_cons, ih, entryText]
      simp only [List.append_assoc]
    · next other => rw [passedOver other, ih]

theorem writeDict (layout : Layout) (entries : Entries) :
    (dict entries).write layout = layout.choose "<<" "<<\n" ++
      ((Entries.typeFirst entries).flatMap (entryText layout) ++ Bytes.ascii ">>") := by
  rw [write, writePassed, writePassed, ← typeFirstPassed, List.flatMap_append, List.append_assoc]

theorem dividedName (key : String) : Divided (writeName key) [.name (Utf8.encode key)] := by
  refine ⟨List.cons_ne_nil _ _, ?_, by simp [Token.isComment]⟩
  have read := Lexer.nextName key (stopsEnd _) 0
  rw [List.append_nil] at read
  exact lexedCons read nofun rfl

theorem dividedEntries {ts : String × Value → List Token} {blank : Bytes}
    (each : ∀ entry ∈ entries, Divided (entry.2.write layout) (ts entry))
    (apart : layout = .compact →
      ∀ entry ∈ entries, joins (writeName entry.1) (entry.2.write .compact) = false)
    (spaces : Lexer.Blank blank) :
    Divided (blank ++ (entries.flatMap (entryText layout) ++ Bytes.ascii ">>"))
      (entries.flatMap (fun entry => .name (Utf8.encode entry.1) :: ts entry) ++ [.dictClose]) := by
  induction entries generalizing blank with
  | nil => exact .blank spaces dividedDict.2
  | cons entry rest ih =>
    obtain ⟨first, others⟩ := List.forall_mem_cons.mp each
    have line := lineSeparator layout
    have colon := spaceSeparator layout
    have tail := ih others (fun compact e among => apart compact e (.tail _ among)) line.blank
    -- what stands behind the value is the next key or the end of the dictionary
    have closed : Stops Bytes.isRegular
        (rest.flatMap (entryText layout) ++ Bytes.ascii ">>") := by
      cases rest with
      | nil => exact (by decide : Bytes.isRegular 0x3E = false)
      | cons e rest => exact (by decide : Bytes.isRegular 0x2F = false)
    have value := first.append tail (first.stopped (stopsSeparated line fun _ => closed))
    have whole := (dividedName entry.1).append (value.blank colon.blank) ?_
    · rw [List.flatMap_cons, List.flatMap_cons, entryText]
      simp only [List.append_assoc, List.cons_append, List.nil_append] at whole ⊢
      exact .blank spaces whole
    · cases layout with
      | clean => exact (dividedName entry.1).stopped (stopsSeparated colon nofun)
      | compact => exact (joinsFront first.some _).trans (apart rfl entry List.mem_cons_self)

structure Embeds (layout : Layout) (v : Value) (ts : List Token) (read : Value) : Prop where
  divided : Divided (v.write layout) ts
  reads : Reads ts read v.levels
  alike : Alike read v.unwrapped

theorem rawEmbeds (layout : Layout) {bytes : Bytes} (verbatim : Verbatim (raw bytes)) :
    ∃ ts read, Embeds layout (raw bytes) ts read := by
  obtain ⟨clean, v, parsed⟩ := verbatim
  obtain ⟨ts, lexed⟩ := parsedTokens parsed
  have made := parsedMade parsed
  have plain := lexedPlain (c := .start bytes) lexed clean
  refine ⟨ts, v, ⟨?_, lexed, plain⟩, ?_, ?_⟩
  · rintro empty
    rw [write] at empty
    rw [empty] at parsed
    cases parsed
  · rw [levels, lexed]
    exact parsedReads lexed plain parsed
  · rw [unwrapped, parsed]
    exact comparableSelf ⟨made.numbers, made.keyed⟩

theorem plainEmbeds {v : Value} (legible : v.Every (Legible layout)) (keyed : v.Keyed)
    (flat : v.nesting = 0 ∧ v.typeFirst = v ∧ v.levels = deepest 0 v.tokens ∧ v.unwrapped = v)
    (plain : ∀ t ∈ v.tokens, t.isComment = false) : ∃ ts read, Embeds layout v ts read := by
  obtain ⟨single, first, opened, same⟩ := flat
  have spells := spelledValue legible (stopsEnd _)
  have lexed : Parser.tokens (v.write layout) = .ok v.tokens := by
    have whole := spelledLexed (spells 0) rfl
    rwa [List.append_nil] at whole
  have some : v.write layout ≠ [] := by
    intro empty
    have several := tokensSome (f := real) (fun x => List.cons_ne_nil _ _)
      (legibleCooked legible)
    rw [recastSame] at several
    rw [empty] at lexed
    exact several (Except.ok.inj lexed).symm
  have parsed := spelledParses (legibleCooked legible) keyed spells
  rw [if_pos (by omega), first] at parsed
  have made := parsedMade parsed
  refine ⟨v.tokens, v, ⟨some, lexed, plain⟩, ?_, ?_⟩
  · rw [opened]
    exact parsedReads lexed plain parsed
  · rw [same]
    exact comparableSelf ⟨made.numbers, made.keyed⟩

theorem leafEmbeds (layout : Layout) {v : Value} (notArray : v.kind ≠ .array)
    (notDictionary : v.kind ≠ .dictionary) (verbatim : v.Every Verbatim) :
    ∃ ts read, Embeds layout v ts read := by
  cases v with
  | raw bytes => exact rawEmbeds layout verbatim
  | real x => exact verbatim.elim
  | arr items => exact absurd rfl notArray
  | dict entries => exact absurd rfl notDictionary
  | str bytes hex =>
    cases hex <;> exact plainEmbeds trivial trivial ⟨rfl, rfl, rfl, rfl⟩
      (by simp [tokens, Lexer.stringToken, Token.isComment])
  | _ =>
    exact plainEmbeds trivial trivial ⟨rfl, rfl, rfl, rfl⟩ (by simp [tokens, Token.isComment])

theorem arrayEmbeds {items : List Value} {ts : Value → List Token} {read : Value → Value}
    (each : ∀ v ∈ items, Embeds layout v (ts v) (read v))
    (apart : layout = .compact → SetApart (arr items)) :
    Embeds layout (arr items) (.arrOpen :: (items.flatMap ts ++ [.arrClose]))
      (arr (items.map read)) := by
  refine ⟨?_, readsArray (fun v among => (each v among).reads) levelsItemsMost, ?_⟩
  · have inside (blank : Bytes) (spaces : Lexer.Blank blank) := dividedArray.1.append
      (dividedItems 1 (fun v among => (each v among).divided) apart spaces)
      (joinsOpening _).1
    rw [write]
    cases layout with
    | compact => exact inside [] blankNil
    | clean => exact inside [0x20] Lexer.blankSpace
  · rw [unwrapped, unwrappedItemsMap]
    refine .arr (by simp) fun pair among => ?_
    rw [List.zip_map'] at among
    obtain ⟨v, member, rfl⟩ := List.mem_map.mp among
    exact (each v member).alike

theorem frontPerm (entries : Entries) : (Entries.typeFirst entries).Perm entries :=
  List.filter_append_perm _ entries

theorem dictEmbeds {entries : Entries} {ts : String × Value → List Token}
    {read : String × Value → Value} (once : (entries.map Prod.fst).Nodup)
    (each : ∀ entry ∈ entries, Embeds layout entry.2 (ts entry) (read entry))
    (apart : layout = .compact → SetApart (dict entries)) :
    Embeds layout (dict entries)
      (.dictOpen :: ((Entries.typeFirst entries).flatMap
        (fun entry => .name (Utf8.encode entry.1) :: ts entry) ++ [.dictClose]))
      (dict ((Entries.typeFirst entries).map fun entry => (entry.1, read entry))) := by
  have front := frontPerm entries
  have among {entry : String × Value} : entry ∈ Entries.typeFirst entries ↔ entry ∈ entries :=
    front.mem_iff
  refine ⟨?_, readsDict (fun entry member => (each entry (among.mp member)).reads)
    ((front.map Prod.fst).nodup_iff.mpr once) fun n => ?_, ?_⟩
  · have inside (blank : Bytes) (spaces : Lexer.Blank blank) := dividedDict.1.append
      (dividedEntries (fun entry member => (each entry (among.mp member)).divided)
        (fun compact entry member => apart compact entry (among.mp member)) spaces)
      (joinsOpening _).2
    rw [writeDict]
    cases layout with
    | compact => exact inside [] blankNil
    | clean => exact inside [0x0A] Lexer.blankLine
  · simp only [levelsEntriesMost, among]
  · rw [unwrapped, unwrappedEntriesMap]
    have found : ∀ entry ∈ entries,
        (entries.map fun entry => (entry.1, entry.2.unwrapped)).lookup entry.1 =
          some entry.2.unwrapped := fun entry member =>
      Entries.memLookup (by rwa [List.map_map]) (List.mem_map.mpr ⟨entry, member, rfl⟩)
    refine .dict (by simpa using front.length_eq) (fun e member => ?_) fun e member b bound => ?_
    · obtain ⟨entry, inside, rfl⟩ := List.mem_map.mp member
      exact ⟨_, found entry (among.mp inside)⟩
    · obtain ⟨entry, inside, rfl⟩ := List.mem_map.mp member
      cases (found entry (among.mp inside)).symm.trans bound
      exact (each entry (among.mp inside)).alike

theorem embeds {v : Value} (verbatim : v.Every Verbatim) (keyed : v.Keyed)
    (apart : layout = .compact → v.Every SetApart) : ∃ ts read, Embeds layout v ts read := by
  induction v using byParts with
  | leaf v notArray notDictionary => exact leafEmbeds layout notArray notDictionary verbatim
  | arrays items ih =>
    have parts : ∀ v ∈ items, ∃ ts read, Embeds layout v ts read := fun v among =>
      ih v among (everyItemIff.mp verbatim.2 v among) (keyedItemIff.mp keyed v among)
        fun compact => everyItemIff.mp (apart compact).2 v among
    choose! ts read each using parts
    exact ⟨_, _, arrayEmbeds each fun compact => (apart compact).1⟩
  | dictionaries entries ih =>
    have parts : ∀ entry ∈ entries, ∃ ts read, Embeds layout entry.2 ts read := fun entry among =>
      ih entry among (everyEntryIff.mp verbatim.2 entry among)
        (keyedEntryIff.mp keyed.2 entry among)
        fun compact => everyEntryIff.mp (apart compact).2 entry among
    choose! ts read each using parts
    exact ⟨_, _, dictEmbeds keyed.1 each fun compact => (apart compact).1⟩

/-- The text of a value with raw text in it is read as the value with what that spells in its place,
up to the order of entries, exactly if it has no more containers open at once than a reader admits, those
in entries that a later one replaces included. In the compact layout it is enough for this that nothing is
joined to what stands in front of it; nothing is said of texts where something is. -/
theorem verbatimReadsBack (layout : Layout) (v : Value) (verbatim : v.Every Verbatim) (keyed : v.Keyed)
    (apart : layout = .compact → v.Every SetApart) :
    (∃ read, parse (v.write layout) = .ok read ∧ read.agrees v.unwrapped = .ok true) ↔
      v.levels ≤ 512 := by
  obtain ⟨ts, w, divided, reads, alike⟩ := embeds verbatim keyed apart
  have whole := reads.reads [] [] rfl trivial (Nat.zero_le _)
  rw [List.append_nil, List.length_nil, Nat.zero_add] at whole
  constructor
  · rintro ⟨read, parsed, -⟩
    obtain ⟨left, made, -⟩ := (parseTokens divided.lexed read).mp parsed
    by_contra deep
    rw [if_neg (show ¬ v.levels ≤ depthLimit from deep), made] at whole
    cases whole
  · intro fits
    rw [if_pos (show v.levels ≤ depthLimit from fits)] at whole
    exact ⟨w, (parseTokens divided.lexed w).mpr ⟨[], whole, rfl⟩, agreesAlike.mpr alike⟩

def parcel : Value :=
  .dict
    [("Kids", .arr [.raw (Bytes.ascii "4 0 R"), .raw (Bytes.ascii " <</A[[1]]/A 2.5>>"), .int 3,
        .raw (Bytes.ascii "-7"), .raw (Bytes.ascii "/Last")]),
      ("Title", .raw (Bytes.ascii "(50)"))]

theorem parcelReadsBack : parcel.levels = 5 ∧
    ∃ read, parse (parcel.write .compact) = .ok read ∧ read.agrees parcel.unwrapped = .ok true := by
  have verbatim : parcel.Every Verbatim := by
    simp only [parcel, Every, EveryEntries, EveryItems, Verbatim, and_true, true_and]
    refine ⟨⟨⟨by decide, .ref ⟨4, 0⟩, rfl⟩, ⟨by decide, .dict [("A", .real ⟨0x4004000000000000⟩)], ?_⟩,
      ⟨by decide, .int (-7), rfl⟩, ⟨by decide, .name "Last", rfl⟩⟩, ⟨by decide, .str [0x35, 0x30] false, rfl⟩⟩
    decide +kernel
  have keyed : parcel.Keyed := by simp [parcel, Keyed, KeyedEntries, KeyedItems]
  have apart : parcel.Every SetApart := by
    simp only [parcel, Every, EveryEntries, EveryItems, SetApart, and_true]
    decide +kernel
  have deep : parcel.levels = 5 := by decide +kernel
  exact ⟨deep, (verbatimReadsBack .compact parcel verbatim keyed fun _ => apart).mpr (by omega)⟩

theorem numberJoinedToKey :
    ¬ ∀ (layout : Layout) (v : Value), v.Every Verbatim → v.Keyed → v.unwrapped.nesting ≤ 512 →
      ∃ read, parse (v.write layout) = .ok read ∧ read.agrees v.unwrapped = .ok true := by
  intro always
  have verbatim : (dict [("A", raw [0x31])]).Every Verbatim :=
    ⟨trivial, ⟨by decide, .int 1, rfl⟩, trivial⟩
  obtain ⟨read, parsed, -⟩ := always .compact (dict [("A", raw [0x31])]) verbatim
    (by simp [Keyed, KeyedEntries]) (by decide)
  cases parsed

end Value
end PdfBody
