import Mathlib.Logic.Relation
import PdfBody.Value.Path
import PdfBody.Proofs.Value.Agreement
import PdfBody.Proofs.Value.Entries
import PdfBody.Proofs.Value.Recast

/-! Values without raw data and without reals that are no numbers. Among them agreement is an
equivalence that sees neither the form of strings nor the order of entries, and sees every part. -/
namespace PdfBody

namespace Binary64

variable {x y z : Binary64}

theorem equalsIff : x.equals y = true ↔ x.isNaN = false ∧ y.isNaN = false ∧
    (x.bits = y.bits ∨ x.isZero = true ∧ y.isZero = true) := by
  simp [equals, and_assoc]

theorem equalsSelf (number : x.isNaN = false) : x.equals x = true :=
  equalsIff.mpr ⟨number, number, .inl rfl⟩

theorem equalsTrans (first : x.equals y = true) (second : y.equals z = true) : x.equals z = true := by
  obtain ⟨number, -, same | ⟨zero, zeroToo⟩⟩ := equalsIff.mp first
  · rwa [show x = y from congrArg Binary64.mk same]
  · obtain ⟨-, numberToo, same | ⟨-, zeroThere⟩⟩ := equalsIff.mp second
    · rw [show y = z from congrArg Binary64.mk same] at zeroToo
      exact equalsIff.mpr ⟨number, numberToo, .inr ⟨zero, zeroToo⟩⟩
    · exact equalsIff.mpr ⟨number, numberToo, .inr ⟨zero, zeroThere⟩⟩

end Binary64

namespace Value

inductive Alike : Value → Value → Prop where
  | null : Alike null null
  | bool (b : Bool) : Alike (bool b) (bool b)
  | int (n : Int64) : Alike (int n) (int n)
  | real {x y : Binary64} (equal : x.equals y = true) : Alike (real x) (real y)
  | str (bytes : Bytes) (hex other : Bool) : Alike (str bytes hex) (str bytes other)
  | name (text : String) : Alike (name text) (name text)
  | ref (id : ObjId) : Alike (ref id) (ref id)
  | arr {items others : List Value} (size : items.length = others.length)
      (alike : ∀ pair ∈ items.zip others, Alike pair.1 pair.2) : Alike (arr items) (arr others)
  | dict {entries others : Entries} (size : entries.length = others.length)
      (bound : ∀ entry ∈ entries, ∃ b, others.lookup entry.1 = some b)
      (alike : ∀ entry ∈ entries, ∀ b, others.lookup entry.1 = some b → Alike entry.2 b) :
      Alike (dict entries) (dict others)

theorem agreesAlike {a b : Value} : a.agrees b = .ok true ↔ Alike a b := by
  constructor
  · intro yes
    induction a using byParts generalizing b with
    | leaf a notArray notDictionary =>
      cases a <;> cases b <;> simp_all [agrees, kind]
      all_goals first
        | exact .real yes
        | constructor
    | arrays items ih =>
      cases b <;> simp only [agrees, Except.ok.injEq, Bool.false_eq_true, reduceCtorEq] at yes
      next others =>
      split at yes
      · next size =>
        rw [agreesItemsSettle, settleTrue] at yes
        exact .arr size fun pair among => ih _ (List.of_mem_zip among).1 (yes pair among)
      · cases yes
    | dictionaries entries ih =>
      cases b <;> simp only [agrees, Except.ok.injEq, Bool.false_eq_true, reduceCtorEq] at yes
      next others =>
      split at yes
      · next size =>
        rw [agreesEntriesSettle, settleTrue] at yes
        refine .dict size (fun entry among => ?_) fun entry among b found => ?_
        · obtain ⟨b, found, -⟩ := entryTrue (yes entry among)
          exact ⟨b, found⟩
        · exact ih entry among ((entryBound found).symm.trans (yes entry among))
      · cases yes
  · intro alike
    induction alike with
    | null => rfl
    | bool | int | str | name | ref => simp [agrees]
    | real equal => rw [agrees, equal]
    | arr size alike ih => rwa [agreesArrays size, settleTrue]
    | dict size bound alike ih =>
      rw [agreesDictionaries size, settleTrue]
      intro entry among
      obtain ⟨b, found⟩ := bound entry among
      exact (entryBound found).trans (ih entry among b found)

theorem zipMiddle {items others thirds : List Value} (size : items.length = others.length)
    {pair : Value × Value} (among : pair ∈ items.zip thirds) (sizeToo : others.length = thirds.length) :
    ∃ middle, (pair.1, middle) ∈ items.zip others ∧ (middle, pair.2) ∈ others.zip thirds := by
  obtain ⟨place, inside, rfl⟩ := List.mem_iff_getElem.mp among
  rw [List.length_zip] at inside
  have between : place < others.length := by omega
  refine ⟨others[place], ?_, ?_⟩
  · exact List.mem_iff_getElem.mpr ⟨place, by rw [List.length_zip]; omega, by simp⟩
  · exact List.mem_iff_getElem.mpr ⟨place, by rw [List.length_zip]; omega, by simp⟩

theorem alikeTrans {a b c : Value} (first : Alike a b) (second : Alike b c) : Alike a c := by
  induction first generalizing c with
  | null | bool | int | name | ref => exact second
  | real equal =>
    cases second with
    | real equalToo => exact .real (Binary64.equalsTrans equal equalToo)
  | str bytes hex other =>
    cases second with
    | str _ _ last => exact .str bytes hex last
  | arr size alike ih =>
    cases second with
    | arr sizeToo alikeToo =>
      refine .arr (size.trans sizeToo) fun pair among => ?_
      obtain ⟨middle, left, right⟩ := zipMiddle size among sizeToo
      exact ih _ left (alikeToo _ right)
  | dict size bound alike ih =>
    cases second with
    | dict sizeToo boundToo alikeToo =>
      refine .dict (size.trans sizeToo) (fun entry among => ?_) fun entry among c last => ?_
      · obtain ⟨b, found⟩ := bound entry among
        exact boundToo (entry.1, b) (Entries.lookupMem found)
      · obtain ⟨b, found⟩ := bound entry among
        exact ih entry among b found (alikeToo (entry.1, b) (Entries.lookupMem found) c last)

structure Comparable (v : Value) : Prop where
  cooked : v.Every (Cooked fun x => x.isNaN = false)
  keyed : v.Keyed

variable {a b c new old : Value} {items : List Value} {entries others : Entries} {path : Path}

theorem comparableItems : (arr items).Comparable ↔ ∀ v ∈ items, v.Comparable := by
  constructor
  · rintro ⟨⟨-, cooked⟩, keyed⟩ v among
    exact ⟨everyItemIff.mp cooked v among, keyedItemIff.mp keyed v among⟩
  · intro parts
    exact ⟨⟨trivial, everyItemIff.mpr fun v among => (parts v among).cooked⟩,
      keyedItemIff.mpr fun v among => (parts v among).keyed⟩

theorem comparableEntries : (dict entries).Comparable ↔
    (entries.map Prod.fst).Nodup ∧ ∀ entry ∈ entries, entry.2.Comparable := by
  constructor
  · rintro ⟨⟨-, cooked⟩, once, keyed⟩
    exact ⟨once, fun entry among =>
      ⟨everyEntryIff.mp cooked entry among, keyedEntryIff.mp keyed entry among⟩⟩
  · rintro ⟨once, parts⟩
    exact ⟨⟨trivial, everyEntryIff.mpr fun entry among => (parts entry among).cooked⟩, once,
      keyedEntryIff.mpr fun entry among => (parts entry among).keyed⟩

theorem comparableKind (comparable : a.Comparable) : a.kind ≠ .rawData := by
  cases a with
  | raw => exact comparable.cooked.elim
  | _ => exact nofun

theorem comparableAnswers (first : a.Comparable) (second : b.Comparable) :
    ∃ same, a.agrees b = .ok same := by
  induction a, b using byComparing with
  | direct a b direct =>
    rcases direct.outcome with ⟨raw | raw, -⟩ | answered
    · exact absurd raw (comparableKind first)
    · exact absurd raw (comparableKind second)
    · exact answered
  | arrays items others size ih =>
    rw [agreesArrays size]
    refine settleAnswers fun pair among => ?_
    obtain ⟨left, right⟩ := List.of_mem_zip among
    exact ih _ left _ (comparableItems.mp first _ left) (comparableItems.mp second _ right)
  | dictionaries entries others size ih =>
    rw [agreesDictionaries size]
    refine settleAnswers fun entry among => ?_
    cases found : others.lookup entry.1 with
    | none => exact ⟨false, entryUnbound found⟩
    | some b =>
      obtain ⟨same, answered⟩ := ih entry among b ((comparableEntries.mp first).2 _ among)
        ((comparableEntries.mp second).2 _ (Entries.lookupMem found))
      exact ⟨same, (entryBound found).trans answered⟩

theorem comparableTurned (first : a.Comparable) (second : b.Comparable) :
    a.agrees b = b.agrees a := by
  by_contra unequal
  rcases unequalAnswers first.keyed second.keyed unequal with ⟨-, refused⟩ | ⟨refused, -⟩
  · obtain ⟨same, answered⟩ := comparableAnswers second first
    cases answered.symm.trans refused
  · obtain ⟨same, answered⟩ := comparableAnswers first second
    cases answered.symm.trans refused

theorem alikeOrder (once : (others.map Prod.fst).Nodup) (order : entries.Perm others)
    (self : ∀ entry ∈ entries, Alike entry.2 entry.2) : Alike (dict entries) (dict others) := by
  have found : ∀ entry ∈ entries, others.lookup entry.1 = some entry.2 := fun entry among =>
    Entries.memLookup once (order.mem_iff.mp among)
  refine .dict order.length_eq (fun entry among => ⟨_, found entry among⟩) fun entry among b there => ?_
  cases (found entry among).symm.trans there
  exact self entry among

theorem comparableSelf (comparable : a.Comparable) : Alike a a := by
  induction a using byParts with
  | leaf a notArray notDictionary =>
    cases a with
    | real x => exact .real (Binary64.equalsSelf comparable.cooked)
    | raw => exact comparable.cooked.elim
    | arr => exact absurd rfl notArray
    | dict => exact absurd rfl notDictionary
    | _ => constructor
  | arrays items ih =>
    refine .arr rfl fun pair among => ?_
    obtain ⟨place, inside, rfl⟩ := List.mem_iff_getElem.mp among
    rw [List.getElem_zip]
    exact ih _ (List.getElem_mem _) (comparableItems.mp comparable _ (List.getElem_mem _))
  | dictionaries entries ih =>
    obtain ⟨once, parts⟩ := comparableEntries.mp comparable
    exact alikeOrder once (.refl entries) fun entry among => ih entry among (parts entry among)

theorem setAgrees {place : Nat} {child v : Value} (self : ∀ v ∈ items, Alike v v)
    (below : items[place]? = some child) :
    (arr items).agrees (arr (items.set place v)) = child.agrees v := by
  obtain ⟨within, rfl⟩ := List.getElem?_eq_some_iff.mp below
  rw [agreesArrays (List.length_set ..).symm]
  refine settleOnly (fun pair among => ?_) ⟨(items[place], v), ?_, rfl⟩
  · obtain ⟨other, bound, rfl⟩ := List.mem_iff_getElem.mp among
    rw [List.getElem_zip, List.getElem_set]
    split
    · next same =>
      subst same
      exact .inr rfl
    · exact .inl (agreesAlike.mpr (self _ (List.getElem_mem _)))
  · exact List.mem_iff_getElem.mpr ⟨place, by simpa using within, by simp⟩

theorem putAgrees {key : String} {child v : Value} (once : (entries.map Prod.fst).Nodup)
    (self : ∀ entry ∈ entries, Alike entry.2 entry.2) (below : entries.lookup key = some child) :
    (dict entries).agrees (dict (Entries.put key v entries)) = child.agrees v := by
  have keys : (Entries.put key v entries).map Prod.fst = entries.map Prod.fst := Entries.keysPut below
  rw [agreesDictionaries (by simpa using (congrArg List.length keys).symm)]
  refine settleOnly (fun entry among => ?_) ⟨_, Entries.lookupMem below, entryBound Entries.lookupPut⟩
  obtain ⟨other, w⟩ := entry
  have own := Entries.memLookup once among
  by_cases same : other = key
  · subst same
    cases own.symm.trans below
    exact .inr (entryBound Entries.lookupPut)
  · have kept : (Entries.put key v entries).lookup other = some w :=
      (Entries.lookupPutOther same).trans own
    exact .inl ((entryBound kept).trans (agreesAlike.mpr (self _ among)))

theorem replacedAgrees (comparable : a.Comparable) (here : a.at? path = some old) :
    a.agrees (replaceAt new path a) = old.agrees new := by
  induction path generalizing a with
  | nil =>
    cases here
    rfl
  | cons step path ih =>
    obtain ⟨child, below, inside⟩ := Option.bind_eq_some_iff.mp here
    cases step with
    | index place =>
      cases a with
      | arr items =>
        have below : items[place]? = some child := below
        have parts := comparableItems.mp comparable
        rw [replaceAt, below]
        exact (setAgrees (fun v among => comparableSelf (parts v among)) below).trans
          (ih (parts child (List.mem_of_getElem? below)) inside)
      | _ => cases below
    | key key =>
      cases a with
      | dict entries =>
        have below : entries.lookup key = some child := below
        obtain ⟨once, parts⟩ := comparableEntries.mp comparable
        rw [replaceAt, below]
        exact (putAgrees once (fun entry among => comparableSelf (parts entry among)) below).trans
          (ih (parts _ (Entries.lookupMem below)) inside)
      | _ => cases below

theorem replacedComparable (comparable : a.Comparable) (newToo : new.Comparable) (path : Path) :
    (replaceAt new path a).Comparable := by
  induction path generalizing a with
  | nil => exact newToo
  | cons step path ih =>
    cases step with
    | index place =>
      cases a with
      | arr items =>
        rw [replaceAt]
        split
        · next child below =>
          have parts := comparableItems.mp comparable
          refine comparableItems.mpr fun v among => ?_
          rcases List.mem_or_eq_of_mem_set among with kept | rfl
          · exact parts v kept
          · exact ih (parts child (List.mem_of_getElem? below))
        · exact comparable
      | _ => exact comparable
    | key key =>
      cases a with
      | dict entries =>
        rw [replaceAt]
        split
        · next child below =>
          obtain ⟨once, parts⟩ := comparableEntries.mp comparable
          refine comparableEntries.mpr ⟨Entries.keysNodupPut once, fun entry among => ?_⟩
          rcases Entries.memPut among with replaced | kept
          · rw [replaced]
            exact ih (parts _ (Entries.lookupMem below))
          · exact parts entry kept
        · exact comparable
      | _ => exact comparable

theorem partComparable (comparable : a.Comparable) (here : a.at? path = some old) :
    old.Comparable := by
  induction path generalizing a with
  | nil =>
    cases here
    exact comparable
  | cons step path ih =>
    obtain ⟨child, below, inside⟩ := Option.bind_eq_some_iff.mp here
    refine ih ?_ inside
    cases step with
    | index place =>
      cases a with
      | arr items => exact comparableItems.mp comparable child (List.mem_of_getElem? below)
      | _ => cases below
    | key key =>
      cases a with
      | dict entries => exact (comparableEntries.mp comparable).2 _ (Entries.lookupMem below)
      | _ => cases below

inductive Redraw (a : Value) : Value → Prop where
  | form (path : Path) (bytes : Bytes) (hex : Bool) (here : a.at? path = some (str bytes hex)) :
      Redraw a (replaceAt (str bytes !hex) path a)
  | order (path : Path) (entries others : Entries) (here : a.at? path = some (dict entries))
      (order : entries.Perm others) : Redraw a (replaceAt (dict others) path a)

def Redrawn : Value → Value → Prop := Relation.ReflTransGen Redraw

theorem redrawAlike (comparable : a.Comparable) (redraw : Redraw a b) :
    b.Comparable ∧ Alike a b := by
  cases redraw with
  | form path bytes hex here =>
    have flat : (str bytes !hex).Comparable := ⟨trivial, trivial⟩
    refine ⟨replacedComparable comparable flat path, agreesAlike.mp ?_⟩
    rw [replacedAgrees comparable here]
    exact agreesAlike.mpr (.str ..)
  | order path entries others here order =>
    obtain ⟨once, parts⟩ := comparableEntries.mp (partComparable comparable here)
    have onceToo : (others.map Prod.fst).Nodup := (order.map Prod.fst).nodup_iff.mp once
    refine ⟨replacedComparable comparable (comparableEntries.mpr ⟨onceToo, fun entry among =>
      parts entry (order.mem_iff.mpr among)⟩) _, agreesAlike.mp ?_⟩
    rw [replacedAgrees comparable here]
    have self : ∀ entry ∈ entries, Alike entry.2 entry.2 := fun entry among =>
      comparableSelf (parts entry among)
    exact agreesAlike.mpr (alikeOrder onceToo order self)

theorem redrawnAlike (comparable : a.Comparable) (redrawn : Redrawn a b) :
    b.Comparable ∧ Alike a b := by
  induction redrawn with
  | refl => exact ⟨comparable, comparableSelf comparable⟩
  | tail _ redraw ih =>
    obtain ⟨middle, alike⟩ := ih
    obtain ⟨last, alikeToo⟩ := redrawAlike middle redraw
    exact ⟨last, alikeTrans alike alikeToo⟩

theorem comparableEquivalence (comparable : a.Comparable) :
    a.agrees a = .ok true ∧
      (∀ b, b.Comparable → (∃ same, a.agrees b = .ok same ∧ b.agrees a = .ok same) ∧
        (a.agrees b = .ok true → ∀ c, c.Comparable → b.agrees c = .ok true → a.agrees c = .ok true)) ∧
      (∀ b, Redrawn a b → b.Comparable ∧ a.agrees b = .ok true) ∧
      ∀ path old new, a.at? path = some old → new.Comparable → new.kind ≠ old.kind →
        a.agrees (replaceAt new path a) = .ok false := by
  refine ⟨agreesAlike.mpr (comparableSelf comparable), fun b second => ⟨?_, ?_⟩, fun b redrawn => ?_,
    fun path old new here newToo other => ?_⟩
  · obtain ⟨same, answered⟩ := comparableAnswers comparable second
    exact ⟨same, answered, (comparableTurned comparable second).symm.trans answered⟩
  · intro yes c _ yesToo
    exact agreesAlike.mpr (alikeTrans (agreesAlike.mp yes) (agreesAlike.mp yesToo))
  · obtain ⟨last, alike⟩ := redrawnAlike comparable redrawn
    exact ⟨last, agreesAlike.mpr alike⟩
  · rw [replacedAgrees comparable here]
    exact agreesOtherKind (comparableKind (partComparable comparable here)) (comparableKind newToo)
      (Ne.symm other)

def titled (size : Value) : Value := arr [dict [("Size", size), ("Title", str [0x41] false)]]

def titledRedrawn (size : Value) : Value := arr [dict [("Title", str [0x41] true), ("Size", size)]]

theorem titledEquivalence : (titled (int 1)).Comparable ∧
    (titled (int 1)).agrees (titledRedrawn (int 1)) = .ok true ∧
    (titled (int 1)).agrees (titled (real ⟨0x3FF0000000000000⟩)) = .ok false := by
  have comparable : (titled (int 1)).Comparable := by
    refine ⟨⟨trivial, ⟨trivial, trivial, trivial, trivial⟩, trivial⟩, ⟨?_, trivial, trivial, trivial⟩, trivial⟩
    decide
  obtain ⟨-, -, redrawn, replaced⟩ := comparableEquivalence comparable
  have form : Redraw (titled (int 1)) (arr [dict [("Size", int 1), ("Title", str [0x41] true)]]) :=
    .form [.index 0, .key "Title"] [0x41] false rfl
  have order : Redraw (arr [dict [("Size", int 1), ("Title", str [0x41] true)]])
      (titledRedrawn (int 1)) :=
    .order [.index 0] _ [("Title", str [0x41] true), ("Size", int 1)] rfl (.swap ..)
  exact ⟨comparable, (redrawn _ (.tail (.single form) order)).2,
    replaced [.index 0, .key "Size"] (int 1) (real ⟨0x3FF0000000000000⟩) rfl ⟨rfl, trivial⟩ nofun⟩

end Value
end PdfBody
