import Mathlib.Data.List.Perm.Subperm
import Mathlib.Data.List.Zip
import PdfBody.Value.Compare
import PdfBody.Proofs.Value.Shape

/-! What it depends on whether two values agree. Parts are compared one after the other, and the first
outcome that is not a plain yes decides. A yes does not depend on which of the two values comes first. -/
namespace PdfBody

theorem Binary64.equalsSymm (x y : Binary64) : x.equals y = y.equals x := by
  unfold equals
  rw [Bool.and_comm (!x.isNaN), Bool.beq_comm (a := x.bits), Bool.and_comm x.isZero]

namespace Entries

theorem keysSame {α : Type} {entries others : List (String × α)}
    (once : (entries.map Prod.fst).Nodup) (size : entries.length = others.length)
    (among : ∀ entry ∈ entries, entry.1 ∈ others.map Prod.fst) :
    (entries.map Prod.fst).Perm (others.map Prod.fst) := by
  refine (once.subperm fun key found => ?_).perm_of_length_le (by simp [size])
  obtain ⟨entry, here, rfl⟩ := List.mem_map.mp found
  exact among entry here

end Entries

namespace Value

def settle {α : Type} (compare : α → Except Fault Bool) : List α → Except Fault Bool
  | [] => .ok true
  | x :: rest =>
    match compare x with
    | .ok true => settle compare rest
    | other => other

section

variable {α : Type} {compare : α → Except Fault Bool} {front back parts : List α} {x : α}
  {outcome : Except Fault Bool}

theorem settleOn (yes : compare x = .ok true) (rest : List α) :
    settle compare (x :: rest) = settle compare rest := by
  rw [settle, yes]

theorem settleStops (off : compare x ≠ .ok true) (rest : List α) :
    settle compare (x :: rest) = compare x := by
  rw [settle]
  split
  · next yes => exact absurd yes off
  · rfl

theorem settleAt (yes : ∀ y ∈ front, compare y = .ok true) (off : compare x ≠ .ok true) :
    settle compare (front ++ x :: back) = compare x := by
  induction front with
  | nil => exact settleStops off back
  | cons y front ih =>
    obtain ⟨here, later⟩ := List.forall_mem_cons.mp yes
    rw [List.cons_append, settleOn here, ih later]

theorem settleFirst (off : settle compare parts ≠ .ok true) : ∃ front x back,
    parts = front ++ x :: back ∧ (∀ y ∈ front, compare y = .ok true) ∧
      compare x = settle compare parts := by
  induction parts with
  | nil => exact absurd rfl off
  | cons x rest ih =>
    by_cases yes : compare x = .ok true
    · rw [settleOn yes] at off ⊢
      obtain ⟨front, y, back, split, before, decides⟩ := ih off
      exact ⟨x :: front, y, back, congrArg _ split, List.forall_mem_cons.mpr ⟨yes, before⟩, decides⟩
    · exact ⟨[], x, rest, rfl, nofun, (settleStops yes rest).symm⟩

theorem settleTrue : settle compare parts = .ok true ↔ ∀ x ∈ parts, compare x = .ok true := by
  constructor
  · intro settled
    induction parts with
    | nil => exact nofun
    | cons x rest ih =>
      by_cases yes : compare x = .ok true
      · rw [settleOn yes] at settled
        exact List.forall_mem_cons.mpr ⟨yes, ih settled⟩
      · rw [settleStops yes] at settled
        exact absurd settled yes
  · intro yes
    by_contra off
    obtain ⟨front, x, back, rfl, -, decides⟩ := settleFirst off
    exact off (decides.symm.trans (yes x (by simp)))

theorem settleAnswers (answers : ∀ x ∈ parts, ∃ same, compare x = .ok same) :
    ∃ same, settle compare parts = .ok same := by
  by_cases yes : settle compare parts = .ok true
  · exact ⟨true, yes⟩
  · obtain ⟨front, x, back, rfl, -, decides⟩ := settleFirst yes
    rw [← decides]
    exact answers x (by simp)

theorem settleOnly (others : ∀ x ∈ parts, compare x = .ok true ∨ compare x = outcome)
    (occurs : ∃ x ∈ parts, compare x = outcome) : settle compare parts = outcome := by
  by_cases yes : settle compare parts = .ok true
  · obtain ⟨x, among, decides⟩ := occurs
    rw [yes, ← decides, settleTrue.mp yes x among]
  · obtain ⟨front, x, back, rfl, -, decides⟩ := settleFirst yes
    rw [← decides] at yes ⊢
    exact (others x (by simp)).resolve_left yes

end

def pairAgrees (pair : Value × Value) : Except Fault Bool := pair.1.agrees pair.2

def entryAgrees (others : Entries) (entry : String × Value) : Except Fault Bool :=
  match others.lookup entry.1 with
  | none => .ok false
  | some v => entry.2.agrees v

theorem agreesItemsSettle (items others : List Value) :
    agreesItems items others = settle pairAgrees (items.zip others) := by
  induction items generalizing others with
  | nil => rfl
  | cons a items ih =>
    cases others with
    | nil => rfl
    | cons b others =>
      have here : pairAgrees (a, b) = a.agrees b := rfl
      rw [agreesItems, List.zip_cons_cons]
      split
      · next yes => rw [settleOn (here.trans yes), ih]
      · next off => rw [settleStops (here ▸ off), here]

theorem agreesEntriesSettle (entries others : Entries) :
    agreesEntries entries others = settle (entryAgrees others) entries := by
  induction entries with
  | nil => rfl
  | cons entry entries ih =>
    obtain ⟨key, a⟩ := entry
    rw [agreesEntries]
    cases found : others.lookup key with
    | none =>
      have missing : entryAgrees others (key, a) = .ok false := by rw [entryAgrees, found]
      rw [settleStops (by rw [missing]; nofun), missing]
    | some b =>
      have bound : entryAgrees others (key, a) = a.agrees b := by rw [entryAgrees, found]
      dsimp only
      split
      · next yes => rw [settleOn (bound.trans yes), ih]
      · next off => rw [settleStops (bound ▸ off), bound]

theorem agreesArrays {items others : List Value} (size : items.length = others.length) :
    (arr items).agrees (arr others) = settle pairAgrees (items.zip others) := by
  rw [agrees, if_pos size, agreesItemsSettle]

theorem agreesDictionaries {entries others : Entries} (size : entries.length = others.length) :
    (dict entries).agrees (dict others) = settle (entryAgrees others) entries := by
  rw [agrees, if_pos size, agreesEntriesSettle]

theorem agreesRaw {a b : Value} (some : a.kind = .rawData ∨ b.kind = .rawData) :
    a.agrees b = .error incomparable := by
  cases a <;> cases b <;> simp_all [kind, agrees]

theorem agreesOtherKind {a b : Value} (first : a.kind ≠ .rawData) (second : b.kind ≠ .rawData)
    (other : a.kind ≠ b.kind) : a.agrees b = .ok false := by
  cases a <;> cases b <;> simp_all [kind, agrees]

structure Direct (a b : Value) : Prop where
  turned : a.agrees b = b.agrees a
  outcome : (a.kind = .rawData ∨ b.kind = .rawData) ∧ a.agrees b = .error incomparable ∨
    ∃ same, a.agrees b = .ok same

inductive Compared : Value → Value → Prop where
  | direct {a b : Value} (direct : Direct a b) : Compared a b
  | arrays {items others : List Value} (size : items.length = others.length) :
      Compared (arr items) (arr others)
  | dictionaries {entries others : Entries} (size : entries.length = others.length) :
      Compared (dict entries) (dict others)

theorem compared (a b : Value) : Compared a b := by
  by_cases raw : a.kind = .rawData ∨ b.kind = .rawData
  · refine .direct ⟨?_, .inl ⟨raw, agreesRaw raw⟩⟩
    rw [agreesRaw raw, agreesRaw raw.symm]
  obtain ⟨first, second⟩ := not_or.mp raw
  by_cases same : a.kind = b.kind
  · cases a with
    | raw bytes => exact absurd rfl first
    | arr items =>
      cases b <;> cases same
      next others =>
      by_cases size : items.length = others.length
      · exact .arrays size
      · exact .direct ⟨by rw [agrees, agrees, if_neg size, if_neg (Ne.symm size)],
          .inr ⟨false, by rw [agrees, if_neg size]⟩⟩
    | dict entries =>
      cases b <;> cases same
      next others =>
      by_cases size : entries.length = others.length
      · exact .dictionaries size
      · exact .direct ⟨by rw [agrees, agrees, if_neg size, if_neg (Ne.symm size)],
          .inr ⟨false, by rw [agrees, if_neg size]⟩⟩
    | _ =>
      cases b <;> cases same
      exact .direct ⟨by simp [agrees, BEq.comm, Binary64.equalsSymm], .inr ⟨_, rfl⟩⟩
  · refine .direct ⟨?_, .inr ⟨false, agreesOtherKind first second same⟩⟩
    rw [agreesOtherKind first second same, agreesOtherKind second first (Ne.symm same)]

theorem byComparing {motive : Value → Value → Prop} (direct : ∀ a b, Direct a b → motive a b)
    (arrays : ∀ items others : List Value, items.length = others.length →
      (∀ a ∈ items, ∀ b, motive a b) → motive (arr items) (arr others))
    (dictionaries : ∀ entries others : Entries, entries.length = others.length →
      (∀ entry ∈ entries, ∀ b, motive entry.2 b) → motive (dict entries) (dict others)) :
    ∀ a b, motive a b := by
  intro a
  induction a using byParts with
  | leaf v notArray notDictionary =>
    intro b
    cases compared v b with
    | direct p => exact direct _ _ p
    | arrays size => exact absurd rfl notArray
    | dictionaries size => exact absurd rfl notDictionary
  | arrays items ih =>
    intro b
    cases compared (arr items) b with
    | direct p => exact direct _ _ p
    | arrays size => exact arrays _ _ size ih
  | dictionaries entries ih =>
    intro b
    cases compared (dict entries) b with
    | direct p => exact direct _ _ p
    | dictionaries size => exact dictionaries _ _ size ih

variable {a b : Value} {items lefts : List Value} {entries others : Entries}

theorem entryBound {key : String} (found : others.lookup key = some b) :
    entryAgrees others (key, a) = a.agrees b := by
  rw [entryAgrees, found]

theorem entryUnbound {key : String} (missing : others.lookup key = none) :
    entryAgrees others (key, a) = .ok false := by
  rw [entryAgrees, missing]

theorem entryTrue {entry : String × Value} (yes : entryAgrees others entry = .ok true) :
    ∃ b, others.lookup entry.1 = some b ∧ entry.2.agrees b = .ok true := by
  cases found : others.lookup entry.1 with
  | none => cases yes.symm.trans (entryUnbound found)
  | some b => exact ⟨b, rfl, (entryBound found).symm.trans yes⟩

theorem agreesFault {fault : Fault} (failed : a.agrees b = .error fault) : fault = incomparable := by
  induction a, b using byComparing generalizing fault with
  | direct a b direct =>
    rcases direct.outcome with ⟨-, refused⟩ | ⟨same, answered⟩
    · cases refused.symm.trans failed
      rfl
    · cases answered.symm.trans failed
  | arrays items others size ih =>
    rw [agreesArrays size] at failed
    obtain ⟨front, ⟨a, b⟩, back, split, -, decides⟩ := settleFirst (by rw [failed]; nofun)
    have among : (a, b) ∈ items.zip others := by simp [split]
    exact ih a (List.of_mem_zip among).1 b (decides.trans failed)
  | dictionaries entries others size ih =>
    rw [agreesDictionaries size] at failed
    obtain ⟨front, ⟨key, a⟩, back, split, -, decides⟩ := settleFirst (by rw [failed]; nofun)
    have among : (key, a) ∈ entries := by simp [split]
    cases found : others.lookup key with
    | none => cases (entryUnbound found).symm.trans (decides.trans failed)
    | some b => exact ih _ among b ((entryBound found).symm.trans (decides.trans failed))

theorem zipTurned {pair : Value × Value} (among : pair ∈ lefts.zip items) :
    pair.swap ∈ items.zip lefts := by
  rw [← List.zip_swap lefts items]
  exact List.mem_map_of_mem among

theorem agreesTurned (keyed : a.Keyed) (keyedToo : b.Keyed) (yes : a.agrees b = .ok true) :
    b.agrees a = .ok true := by
  induction a, b using byComparing with
  | direct a b direct => exact direct.turned.symm.trans yes
  | arrays items others size ih =>
    rw [agreesArrays size, settleTrue] at yes
    rw [agreesArrays size.symm, settleTrue]
    rintro ⟨b, a⟩ among
    have turned := zipTurned among
    obtain ⟨left, right⟩ := List.of_mem_zip turned
    exact ih a left b (keyedItemIff.mp keyed a left) (keyedItemIff.mp keyedToo b right)
      (yes _ turned)
  | dictionaries entries others size ih =>
    rw [agreesDictionaries size, settleTrue] at yes
    rw [agreesDictionaries size.symm, settleTrue]
    -- every entry of ours is bound by theirs, and as many are, so that none of theirs is left over
    have keys := Entries.keysSame keyed.1 size fun entry among => by
      obtain ⟨b, found, -⟩ := entryTrue (yes entry among)
      exact List.mem_map.mpr ⟨_, Entries.lookupMem found, rfl⟩
    rintro ⟨key, b⟩ among
    obtain ⟨⟨_, a⟩, here, rfl⟩ := List.mem_map.mp (keys.mem_iff.mpr (List.mem_map_of_mem among))
    obtain ⟨c, found, agree⟩ := entryTrue (yes _ here)
    cases (Entries.memLookup keyedToo.1 among).symm.trans found
    rw [entryBound (Entries.memLookup keyed.1 here)]
    exact ih _ here b (keyedEntryIff.mp keyed.2 _ here) (keyedEntryIff.mp keyedToo.2 _ among) agree

theorem agreesOff (keyed : a.Keyed) (keyedToo : b.Keyed) (unequal : a.agrees b ≠ b.agrees a) :
    a.agrees b ≠ .ok true ∧ b.agrees a ≠ .ok true :=
  ⟨fun yes => unequal (yes.trans (agreesTurned keyed keyedToo yes).symm),
    fun yes => unequal ((agreesTurned keyedToo keyed yes).trans yes.symm)⟩

theorem unequalAnswers (keyed : a.Keyed) (keyedToo : b.Keyed) (unequal : a.agrees b ≠ b.agrees a) :
    a.agrees b = .ok false ∧ b.agrees a = .error incomparable ∨
      a.agrees b = .error incomparable ∧ b.agrees a = .ok false := by
  obtain ⟨off, offToo⟩ := agreesOff keyed keyedToo unequal
  cases first : a.agrees b with
  | error fault =>
    cases agreesFault first
    cases second : b.agrees a with
    | error fault =>
      cases agreesFault second
      exact absurd (first.trans second.symm) unequal
    | ok same =>
      cases same with
      | false => exact .inr ⟨rfl, rfl⟩
      | true => exact absurd second offToo
  | ok same =>
    cases same with
    | true => exact absurd first off
    | false =>
      cases second : b.agrees a with
      | error fault =>
        cases agreesFault second
        exact .inl ⟨rfl, rfl⟩
      | ok same =>
        cases same with
        | false => exact absurd (first.trans second.symm) unequal
        | true => exact absurd second offToo

end Value
end PdfBody
