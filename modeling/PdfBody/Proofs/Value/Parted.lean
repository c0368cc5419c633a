import PdfBody.Proofs.Value.Agreement

/-! Where agreement depends on which of two values comes first. A dictionary is compared in the order of
its own entries, so that two dictionaries may part: one comes first upon an entry that differs, the other
upon raw data. -/
namespace PdfBody.Value

variable {a b : Value} {items lefts : List Value} {entries others : Entries}

structure Decides (entries others : Entries) (key : String) (outcome : Except Fault Bool) : Prop where
  off : outcome ≠ .ok true
  first : ∃ front v back, entries = front ++ (key, v) :: back ∧
    (∀ entry ∈ front, entryAgrees others entry = .ok true) ∧ entryAgrees others (key, v) = outcome

theorem settleDecides (off : settle (entryAgrees others) entries ≠ .ok true) :
    ∃ key, Decides entries others key (settle (entryAgrees others) entries) := by
  obtain ⟨front, ⟨key, v⟩, back, split, before, decides⟩ := settleFirst off
  exact ⟨key, off, front, v, back, split, before, decides⟩

namespace Decides

variable {key : String} {outcome : Except Fault Bool}

theorem settled (decides : Decides entries others key outcome) :
    settle (entryAgrees others) entries = outcome := by
  obtain ⟨off, front, v, back, rfl, before, rfl⟩ := decides
  exact settleAt before off

theorem among (decides : Decides entries others key outcome) : ∃ v, (key, v) ∈ entries := by
  obtain ⟨-, front, v, back, rfl, -⟩ := decides
  exact ⟨v, List.mem_append_right front List.mem_cons_self⟩

theorem bound (decides : Decides entries others key outcome) (once : (entries.map Prod.fst).Nodup)
    (here : (key, a) ∈ entries) (found : others.lookup key = some b) : a.agrees b = outcome := by
  obtain ⟨-, front, v, back, rfl, -, rfl⟩ := decides
  have own : (front ++ (key, v) :: back).lookup key = some v :=
    Entries.memLookup once (List.mem_append_right front List.mem_cons_self)
  cases own.symm.trans (Entries.memLookup once here)
  exact (entryBound found).symm

end Decides

/-- At the same place in both values stand dictionaries of one size, and the first of its entries that
is no plain yes is another one for each: for the one it differs, for the other it comes upon raw data. -/
inductive Parted : Value → Value → Prop where
  | item {front lefts back rests : List Value} {a b : Value} (level : front.length = lefts.length)
      (size : back.length = rests.length)
      (alike : ∀ pair ∈ front.zip lefts, pair.1.agrees pair.2 = .ok true) (parted : Parted a b) :
      Parted (arr (front ++ a :: back)) (arr (lefts ++ b :: rests))
  | entry {entries others : Entries} {key : String} {a b : Value} {first second : Except Fault Bool}
      (size : entries.length = others.length) (here : (key, a) ∈ entries) (there : (key, b) ∈ others)
      (decides : Decides entries others key first) (turned : Decides others entries key second)
      (parted : Parted a b) : Parted (dict entries) (dict others)
  | differs {entries others : Entries} {key other : String} (size : entries.length = others.length)
      (different : key ≠ other) (decides : Decides entries others key (.ok false))
      (turned : Decides others entries other (.error incomparable)) :
      Parted (dict entries) (dict others)
  | refused {entries others : Entries} {key other : String} (size : entries.length = others.length)
      (different : key ≠ other) (decides : Decides entries others key (.error incomparable))
      (turned : Decides others entries other (.ok false)) : Parted (dict entries) (dict others)

theorem itemDecides {front back rests : List Value} (level : front.length = lefts.length)
    (size : back.length = rests.length)
    (alike : ∀ pair ∈ front.zip lefts, pair.1.agrees pair.2 = .ok true) (off : a.agrees b ≠ .ok true) :
    (arr (front ++ a :: back)).agrees (arr (lefts ++ b :: rests)) = a.agrees b := by
  rw [agreesArrays (by simp [level, size]), List.zip_append level, List.zip_cons_cons]
  exact settleAt alike off

theorem itemDecidesBoth {front back rests : List Value}
    (keyed : (arr (front ++ a :: back)).Keyed) (keyedToo : (arr (lefts ++ b :: rests)).Keyed)
    (level : front.length = lefts.length) (size : back.length = rests.length)
    (alike : ∀ pair ∈ front.zip lefts, pair.1.agrees pair.2 = .ok true) (off : a.agrees b ≠ .ok true) :
    (arr (front ++ a :: back)).agrees (arr (lefts ++ b :: rests)) = a.agrees b ∧
      (arr (lefts ++ b :: rests)).agrees (arr (front ++ a :: back)) = b.agrees a := by
  have ours := keyedItemIff.mp keyed
  have theirs := keyedItemIff.mp keyedToo
  have offToo : b.agrees a ≠ .ok true := fun yes =>
    off (agreesTurned (theirs b (by simp)) (ours a (by simp)) yes)
  have alikeToo : ∀ pair ∈ lefts.zip front, pair.1.agrees pair.2 = .ok true := by
    intro pair among
    have turned := zipTurned among
    obtain ⟨left, right⟩ := List.of_mem_zip turned
    exact agreesTurned (ours _ (List.mem_append_left _ left)) (theirs _ (List.mem_append_left _ right))
      (alike _ turned)
  exact ⟨itemDecides level size alike off, itemDecides level.symm size.symm alikeToo offToo⟩

theorem partedUnequal (parted : Parted a b) (keyed : a.Keyed) (keyedToo : b.Keyed) :
    a.agrees b ≠ b.agrees a := by
  induction parted with
  | @item front lefts back rests a b level size alike parted ih =>
    have own := keyedItemIff.mp keyed a (by simp)
    have ownToo := keyedItemIff.mp keyedToo b (by simp)
    have unequal := ih own ownToo
    obtain ⟨first, second⟩ := itemDecidesBoth keyed keyedToo level size alike
      (agreesOff own ownToo unequal).1
    rwa [first, second]
  | entry size here there decides turned parted ih =>
    rw [agreesDictionaries size, agreesDictionaries size.symm, decides.settled, turned.settled,
      ← decides.bound keyed.1 here (Entries.memLookup keyedToo.1 there),
      ← turned.bound keyedToo.1 there (Entries.memLookup keyed.1 here)]
    exact ih (keyedEntryIff.mp keyed.2 _ here) (keyedEntryIff.mp keyedToo.2 _ there)
  | differs size different decides turned | refused size different decides turned =>
    rw [agreesDictionaries size, agreesDictionaries size.symm, decides.settled, turned.settled]
    exact nofun

theorem unequalParted (keyed : a.Keyed) (keyedToo : b.Keyed) (unequal : a.agrees b ≠ b.agrees a) :
    Parted a b := by
  induction a, b using byComparing with
  | direct a b direct => exact absurd direct.turned unequal
  | arrays items others size ih =>
    obtain ⟨off, -⟩ := agreesOff keyed keyedToo unequal
    rw [agreesArrays size] at off
    obtain ⟨front, ⟨a, b⟩, behind, split, alike, decides⟩ := settleFirst off
    obtain ⟨front, tail, lefts, tails, level, rfl, rfl, rfl, parts⟩ := List.zip_eq_append_iff.mp split
    obtain ⟨back, rests, rfl, rfl, -⟩ := List.zip_eq_cons_iff.mp parts.symm
    have rest : back.length = rests.length := by simpa [level] using size
    obtain ⟨first, second⟩ := itemDecidesBoth keyed keyedToo level rest alike
      fun yes => off (decides.symm.trans yes)
    rw [first, second] at unequal
    exact .item level rest alike (ih a (by simp) b (keyedItemIff.mp keyed a (by simp))
      (keyedItemIff.mp keyedToo b (by simp)) unequal)
  | dictionaries entries others size ih =>
    have answers := unequalAnswers keyed keyedToo unequal
    obtain ⟨off, offToo⟩ := agreesOff keyed keyedToo unequal
    rw [agreesDictionaries size] at off
    rw [agreesDictionaries size.symm] at offToo
    obtain ⟨key, decides⟩ := settleDecides off
    obtain ⟨other, turned⟩ := settleDecides offToo
    rw [agreesDictionaries size, agreesDictionaries size.symm] at answers unequal
    by_cases same : key = other
    · subst same
      obtain ⟨a, here⟩ := decides.among
      obtain ⟨b, there⟩ := turned.among
      have first := decides.bound keyed.1 here (Entries.memLookup keyedToo.1 there)
      have second := turned.bound keyedToo.1 there (Entries.memLookup keyed.1 here)
      refine .entry size here there decides turned (ih _ here b (keyedEntryIff.mp keyed.2 _ here)
        (keyedEntryIff.mp keyedToo.2 _ there) ?_)
      rwa [first, second]
    · rcases answers with ⟨first, second⟩ | ⟨first, second⟩
      · rw [first] at decides
        rw [second] at turned
        exact .differs size same decides turned
      · rw [first] at decides
        rw [second] at turned
        exact .refused size same decides turned

theorem bothWaysUnlessParted (keyed : a.Keyed) (keyedToo : b.Keyed) :
    (((∃ same, a.agrees b = .ok same ∧ b.agrees a = .ok same) ∨
        a.agrees b = .error incomparable ∧ b.agrees a = .error incomparable) ↔ ¬ Parted a b) ∧
      (Parted a b → a.agrees b = .ok false ∧ b.agrees a = .error incomparable ∨
        a.agrees b = .error incomparable ∧ b.agrees a = .ok false) := by
  refine ⟨⟨fun both parted => ?_, fun whole => ?_⟩, fun parted =>
    unequalAnswers keyed keyedToo (partedUnequal parted keyed keyedToo)⟩
  · apply partedUnequal parted keyed keyedToo
    rcases both with ⟨same, first, second⟩ | ⟨first, second⟩ <;> rw [first, second]
  · have turned : a.agrees b = b.agrees a :=
      Classical.byContradiction fun unequal => whole (unequalParted keyed keyedToo unequal)
    rw [← turned]
    cases first : a.agrees b with
    | ok same => exact .inl ⟨same, rfl, rfl⟩
    | error fault =>
      cases agreesFault first
      exact .inr ⟨rfl, rfl⟩

def rawFirst (size : Int64) : Value := dict [("Data", raw []), ("Size", int size)]

def rawLast (size : Int64) : Value := dict [("Size", int size), ("Data", raw [])]

theorem sameSizeWhole : (rawFirst 1).Keyed ∧ (rawLast 1).Keyed ∧ ¬ Parted (rawFirst 1) (rawLast 1) := by
  have keyed : (rawFirst 1).Keyed := ⟨by decide, trivial, trivial, trivial⟩
  have keyedToo : (rawLast 1).Keyed := ⟨by decide, trivial, trivial, trivial⟩
  exact ⟨keyed, keyedToo, (bothWaysUnlessParted keyed keyedToo).1.mp (.inr ⟨rfl, rfl⟩)⟩

theorem otherSizeParted : ¬ ∀ a b : Value, a.Keyed → b.Keyed →
    (∃ same, a.agrees b = .ok same ∧ b.agrees a = .ok same) ∨
      a.agrees b = .error incomparable ∧ b.agrees a = .error incomparable := by
  intro always
  have keyed : (rawFirst 1).Keyed := ⟨by decide, trivial, trivial, trivial⟩
  have keyedToo : (rawLast 2).Keyed := ⟨by decide, trivial, trivial, trivial⟩
  have refused : (rawFirst 1).agrees (rawLast 2) = .error incomparable := rfl
  have answered : (rawLast 2).agrees (rawFirst 1) = .ok false := rfl
  rcases always (rawFirst 1) (rawLast 2) keyed keyedToo with ⟨same, first, -⟩ | ⟨-, second⟩
  · cases refused.symm.trans first
  · cases answered.symm.trans second

end PdfBody.Value
