import PdfBody.ObjId

/-! Collections in strictly ascending order of a key, so that each key occurs once. -/
namespace PdfBody

structure Ordered (α : Type) (key : α → Nat) where
  items : List α
  ascending : items.Pairwise fun a b => key a < key b

namespace Ordered

variable {α : Type} {key : α → Nat}

def place (key : α → Nat) (x : α) : List α → List α
  | [] => [x]
  | y :: rest =>
    if key x < key y then x :: y :: rest
    else if key x = key y then x :: rest
    else y :: place key x rest

theorem memPlace {x z : α} {items : List α} (found : z ∈ place key x items) :
    z = x ∨ z ∈ items := by
  induction items with
  | nil => simpa [place] using found
  | cons y rest ih =>
    simp only [place] at found
    split at found
    · simpa using found
    · split at found
      · simp only [List.mem_cons] at found ⊢
        exact found.imp_right .inr
      · simp only [List.mem_cons] at found ⊢
        rcases found with same | later
        · exact .inr (.inl same)
        · exact (ih later).imp_right .inr

theorem memPlaceIff (injective : ∀ {a b : α}, key a = key b → a = b) {x z : α} {items : List α} :
    z ∈ place key x items ↔ z = x ∨ z ∈ items := by
  refine ⟨memPlace, ?_⟩
  induction items with
  | nil => simp [place]
  | cons y rest ih =>
    simp only [place, List.mem_cons]
    split
    · simp
    · split
      · next same =>
        have same := injective same
        subst same
        simp
      · simp only [List.mem_cons]
        rintro (h | h | h)
        · exact .inr (ih (.inl h))
        · exact .inl h
        · exact .inr (ih (.inr h))

theorem placeAscending {x : α} {items : List α}
    (ascending : items.Pairwise fun a b => key a < key b) :
    (place key x items).Pairwise fun a b => key a < key b := by
  induction items with
  | nil => simp [place]
  | cons y rest ih =>
    have below : ∀ z ∈ rest, key y < key z :=
      fun z found => List.rel_of_pairwise_cons ascending found
    have tail := ascending.of_cons
    simp only [place]
    split
    · next less =>
      refine List.pairwise_cons.mpr ⟨fun z found => ?_, ascending⟩
      rcases List.mem_cons.mp found with same | later
      · simpa [same] using less
      · exact Nat.lt_trans less (below z later)
    · split
      · next same => exact List.pairwise_cons.mpr ⟨fun z found => same ▸ below z found, tail⟩
      · next notLess notSame =>
        refine List.pairwise_cons.mpr ⟨fun z found => ?_, ih tail⟩
        rcases memPlace found with same | later
        · subst same; omega
        · exact below z later

def empty : Ordered α key := ⟨[], .nil⟩

def put (x : α) (c : Ordered α key) : Ordered α key :=
  ⟨place key x c.items, placeAscending c.ascending⟩

def keep (test : α → Bool) (c : Ordered α key) : Ordered α key :=
  ⟨c.items.filter test, c.ascending.filter test⟩

def update (change : α → α) (same : ∀ x, key (change x) = key x) (c : Ordered α key) :
    Ordered α key :=
  ⟨c.items.map change, List.pairwise_map.mpr (c.ascending.imp fun less => by simpa [same] using less)⟩

def takeFirst (c : Ordered α key) : Option (α × Ordered α key) :=
  match h : c.items with
  | [] => none
  | x :: rest => some (x, ⟨rest, (h ▸ c.ascending).of_cons⟩)

def find? (test : α → Bool) (c : Ordered α key) : Option α := c.items.find? test

def among (key : α → Nat) (k : Nat) : List α → Bool
  | [] => false
  | x :: rest => if key x < k then among key k rest else key x == k

theorem amongIff {k : Nat} {items : List α}
    (ascending : items.Pairwise fun a b => key a < key b) :
    among key k items = true ↔ ∃ x ∈ items, key x = k := by
  induction items with
  | nil => simp [among]
  | cons y rest ih =>
    have below : ∀ z ∈ rest, key y < key z :=
      fun z found => List.rel_of_pairwise_cons ascending found
    simp only [among, List.mem_cons, exists_eq_or_imp]
    split
    · next less =>
      rw [ih ascending.of_cons]
      exact ⟨.inr, fun found => found.resolve_left (by omega)⟩
    · next notLess =>
      simp only [beq_iff_eq]
      refine ⟨.inl, fun found => found.resolve_right ?_⟩
      rintro ⟨z, later, same⟩
      have := below z later
      omega

def hasKey (k : Nat) (c : Ordered α key) : Bool := among key k c.items

theorem hasKeyIff {k : Nat} {c : Ordered α key} : c.hasKey k = true ↔ ∃ x ∈ c.items, key x = k :=
  amongIff c.ascending

end Ordered

abbrev IdSet := Ordered ObjId ObjId.rank

namespace IdSet

def contains (id : ObjId) (ids : IdSet) : Bool := ids.items.contains id

def ofList (ids : List ObjId) : IdSet := ids.foldl (fun set id => set.put id) .empty

end IdSet

namespace NumberSet

def rank (number : UInt32) : Nat := 0xFFFFFFFF - number.toNat

theorem rankInj {m n : UInt32} : rank m = rank n ↔ m = n := by
  refine ⟨fun same => ?_, congrArg rank⟩
  have hm := m.toNat_lt
  have hn := n.toNat_lt
  simp only [rank] at same
  exact UInt32.toNat_inj.mp (by omega)

end NumberSet

abbrev NumberSet := Ordered UInt32 NumberSet.rank

namespace NumberSet

def contains (number : UInt32) (numbers : NumberSet) : Bool := numbers.hasKey (rank number)

theorem containsIff {number : UInt32} {numbers : NumberSet} :
    contains number numbers = true ↔ number ∈ numbers.items := by
  simp [contains, Ordered.hasKeyIff, rankInj]

theorem containsPut {number other : UInt32} {numbers : NumberSet} :
    contains number (numbers.put other) = true ↔ number = other ∨ contains number numbers = true := by
  rw [containsIff, containsIff]
  exact Ordered.memPlaceIff rankInj.mp

end NumberSet
end PdfBody
