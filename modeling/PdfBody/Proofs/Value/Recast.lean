import PdfBody.Proofs.Value.Shape

/-! Reals of a value: what holds of all of them, and all of them recast as other values with
everything else left in place. -/
namespace PdfBody.Value

mutual

theorem everyBoth {p q r : Value → Prop} (both : ∀ v, p v → q v → r v) :
    ∀ v : Value, v.Every p → v.Every q → v.Every r
  | arr items, first, second => ⟨both _ first.1 second.1, everyItemsBoth both items first.2 second.2⟩
  | dict entries, first, second =>
    ⟨both _ first.1 second.1, everyEntriesBoth both entries first.2 second.2⟩
  | null, first, second | bool _, first, second | int _, first, second | real _, first, second
  | ref _, first, second | str _ _, first, second | name _, first, second
  | raw _, first, second => both _ first second

theorem everyItemsBoth {p q r : Value → Prop} (both : ∀ v, p v → q v → r v) :
    ∀ items : List Value, EveryItems p items → EveryItems q items → EveryItems r items
  | [], _, _ => trivial
  | v :: rest, first, second =>
    ⟨everyBoth both v first.1 second.1, everyItemsBoth both rest first.2 second.2⟩

theorem everyEntriesBoth {p q r : Value → Prop} (both : ∀ v, p v → q v → r v) :
    ∀ entries : Entries, EveryEntries p entries → EveryEntries q entries → EveryEntries r entries
  | [], _, _ => trivial
  | (_, v) :: rest, first, second =>
    ⟨everyBoth both v first.1 second.1, everyEntriesBoth both rest first.2 second.2⟩

end

theorem everyWeaker {p q : Value → Prop} (weaker : ∀ v, p v → q v) {v : Value} (every : v.Every p) :
    v.Every q := everyBoth (fun v part _ => weaker v part) v every every

def Cooked (admits : Binary64 → Prop) : Value → Prop
  | raw _ => False
  | real x => admits x
  | _ => True

variable {f : Binary64 → Value} {admits other both : Binary64 → Prop}

theorem cookedBoth (joins : ∀ x, admits x → other x → both x) {v : Value}
    (first : v.Every (Cooked admits)) (second : v.Every (Cooked other)) : v.Every (Cooked both) := by
  refine everyBoth (fun v first second => ?_) v first second
  cases v with
  | real x => exact joins x first second
  | raw _ => exact first
  | _ => trivial

theorem cookedWeaker (weaker : ∀ x, admits x → other x) {v : Value} (cooked : v.Every (Cooked admits)) :
    v.Every (Cooked other) := cookedBoth (fun x admitted _ => weaker x admitted) cooked cooked

mutual

def recast (f : Binary64 → Value) : Value → Value
  | real x => f x
  | arr items => arr (recastItems f items)
  | dict entries => dict (recastEntries f entries)
  | v => v

def recastItems (f : Binary64 → Value) : List Value → List Value
  | [] => []
  | v :: rest => recast f v :: recastItems f rest

def recastEntries (f : Binary64 → Value) : List (String × Value) → List (String × Value)
  | [] => []
  | (key, v) :: rest => (key, recast f v) :: recastEntries f rest

end

mutual

theorem recastSame : ∀ v : Value, v.recast real = v
  | arr items => by rw [recast, recastItemsSame items]
  | dict entries => by rw [recast, recastEntriesSame entries]
  | null | bool _ | int _ | real _ | ref _ | str _ _ | name _ | raw _ => rfl

theorem recastItemsSame : ∀ items : List Value, recastItems real items = items
  | [] => rfl
  | v :: rest => by rw [recastItems, recastSame v, recastItemsSame rest]

theorem recastEntriesSame : ∀ entries : Entries, recastEntries real entries = entries
  | [] => rfl
  | (_, v) :: rest => by rw [recastEntries, recastSame v, recastEntriesSame rest]

end

mutual

theorem recastNesting (flat : ∀ x, (f x).nesting = 0) : ∀ v : Value, (v.recast f).nesting = v.nesting
  | arr items => by rw [recast, nesting, nesting, recastItemsNesting flat items]
  | dict entries => by rw [recast, nesting, nesting, recastEntriesNesting flat entries]
  | real x => flat x
  | null | bool _ | int _ | ref _ | str _ _ | name _ | raw _ => rfl

theorem recastItemsNesting (flat : ∀ x, (f x).nesting = 0) :
    ∀ items : List Value, nestingItems (recastItems f items) = nestingItems items
  | [] => rfl
  | v :: rest => by
    rw [recastItems, nestingItems, nestingItems, recastNesting flat v, recastItemsNesting flat rest]

theorem recastEntriesNesting (flat : ∀ x, (f x).nesting = 0) :
    ∀ entries : Entries, nestingEntries (recastEntries f entries) = nestingEntries entries
  | [] => rfl
  | (_, v) :: rest => by
    rw [recastEntries, nestingEntries, nestingEntries, recastNesting flat v,
      recastEntriesNesting flat rest]

end

theorem recastKeys (entries : Entries) :
    (recastEntries f entries).map Prod.fst = entries.map Prod.fst := by
  induction entries with
  | nil => rfl
  | cons entry rest ih => rw [recastEntries, List.map_cons, List.map_cons, ih]

mutual

theorem recastKeyed (keyed : ∀ x, (f x).Keyed) : ∀ v : Value, v.Keyed → (v.recast f).Keyed
  | arr items, once => recastItemsKeyed keyed items once
  | dict entries, once => ⟨by rw [recastKeys]; exact once.1, recastEntriesKeyed keyed entries once.2⟩
  | real x, _ => keyed x
  | null, _ | bool _, _ | int _, _ | ref _, _ | str _ _, _ | name _, _ | raw _, _ => trivial

theorem recastItemsKeyed (keyed : ∀ x, (f x).Keyed) :
    ∀ items : List Value, KeyedItems items → KeyedItems (recastItems f items)
  | [], _ => trivial
  | v :: rest, once => ⟨recastKeyed keyed v once.1, recastItemsKeyed keyed rest once.2⟩

theorem recastEntriesKeyed (keyed : ∀ x, (f x).Keyed) :
    ∀ entries : Entries, KeyedEntries entries → KeyedEntries (recastEntries f entries)
  | [], _ => trivial
  | (_, v) :: rest, once => ⟨recastKeyed keyed v once.1, recastEntriesKeyed keyed rest once.2⟩

end

mutual

theorem recastCooked (cooked : ∀ x, admits x → (f x).Every (Cooked other)) :
    ∀ v : Value, v.Every (Cooked admits) → (v.recast f).Every (Cooked other)
  | arr items, every => ⟨trivial, recastItemsCooked cooked items every.2⟩
  | dict entries, every => ⟨trivial, recastEntriesCooked cooked entries every.2⟩
  | real x, every => cooked x every
  | null, _ | bool _, _ | int _, _ | ref _, _ | str _ _, _ | name _, _ => trivial
  | raw _, every => every

theorem recastItemsCooked (cooked : ∀ x, admits x → (f x).Every (Cooked other)) :
    ∀ items : List Value, EveryItems (Cooked admits) items →
      EveryItems (Cooked other) (recastItems f items)
  | [], _ => trivial
  | v :: rest, every =>
    ⟨recastCooked cooked v every.1, recastItemsCooked cooked rest every.2⟩

theorem recastEntriesCooked (cooked : ∀ x, admits x → (f x).Every (Cooked other)) :
    ∀ entries : Entries, EveryEntries (Cooked admits) entries →
      EveryEntries (Cooked other) (recastEntries f entries)
  | [], _ => trivial
  | (_, v) :: rest, every =>
    ⟨recastCooked cooked v every.1, recastEntriesCooked cooked rest every.2⟩

end

end PdfBody.Value
