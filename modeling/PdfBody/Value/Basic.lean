import PdfBody.Bytes
import PdfBody.Binary64.Basic
import PdfBody.Fault

/-! The values of a document. Containers own their parts, so a value is a finite tree; the only
links between objects are references, which name an id and nothing more. -/
namespace PdfBody

inductive Value where
  | null
  | bool (b : Bool)
  | int (n : Int64)
  | real (x : Binary64)
  | str (bytes : Bytes) (hex : Bool)
  | name (text : String)
  | arr (items : List Value)
  | dict (entries : List (String × Value))
  | ref (id : ObjId)
  | raw (bytes : Bytes)
  deriving Repr, Inhabited

abbrev Entries := List (String × Value)

namespace Value

def kind : Value → Kind
  | null => .null
  | bool _ => .bool
  | int _ => .integer
  | real _ => .real
  | str _ _ => .string
  | name _ => .name
  | arr _ => .array
  | dict _ => .dictionary
  | ref _ => .reference
  | raw _ => .rawData

mutual

def Keyed : Value → Prop
  | arr items => KeyedItems items
  | dict entries => (entries.map Prod.fst).Nodup ∧ KeyedEntries entries
  | _ => True

def KeyedItems : List Value → Prop
  | [] => True
  | v :: rest => Keyed v ∧ KeyedItems rest

def KeyedEntries : List (String × Value) → Prop
  | [] => True
  | (_, v) :: rest => Keyed v ∧ KeyedEntries rest

end

mutual

def nesting : Value → Nat
  | arr items => nestingItems items + 1
  | dict entries => nestingEntries entries + 1
  | _ => 0

def nestingItems : List Value → Nat
  | [] => 0
  | v :: rest => max (nesting v) (nestingItems rest)

def nestingEntries : List (String × Value) → Nat
  | [] => 0
  | (_, v) :: rest => max (nesting v) (nestingEntries rest)

end

mutual

def refs : Value → List ObjId
  | ref id => [id]
  | arr items => refsItems items
  | dict entries => refsEntries entries
  | _ => []

def refsItems : List Value → List ObjId
  | [] => []
  | v :: rest => refs v ++ refsItems rest

def refsEntries : List (String × Value) → List ObjId
  | [] => []
  | (_, v) :: rest => refs v ++ refsEntries rest

end

mutual

def same : Value → Value → Bool
  | null, null => true
  | bool a, bool b => a == b
  | int a, int b => a == b
  | real a, real b => a == b
  | str a f, str b g => a == b && f == g
  | name a, name b => a == b
  | arr a, arr b => sameItems a b
  | dict a, dict b => sameEntries a b
  | ref a, ref b => a == b
  | raw a, raw b => a == b
  | _, _ => false

def sameItems : List Value → List Value → Bool
  | [], [] => true
  | a :: as, b :: bs => same a b && sameItems as bs
  | _, _ => false

def sameEntries : List (String × Value) → List (String × Value) → Bool
  | [], [] => true
  | (j, a) :: as, (k, b) :: bs => j == k && same a b && sameEntries as bs
  | _, _ => false

end

mutual

theorem sameIff : ∀ a b : Value, same a b = true ↔ a = b := by
  intro a b
  cases a <;> cases b <;> simp [same, sameItemsIff, sameEntriesIff]

theorem sameItemsIff : ∀ a b : List Value, sameItems a b = true ↔ a = b
  | [], [] => by simp [sameItems]
  | [], _ :: _ => by simp [sameItems]
  | _ :: _, [] => by simp [sameItems]
  | a :: as, b :: bs => by simp [sameItems, sameIff a b, sameItemsIff as bs]

theorem sameEntriesIff : ∀ a b : List (String × Value), sameEntries a b = true ↔ a = b
  | [], [] => by simp [sameEntries]
  | [], _ :: _ => by simp [sameEntries]
  | _ :: _, [] => by simp [sameEntries]
  | (j, a) :: as, (k, b) :: bs => by
    simp [sameEntries, sameIff a b, sameEntriesIff as bs]

end

instance : DecidableEq Value := fun a b => decidable_of_iff _ (sameIff a b)

end Value
end PdfBody
