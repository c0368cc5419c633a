import PdfBody.Value.Access

/-! Places inside a value, as the steps that lead there from the root. -/
namespace PdfBody

inductive Step where
  | index (place : Nat)
  | key (key : String)
  deriving DecidableEq, Repr

abbrev Path := List Step

namespace Value

def child? : Step → Value → Option Value
  | .index place, arr items => items[place]?
  | .key key, dict entries => entries.lookup key
  | _, _ => none

def at? : Path → Value → Option Value
  | [], v => some v
  | step :: path, v => child? step v >>= at? path

def walk : Path → Value → Except Fault (Option Value)
  | [], v => .ok (some v)
  | step :: path, v =>
    match step with
    | .index place => v.getItems.bind fun items =>
      match items[place]? with
      | some child => walk path child
      | none => .ok none
    | .key key => v.getEntries.bind fun entries =>
      match entries.lookup key with
      | some child => walk path child
      | none => .ok none

def replaceAt (new : Value) : Path → Value → Value
  | [], _ => new
  | .index place :: path, arr items =>
    match items[place]? with
    | some child => arr (items.set place (replaceAt new path child))
    | none => arr items
  | .key key :: path, dict entries =>
    match entries.lookup key with
    | some child => dict (Entries.put key (replaceAt new path child) entries)
    | none => dict entries
  | _ :: _, v => v

end Value
end PdfBody
