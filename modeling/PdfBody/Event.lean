import PdfBody.Object

/-! What observers of a store hear. Observers are known by tokens; what each of them hears is put
in an outbox, in the order in which it happened and with the state it was in then. -/
namespace PdfBody

inductive Event where
  | written (object : Object)
  | streamOpened (owner : ObjId) (stream : DataStream)
  | streamClosed (owner : ObjId) (stream : DataStream)
  | finished

inductive Notice where
  | heard (token : Nat) (event : Event)
  | streamMade (owner : ObjId)

structure Observers where
  issued : Nat
  tokens : List Nat
  deriving DecidableEq, Repr

namespace Observers

def none : Observers := ⟨0, []⟩

def attach (observers : Observers) : Nat × Observers :=
  (observers.issued, ⟨observers.issued + 1, observers.tokens ++ [observers.issued]⟩)

def detach (token : Nat) (observers : Observers) : Bool × Observers :=
  (observers.tokens.contains token, ⟨observers.issued, observers.tokens.erase token⟩)

def notify (observers : Observers) (event : Event) : List Notice :=
  observers.tokens.map fun token => .heard token event

end Observers
end PdfBody
