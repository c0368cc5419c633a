import PdfBody.Value.Basic

/-! Whether two values mean the same. The form of a string and the order of a dictionary do not
count; kinds do, so an integer never equals a real. Raw data has no meaning to compare. -/
namespace PdfBody.Value

def incomparable : Fault := .notImplemented "equality is not implemented for raw data"

mutual

def agrees : Value → Value → Except Fault Bool
  | raw _, _ => .error incomparable
  | _, raw _ => .error incomparable
  | null, null => .ok true
  | bool a, bool b => .ok (a == b)
  | int a, int b => .ok (a == b)
  | real a, real b => .ok (a.equals b)
  | str a _, str b _ => .ok (a == b)
  | name a, name b => .ok (a == b)
  | ref a, ref b => .ok (a == b)
  | arr a, arr b => if a.length = b.length then agreesItems a b else .ok false
  | dict a, dict b => if a.length = b.length then agreesEntries a b else .ok false
  | _, _ => .ok false

def agreesItems : List Value → List Value → Except Fault Bool
  | a :: as, b :: bs =>
    match agrees a b with
    | .ok true => agreesItems as bs
    | other => other
  | _, _ => .ok true

def agreesEntries : List (String × Value) → List (String × Value) → Except Fault Bool
  | [], _ => .ok true
  | (key, a) :: as, others =>
    match others.lookup key with
    | none => .ok false
    | some b =>
      match agrees a b with
      | .ok true => agreesEntries as others
      | other => other

end

end PdfBody.Value
