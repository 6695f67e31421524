/-!
JSON values. Whole numbers and texts are kept exactly. Values that are correct JSON but stand for
nothing in this library, such as fractions and texts with half a surrogate pair, are all `other`.
-/

namespace FundsLedger

/-- A JSON value. The members of an object are kept in their order, repeated names included. -/
inductive Json where
  | null
  | bool (b : Bool)
  | integer (n : Int)
  | string (s : String)
  | array (items : List Json)
  | object (members : List (String × Json))
  | other
deriving Inhabited

namespace Json

/-- The values of the named fields of a record, in the order of the names. A record is written as an
object, in which each of the names may stand once and other names are passed over, or as an array of
the values in order, of which the last may be left out. -/
def fields? (names : List String) : Json → Option (List (Option Json))
  | object members =>
    if names.all fun name => (members.filter (·.1 = name)).length ≤ 1 then
      some (names.map fun name => members.lookup name)
    else none
  | array items =>
    if items.length ≤ names.length then some (names.zipIdx.map fun (_, i) => items[i]?) else none
  | _ => none

/-- The text. -/
def string? : Json → Option String
  | string s => some s
  | _ => none

/-- The truth value. -/
def bool? : Json → Option Bool
  | bool b => some b
  | _ => none

end Json
end FundsLedger
