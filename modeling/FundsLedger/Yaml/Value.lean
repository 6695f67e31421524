/-!
YAML documents, as far as settings need them: scalars, sequences and mappings. A scalar keeps its
text and whether it was written plainly, without quotation marks; only a plain scalar can be a
number, a truth value or null.
-/

namespace FundsLedger

/-- A node of a YAML document. The pairs of a mapping are kept in their order. -/
inductive Yaml where
  | scalar (plain : Bool) (text : String)
  | sequence (items : List Yaml)
  | mapping (pairs : List (Yaml × Yaml))
deriving Inhabited

namespace Yaml

/-- The node where nothing is written. -/
def nothing : Yaml := scalar true ""

/-- The text of a scalar, however it is written. -/
def text? : Yaml → Option String
  | scalar _ text => some text
  | _ => none

/-- The node is a plain null: nothing, a tilde, or the word. -/
def isNull : Yaml → Bool
  | scalar true text => ["", "~", "null", "Null", "NULL"].contains text
  | _ => false

/-- The truth value of a plain scalar. -/
def bool? : Yaml → Option Bool
  | scalar true text =>
    if ["true", "True", "TRUE"].contains text then some true
    else if ["false", "False", "FALSE"].contains text then some false
    else none
  | _ => none

/-- The values of the named fields of a record, in the order of the names. A record is written as a
mapping with scalar keys, in which each of the names may stand once and other names are passed
over. -/
def fields? (names : List String) : Yaml → Option (List (Option Yaml))
  | mapping pairs => do
    let members ← pairs.mapM fun (key, value) => key.text?.map fun name => (name, value)
    if names.all fun name => (members.filter (·.1 = name)).length ≤ 1 then
      return names.map fun name => members.lookup name
    else none
  | _ => none

end Yaml
end FundsLedger
