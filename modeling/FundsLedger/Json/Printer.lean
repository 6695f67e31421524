import FundsLedger.Json.Value
import FundsLedger.Text.Integer

/-!
Printing JSON, either without any white space or with every member and item on a line of its own,
indented by two blanks for each level. A text is written as it is, except for quotation marks,
backslashes and the control characters below the blank.
-/

namespace FundsLedger.Json

/-- A character inside a printed text. -/
def printedChar (c : Char) : List Char :=
  if c = '"' then ['\\', '"']
  else if c = '\\' then ['\\', '\\']
  else if c = '\x08' then ['\\', 'b']
  else if c = '\x0c' then ['\\', 'f']
  else if c = '\n' then ['\\', 'n']
  else if c = '\r' then ['\\', 'r']
  else if c = '\t' then ['\\', 't']
  else if c.toNat < 32 then
    ['\\', 'u', '0', '0', Nat.digitChar (c.toNat / 16), Nat.digitChar (c.toNat % 16)]
  else [c]

/-- A printed text, between quotation marks. -/
def printedString (s : String) : List Char := '"' :: s.toList.flatMap printedChar ++ ['"']

/-- What is printed for a value that has no parts. -/
def printedAtom : Json → List Char
  | null => "null".toList
  | bool true => "true".toList
  | bool false => "false".toList
  | integer n => Integer.printed n
  | string s => printedString s
  | array _ => "[]".toList
  | object _ => "{}".toList
  | other => "-0".toList

mutual

/-- The value without white space. -/
def compact : Json → List Char
  | array items => '[' :: compactItems items ++ [']']
  | object members => '{' :: compactMembers members ++ ['}']
  | null => printedAtom null
  | bool b => printedAtom (bool b)
  | integer n => printedAtom (integer n)
  | string s => printedAtom (string s)
  | other => printedAtom other

/-- Items without white space, with commas between them. -/
def compactItems : List Json → List Char
  | [] => []
  | [item] => compact item
  | item :: rest => compact item ++ ',' :: compactItems rest

/-- Members without white space, with commas between them. -/
def compactMembers : List (String × Json) → List Char
  | [] => []
  | [(name, item)] => printedString name ++ ':' :: compact item
  | (name, item) :: rest => printedString name ++ ':' :: compact item ++ ',' :: compactMembers rest

end

/-- A new line at a level. -/
def newLine (level : Nat) : List Char := '\n' :: List.replicate (2 * level) ' '

mutual

/-- The value on lines of its own, at a level. -/
def indented (level : Nat) : Json → List Char
  | array [] => printedAtom (array [])
  | array (item :: rest) =>
    '[' :: indentedItems (level + 1) (item :: rest) ++ newLine level ++ [']']
  | object [] => printedAtom (object [])
  | object (member :: rest) =>
    '{' :: indentedMembers (level + 1) (member :: rest) ++ newLine level ++ ['}']
  | null => printedAtom null
  | bool b => printedAtom (bool b)
  | integer n => printedAtom (integer n)
  | string s => printedAtom (string s)
  | other => printedAtom other

/-- Items on lines of their own, at a level. -/
def indentedItems (level : Nat) : List Json → List Char
  | [] => []
  | [item] => newLine level ++ indented level item
  | item :: rest => newLine level ++ indented level item ++ ',' :: indentedItems level rest

/-- Members on lines of their own, at a level. -/
def indentedMembers (level : Nat) : List (String × Json) → List Char
  | [] => []
  | [(name, item)] => newLine level ++ printedString name ++ ':' :: ' ' :: indented level item
  | (name, item) :: rest =>
    newLine level ++ printedString name ++ ':' :: ' ' :: indented level item ++
      ',' :: indentedMembers level rest

end

/-- The value as text without white space. -/
def print (j : Json) : String := String.ofList j.compact

/-- The value as text on several lines. -/
def pretty (j : Json) : String := String.ofList (j.indented 0)

end FundsLedger.Json
