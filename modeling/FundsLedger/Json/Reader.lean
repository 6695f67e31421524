import FundsLedger.Json.Value
import FundsLedger.Text.Numeral

/-!
Reading JSON, strictly: one value, with white space around it and between its parts and nothing
after it. Every nested value takes at least one character more, so the length of the text bounds the
depth of the reader.
-/

namespace FundsLedger.Json

/-- White space in JSON. -/
def isSpace (c : Char) : Bool := c = ' ' || c = '\n' || c = '\t' || c = '\r'

/-- The text from its first character that is not white space. -/
def skip (cs : List Char) : List Char := cs.dropWhile isSpace

/-- A piece of a text between quotation marks: a character, or a unit of 16 bits given by number. -/
inductive Piece where
  | char (c : Char)
  | unit (n : Nat)
deriving DecidableEq

/-- The character that stands for itself or another one after a backslash. -/
def escaped? : Char → Option Char
  | '"' => some '"'
  | '\\' => some '\\'
  | '/' => some '/'
  | 'b' => some '\x08'
  | 'f' => some '\x0c'
  | 'n' => some '\n'
  | 'r' => some '\r'
  | 't' => some '\t'
  | _ => none

/-- The unit of 16 bits that four hexadecimal digits stand for. -/
def unit? (a b c d : Char) : Option Nat := do
  let a ← Numeral.hexValue? a
  let b ← Numeral.hexValue? b
  let c ← Numeral.hexValue? c
  let d ← Numeral.hexValue? d
  return ((a * 16 + b) * 16 + c) * 16 + d

/-- The pieces up to the closing quotation mark, and what stands after it. -/
def pieces : List Char → Option (List Piece × List Char)
  | [] => none
  | '"' :: rest => some ([], rest)
  | '\\' :: 'u' :: a :: b :: c :: d :: rest => do
    let n ← unit? a b c d
    let (ps, after) ← pieces rest
    return (.unit n :: ps, after)
  | '\\' :: e :: rest => do
    let c ← escaped? e
    let (ps, after) ← pieces rest
    return (.char c :: ps, after)
  | c :: rest =>
    if c.toNat < 32 ∨ c = '\\' then none
    else do
      let (ps, after) ← pieces rest
      return (.char c :: ps, after)

/-- The unit is the first half of a pair. -/
def isHighSurrogate (n : Nat) : Bool := 0xD800 ≤ n && n < 0xDC00

/-- The unit is the second half of a pair. -/
def isLowSurrogate (n : Nat) : Bool := 0xDC00 ≤ n && n < 0xE000

/-- The characters that pieces stand for; nothing if half a surrogate pair stands alone. -/
def joined : List Piece → Option (List Char)
  | [] => some []
  | .char c :: rest => (joined rest).map (c :: ·)
  | .unit high :: .unit low :: rest =>
    if isHighSurrogate high then
      if isLowSurrogate low then
        (joined rest).map (Char.ofNat (0x10000 + (high - 0xD800) * 0x400 + (low - 0xDC00)) :: ·)
      else none
    else if isLowSurrogate high then none
    else (joined (.unit low :: rest)).map (Char.ofNat high :: ·)
  | .unit n :: rest =>
    if isHighSurrogate n || isLowSurrogate n then none
    else (joined rest).map (Char.ofNat n :: ·)

/-- The text before the closing quotation mark, if it stands for characters, and what is after
it. -/
def text (cs : List Char) : Option (Option String × List Char) := do
  let (ps, after) ← pieces cs
  return ((joined ps).map String.ofList, after)

/-- Digits, at least one, and what stands after them. -/
def digits (cs : List Char) : Option (List Char × List Char) :=
  match cs.takeWhile Char.isDigit with
  | [] => none
  | ds => some (ds, cs.dropWhile Char.isDigit)

/-- What stands after a fraction, if there is one here. -/
def afterFraction : List Char → Option (Bool × List Char)
  | '.' :: rest => (digits rest).map fun (_, after) => (true, after)
  | cs => some (false, cs)

/-- What stands after a sign, if there is one here. -/
def afterSign : List Char → List Char
  | '+' :: rest => rest
  | '-' :: rest => rest
  | cs => cs

/-- What stands after an exponent, if there is one here. -/
def afterExponent : List Char → Option (Bool × List Char)
  | 'e' :: rest => (digits (afterSign rest)).map fun (_, after) => (true, after)
  | 'E' :: rest => (digits (afterSign rest)).map fun (_, after) => (true, after)
  | cs => some (false, cs)

/-- The digits of the whole part of a number: a single zero, or digits that start with none. -/
def wholePart : List Char → Option (List Char × List Char)
  | '0' :: rest => some (['0'], rest)
  | cs => digits cs

/-- A number after its sign. -/
def unsigned (negative : Bool) (cs : List Char) : Option (Json × List Char) := do
  let (whole, cs) ← wholePart cs
  let (fraction, cs) ← afterFraction cs
  let (exponent, cs) ← afterExponent cs
  let n := Numeral.value whole
  if fraction || exponent || (negative && n = 0) then return (.other, cs)
  else return (.integer (if negative then -(n : Int) else n), cs)

/-- A number. -/
def number : List Char → Option (Json × List Char)
  | '-' :: rest => unsigned true rest
  | cs => unsigned false cs

/-- The members of an object; an object with a name that stands for no characters is `other`. -/
def objectOf (members : List (Option String × Json)) : Json :=
  match members.mapM fun (name, item) => name.map fun name => (name, item) with
  | some members => .object members
  | none => .other

mutual

/-- A value, and what stands after it. The first argument bounds the depth. -/
def value : Nat → List Char → Option (Json × List Char)
  | 0, _ => none
  | fuel + 1, cs =>
    match cs with
    | '{' :: rest =>
      match skip rest with
      | '}' :: after => some (.object [], after)
      | inner => (members fuel inner).map fun (ms, after) => (objectOf ms, after)
    | '[' :: rest =>
      match skip rest with
      | ']' :: after => some (.array [], after)
      | inner => (items fuel inner).map fun (xs, after) => (.array xs, after)
    | '"' :: rest =>
      (text rest).map fun (s, after) =>
        (match s with
          | some s => .string s
          | none => .other, after)
    | 'n' :: 'u' :: 'l' :: 'l' :: after => some (.null, after)
    | 't' :: 'r' :: 'u' :: 'e' :: after => some (.bool true, after)
    | 'f' :: 'a' :: 'l' :: 's' :: 'e' :: after => some (.bool false, after)
    | cs => number cs

/-- The items of an array up to its closing bracket. -/
def items : Nat → List Char → Option (List Json × List Char)
  | 0, _ => none
  | fuel + 1, cs => do
    let (item, cs) ← value fuel cs
    match skip cs with
    | ',' :: rest =>
      let (others, after) ← items fuel (skip rest)
      return (item :: others, after)
    | ']' :: after => return ([item], after)
    | _ => none

/-- The members of an object up to its closing brace. -/
def members : Nat → List Char → Option (List (Option String × Json) × List Char)
  | 0, _ => none
  | fuel + 1, cs => do
    let '"' :: cs := cs | none
    let (name, cs) ← text cs
    let ':' :: cs := skip cs | none
    let (item, cs) ← value fuel (skip cs)
    match skip cs with
    | ',' :: rest =>
      let (others, after) ← members fuel (skip rest)
      return ((name, item) :: others, after)
    | '}' :: after => return ([(name, item)], after)
    | _ => none

end

/-- The value that a text stands for. -/
def ofChars? (cs : List Char) : Option Json := do
  let (j, rest) ← value (cs.length + 1) (skip cs)
  if (skip rest).isEmpty then return j else none

/-- The value that a text stands for. -/
def parse? (s : String) : Option Json := ofChars? s.toList

end FundsLedger.Json
