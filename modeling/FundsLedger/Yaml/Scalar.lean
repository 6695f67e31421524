import FundsLedger.Text.Numeral

/-!
Scalars in the text of a YAML document. A scalar may go on over several lines: blanks around a line
break are dropped, a single break becomes a blank, and of several breaks one is dropped.
-/

namespace FundsLedger.Yaml

/-- A place in a text: what stands from there on, its column, and whether only blanks stand before
it on its line, so that a key may start there. -/
structure Place where
  rest : List Char
  column : Int
  fresh : Bool

/-- A scalar: its text and the place after it. -/
structure ReadScalar where
  text : List Char
  place : Place

/-- The character is a blank inside a line. -/
def isSpace (c : Char) : Bool := c = ' ' || c = '\t'

/-- A word ends here: at a blank, at a line break or at the end. -/
def atBlank : List Char → Bool
  | [] => true
  | c :: _ => isSpace c || c = '\n'

/-- A marker between documents stands here. -/
def atMarker (cs : List Char) : Bool :=
  (cs.take 3 = ['-', '-', '-'] || cs.take 3 = ['.', '.', '.']) && atBlank (cs.drop 3)

/-- What stands for blanks and line breaks inside a scalar, turned around. -/
def folded (blanks : List Char) (breaks : Nat) : List Char :=
  if breaks = 0 then blanks
  else if breaks = 1 then [' ']
  else List.replicate (breaks - 1) '\n'

/-- Indicators with which no plain scalar starts. -/
def indicators : List Char :=
  [',', '[', ']', '{', '}', '#', '&', '*', '!', '|', '>', '\'', '"', '%', '@', '\x60']

/-- A plain scalar can start here. -/
def startsPlain (flow : Bool) : List Char → Bool
  | [] => false
  | c :: rest =>
    if c = '-' then !atBlank rest
    else if c = '?' || c = ':' then !flow && !atBlank rest
    else !(isSpace c || c = '\n' || indicators.contains c)

/-- Indicators of flow style. -/
def isFlowIndicator (c : Char) : Bool :=
  c = ',' || c = '[' || c = ']' || c = '{' || c = '}'

/-- The rest of a plain scalar: `done` is its text so far, turned around; `blanks` and `breaks` are
what stands between that and here. In block style a line at or left of `indent` ends it; in any
style no tab may indent a line that far to the left. -/
def plainRest (flow : Bool) (indent : Int) (done : List Char) (blanks : List Char) (breaks : Nat)
    (column : Int) : List Char → Option ReadScalar
  | [] => some ⟨done.reverse, ⟨[], column, 0 < breaks⟩⟩
  | c :: rest =>
    let stop : Option ReadScalar := some ⟨done.reverse, ⟨c :: rest, column, 0 < breaks⟩⟩
    if c = '\n' then plainRest flow indent done [] (breaks + 1) 0 rest
    else if c = '\t' ∧ 0 < breaks ∧ column ≤ indent then none
    else if isSpace c then plainRest flow indent done (c :: blanks) breaks (column + 1) rest
    else if 0 < breaks ∧ !flow ∧ column ≤ indent then stop
    else if c = '#' ∧ (0 < breaks ∨ !blanks.isEmpty) then stop
    else if 0 < breaks ∧ column = 0 ∧ atMarker (c :: rest) then stop
    else if flow ∧ c = ':' ∧ (rest.head?.any fun d => isFlowIndicator d || d = '?') then none
    else if c = ':' ∧ atBlank rest then stop
    else if flow ∧ isFlowIndicator c then stop
    else
      plainRest flow indent (c :: (folded blanks breaks ++ done)) [] 0 (column + 1) rest

/-- A plain scalar. -/
def plain (flow : Bool) (indent : Int) (p : Place) : Option ReadScalar :=
  if startsPlain flow p.rest then plainRest flow indent [] [] 0 p.column p.rest else none

/-- The rest of a scalar between single quotation marks, in which a doubled mark stands for one. -/
def singleRest (done : List Char) (blanks : List Char) (breaks : Nat) (column : Int) :
    List Char → Option ReadScalar
  | [] => none
  | '\'' :: '\'' :: rest =>
    singleRest ('\'' :: (folded blanks breaks ++ done)) [] 0 (column + 2) rest
  | '\'' :: rest =>
    some ⟨(folded blanks breaks ++ done).reverse, ⟨rest, column + 1, false⟩⟩
  | c :: rest =>
    if c = '\n' then singleRest done [] (breaks + 1) 0 rest
    else if isSpace c then
      singleRest done (if breaks = 0 then c :: blanks else []) breaks (column + 1) rest
    else if column = 0 ∧ atMarker (c :: rest) then none
    else singleRest (c :: (folded blanks breaks ++ done)) [] 0 (column + 1) rest

/-- The character that stands after a backslash between double quotation marks means. -/
def escaped? : Char → Option Char
  | '0' => some '\x00'
  | 'a' => some '\x07'
  | 'b' => some '\x08'
  | 't' => some '\t'
  | '\t' => some '\t'
  | 'n' => some '\n'
  | 'v' => some '\x0b'
  | 'f' => some '\x0c'
  | 'r' => some '\r'
  | 'e' => some '\x1b'
  | ' ' => some ' '
  | '"' => some '"'
  | '/' => some '/'
  | '\\' => some '\\'
  | 'N' => some '\u0085'
  | '_' => some '\u00a0'
  | 'L' => some '\u2028'
  | 'P' => some '\u2029'
  | _ => none

/-- How many hexadecimal digits follow a backslash and this letter. -/
def codeLength? : Char → Option Nat
  | 'x' => some 2
  | 'u' => some 4
  | 'U' => some 8
  | _ => none

/-- The character with a number. -/
def charOf? (n : Nat) : Option Char := if n.isValidChar then some (Char.ofNat n) else none

/-- A code that is being read: how many digits are left, and its value so far. -/
structure Code where
  left : Nat
  value : Nat

/-- Where the reader of a scalar between double quotation marks stands: in its text, after a
backslash, or in the digits of a code. -/
inductive DoubleState where
  | text
  | escape
  | code (c : Code)

/-- The rest of a scalar between double quotation marks. After a backslash a line break and the
blanks after it stand for nothing; `held` says that this has happened since the last character. -/
def doubleRest (state : DoubleState) (done : List Char) (blanks : List Char) (breaks : Nat)
    (held : Bool) (column : Int) : List Char → Option ReadScalar
  | [] => none
  | c :: rest =>
    let between := if held then List.replicate breaks '\n' else folded blanks breaks
    match state with
    | .code ⟨left, value⟩ => do
      let digit ← Numeral.hexValue? c
      let value := value * 16 + digit
      if left ≤ 1 then
        doubleRest .text ((← charOf? value) :: done) [] 0 false (column + 1) rest
      else doubleRest (.code ⟨left - 1, value⟩) done [] 0 false (column + 1) rest
    | .escape =>
      if c = '\n' then doubleRest .text (between ++ done) [] 0 true 0 rest
      else
        match codeLength? c with
        | some n => doubleRest (.code ⟨n, 0⟩) (between ++ done) [] 0 false (column + 1) rest
        | none => do
          doubleRest .text ((← escaped? c) :: (between ++ done)) [] 0 false (column + 1) rest
    | .text =>
      if c = '"' then some ⟨(between ++ done).reverse, ⟨rest, column + 1, false⟩⟩
      else if c = '\\' then
        doubleRest .escape done blanks breaks held (column + 1) rest
      else if c = '\n' then doubleRest .text done [] (breaks + 1) held 0 rest
      else if isSpace c then
        doubleRest .text done
          (if breaks = 0 ∧ !held then c :: blanks else []) breaks held (column + 1) rest
      else if column = 0 ∧ atMarker (c :: rest) then none
      else doubleRest .text (c :: (between ++ done)) [] 0 false (column + 1) rest

/-- A scalar, and whether it is plain. -/
def scalarAt (flow : Bool) (indent : Int) (p : Place) : Option (Bool × ReadScalar) :=
  match p.rest with
  | '\'' :: rest => (singleRest [] [] 0 (p.column + 1) rest).map fun s => (false, s)
  | '"' :: rest => (doubleRest .text [] [] 0 false (p.column + 1) rest).map fun s => (false, s)
  | _ => (plain flow indent p).map fun s => (true, s)

end FundsLedger.Yaml
