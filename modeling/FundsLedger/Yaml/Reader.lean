import FundsLedger.Yaml.Scalar
import FundsLedger.Yaml.Value

/-!
Reading one YAML document: mappings and sequences in block and in flow style, comments, and a marker
in front of the document. Anchors, tags, directives, block scalars and keys after a question mark
are refused. In block style the column of a line says to what it belongs.
-/

namespace FundsLedger.Yaml

/-- The place of the next thing that is neither blank nor comment. In block style no tab may stand
before it at the start of a line. -/
def nextFrom (flow inComment fresh : Bool) (column : Int) : List Char → Place
  | [] => ⟨[], column, fresh⟩
  | c :: rest =>
    if c = '\n' then nextFrom flow false true 0 rest
    else if inComment then nextFrom flow true fresh (column + 1) rest
    else if c = ' ' || (c = '\t' && (flow || !fresh)) then
      nextFrom flow false fresh (column + 1) rest
    else if c = '#' then nextFrom flow true fresh (column + 1) rest
    else ⟨c :: rest, column, fresh⟩

/-- The place of the next thing from here. -/
def Place.next (p : Place) (flow : Bool) : Place := nextFrom flow false p.fresh p.column p.rest

/-- The place after so many characters of the same line. -/
def Place.after (p : Place) (n : Nat) : Place := ⟨p.rest.drop n, p.column + n, false⟩

/-- What stands between a place and a later one can be a key: it is on one line and not too long. -/
def Place.isKeyUpTo (p q : Place) : Bool :=
  let length := p.rest.length - q.rest.length
  length ≤ 1024 && !(p.rest.take length).contains '\n'

/-- The document is over here. -/
def Place.ended (p : Place) : Bool :=
  p.rest.isEmpty || (p.fresh && p.column = 0 && atMarker p.rest)

/-- An item of a block sequence starts here. -/
def Place.atDash (p : Place) : Bool :=
  match p.rest with
  | '-' :: rest => atBlank rest
  | _ => false

/-- A colon that ends a key in block style stands here. -/
def Place.atColon (p : Place) : Bool :=
  match p.rest with
  | ':' :: rest => atBlank rest
  | _ => false

/-- A node in flow style starts here. -/
def Place.atFlow (p : Place) : Bool :=
  match p.rest with
  | c :: _ => c = '[' || c = '{'
  | [] => false

/-- The scalar as a node. -/
def ofScalar (s : Bool × ReadScalar) : Yaml := .scalar s.1 (String.ofList s.2.text)

mutual

/-- A node in flow style inside a block node whose lines stand to the right of `indent`. -/
def flowNode : Nat → Int → Place → Option (Yaml × Place)
  | 0, _, _ => none
  | fuel + 1, indent, p =>
    match p.rest with
    | '[' :: _ => do
      let (items, q) ← flowItems fuel indent ((p.after 1).next true)
      return (.sequence items, q)
    | '{' :: _ => do
      let (pairs, q) ← flowPairs fuel indent ((p.after 1).next true)
      return (.mapping pairs, q)
    | _ => do
      let s ← scalarAt true indent p
      return (ofScalar s, s.2.place)

/-- A key in flow style and, after a colon, its value. -/
def flowPair : Nat → Int → Place → Option ((Yaml × Option Yaml) × Place)
  | 0, _, _ => none
  | fuel + 1, indent, p => do
    let (key, q) ← flowNode fuel indent p
    let q := q.next true
    match q.rest with
    | ':' :: _ =>
      if !p.isKeyUpTo q then none
      let v := (q.after 1).next true
      match v.rest with
      | [] => none
      | c :: _ =>
        if c = ',' || c = ']' || c = '}' then return ((key, some nothing), v)
        else
          let (value, after) ← flowNode fuel indent v
          return ((key, some value), after.next true)
    | _ => return ((key, none), q)

/-- The items of a flow sequence up to its bracket. -/
def flowItems : Nat → Int → Place → Option (List Yaml × Place)
  | 0, _, _ => none
  | fuel + 1, indent, p =>
    match p.rest with
    | ']' :: _ => some ([], p.after 1)
    | _ => do
      let ((key, value), q) ← flowPair fuel indent p
      let item := match value with
        | none => key
        | some value => .mapping [(key, value)]
      match q.rest with
      | ',' :: _ =>
        let (items, after) ← flowItems fuel indent ((q.after 1).next true)
        return (item :: items, after)
      | ']' :: _ => return ([item], q.after 1)
      | _ => none

/-- The pairs of a flow mapping up to its brace. -/
def flowPairs : Nat → Int → Place → Option (List (Yaml × Yaml) × Place)
  | 0, _, _ => none
  | fuel + 1, indent, p =>
    match p.rest with
    | '}' :: _ => some ([], p.after 1)
    | _ => do
      let ((key, value), q) ← flowPair fuel indent p
      let pair := (key, value.getD nothing)
      match q.rest with
      | ',' :: _ =>
        let (pairs, after) ← flowPairs fuel indent ((q.after 1).next true)
        return (pair :: pairs, after)
      | '}' :: _ => return ([pair], q.after 1)
      | _ => none

end

mutual

/-- A node in block style whose lines stand to the right of `indent`. -/
def blockNode : Nat → Int → Place → Option (Yaml × Place)
  | 0, _, _ => none
  | fuel + 1, indent, p =>
    if p.ended || (p.fresh && p.column ≤ indent) then some (nothing, p)
    else if p.atDash then
      if p.fresh then do
        let (items, q) ← blockItems fuel p.column p
        return (.sequence items, q)
      else none
    else if p.atFlow then do
      let (node, q) ← flowNode p.rest.length indent p
      return (node, q.next false)
    else do
      let s ← scalarAt false indent p
      let q := s.2.place.next false
      if !q.atColon then return (ofScalar s, q)
      else if p.fresh && p.isKeyUpTo q then
        let (pairs, after) ← blockPairs fuel p.column p
        return (.mapping pairs, after)
      else none

/-- The pairs of a block mapping whose keys stand in one column. -/
def blockPairs : Nat → Int → Place → Option (List (Yaml × Yaml) × Place)
  | 0, _, _ => none
  | fuel + 1, column, p => do
    let key ← scalarAt false column p
    let colon := key.2.place.next false
    if !colon.atColon || !p.isKeyUpTo colon then none
    let v := (colon.after 1).next false
    let (value, q) ←
      -- The items of a sequence may stand in the column of the key that they belong to.
      if v.fresh && v.column = column && v.atDash then do
        let (items, q) ← blockItems fuel column v
        pure (Yaml.sequence items, q)
      else blockNode fuel column v
    if !q.ended && q.fresh && q.column = column && !q.atDash then
      let (pairs, after) ← blockPairs fuel column q
      return ((ofScalar key, value) :: pairs, after)
    else return ([(ofScalar key, value)], q)

/-- The items of a block sequence whose dashes stand in one column. -/
def blockItems : Nat → Int → Place → Option (List Yaml × Place)
  | 0, _, _ => none
  | fuel + 1, column, p => do
    -- What follows the dash stands as if it began a line: it may be a mapping.
    let (item, q) ← blockNode fuel column ({ p.after 1 with fresh := true }.next false)
    if !q.ended && q.fresh && q.column = column && q.atDash then
      let (items, after) ← blockItems fuel column q
      return (item :: items, after)
    else return ([item], q)

end

/-- The text with every kind of line break written as a line feed. -/
def plainBreaks : List Char → List Char
  | [] => []
  | '\r' :: '\n' :: rest => '\n' :: plainBreaks rest
  | '\r' :: rest => '\n' :: plainBreaks rest
  | '\u0085' :: rest => '\n' :: plainBreaks rest
  | c :: rest => c :: plainBreaks rest

/-- The character may stand in a document. -/
def isPrintable (c : Char) : Bool :=
  let n := c.toNat
  n = 9 || n = 10 || n = 13 || (32 ≤ n && n ≤ 126) || n = 0x85 || (0xA0 ≤ n && n ≤ 0xD7FF) ||
    (0xE000 ≤ n && n ≤ 0xFFFD) || 0x10000 ≤ n

/-- The place at which the content of a document starts: after its marker, if it has one. -/
def contentPlace (p : Place) : Place :=
  if p.column = 0 && p.rest.take 3 = ['-', '-', '-'] && atBlank (p.rest.drop 3) then
    (p.after 3).next false
  else p

/-- Nothing stands here but, perhaps, the marker that ends the document. -/
def isOver (p : Place) : Bool :=
  p.rest.isEmpty ||
    (p.fresh && p.column = 0 && p.rest.take 3 = ['.', '.', '.'] &&
      ((p.after 3).next false).rest.isEmpty)

/-- The document that a text stands for. -/
def ofChars? (cs : List Char) : Option Yaml := do
  if !cs.all isPrintable then none
  let start : Place := ⟨plainBreaks cs, 0, true⟩
  let (node, q) ← blockNode (2 * cs.length + 2) (-1) (contentPlace (start.next false))
  if isOver q then return node else none

/-- The document that a text stands for. -/
def parse? (s : String) : Option Yaml := ofChars? s.toList

end FundsLedger.Yaml
