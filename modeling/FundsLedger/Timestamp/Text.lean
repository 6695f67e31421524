import FundsLedger.Text.Blank
import FundsLedger.Text.Numeral
import FundsLedger.Timestamp

/-!
Time stamps as text, in the form of RFC 3339. They are printed in UTC, with as many groups of three
fraction digits as it takes; a year that does not have four digits is printed with its sign.

The reader is more lenient than the standard: it takes blanks before numbers and around the marks
between them, numbers with fewer digits, a blank for the `T`, and offsets from UTC with or without a
colon. An offset has whole minutes, so it moves the date by one day at most and leaves the seconds
alone.
-/

namespace FundsLedger.Timestamp

/-- A printed year. -/
def printedYear (year : Int) : List Char :=
  if 0 ≤ year ∧ year ≤ 9999 then Numeral.padded 4 year.natAbs
  else (if year < 0 then '-' else '+') :: Numeral.padded 4 year.natAbs

/-- A printed fraction of a second: nothing, or 3, 6 or 9 digits. -/
def printedFraction (nanos : Nat) : List Char :=
  if nanos = 0 then []
  else if nanos % 1000000 = 0 then '.' :: Numeral.padded 3 (nanos / 1000000)
  else if nanos % 1000 = 0 then '.' :: Numeral.padded 6 (nanos / 1000)
  else '.' :: Numeral.padded 9 nanos

/-- A printed date. -/
def printedDate (d : Date) : List Char :=
  printedYear d.year ++ '-' :: Numeral.padded 2 d.month ++ '-' :: Numeral.padded 2 d.day

/-- The time stamp as it is printed. -/
def printed (t : Timestamp) : List Char :=
  printedDate t.date ++ 'T' :: Numeral.padded 2 t.hour ++ ':' :: Numeral.padded 2 t.minute ++
    ':' :: Numeral.padded 2 t.second ++ printedFraction t.nanos ++ ['Z']

/-- The time stamp as text. -/
def toText (t : Timestamp) : String := String.ofList t.printed

/-- The text from its first character that is not blank. -/
def trim (cs : List Char) : List Char := cs.dropWhile isBlank

/-- A number of at most so many digits and at least one, and what stands after it. -/
def numberUpTo (width : Nat) (cs : List Char) : Option (Nat × List Char) :=
  match (cs.take width).takeWhile Char.isDigit with
  | [] => none
  | ds => some (Numeral.value ds, cs.drop ds.length)

/-- A number of two digits at most, after blanks. -/
def shortNumber (cs : List Char) : Option (Nat × List Char) := numberUpTo 2 (trim cs)

/-- A mark, after blanks. -/
def mark (c : Char) (cs : List Char) : Option (List Char) :=
  match trim cs with
  | c' :: rest => if c' = c then some rest else none
  | [] => none

/-- A year, after blanks: four digits at most, or any number of digits after a sign. -/
def year (cs : List Char) : Option (Int × List Char) :=
  match trim cs with
  | '-' :: rest => (numberUpTo rest.length rest).map fun (n, after) => (-(n : Int), after)
  | '+' :: rest => (numberUpTo rest.length rest).map fun (n, after) => ((n : Int), after)
  | cs => (numberUpTo 4 cs).map fun (n, after) => ((n : Int), after)

/-- A fraction of a second in nanoseconds, if there is one here; digits after the ninth do not
count. -/
def fraction : List Char → Option (Nat × List Char)
  | '.' :: rest =>
    match rest.takeWhile Char.isDigit with
    | [] => none
    | ds =>
      let kept := ds.take 9
      some (Numeral.value kept * Nat.pow 10 (9 - kept.length), rest.dropWhile Char.isDigit)
  | cs => some (0, cs)

/-- Two digits. -/
def twoDigits : List Char → Option (Nat × List Char)
  | a :: b :: rest =>
    if a.isDigit && b.isDigit then some (Numeral.value [a, b], rest) else none
  | _ => none

/-- An offset in minutes after its sign: hours, any colons and blanks, minutes. -/
def unsignedOffset (cs : List Char) : Option (Nat × List Char) := do
  let (hours, cs) ← twoDigits cs
  let (minutes, cs) ← twoDigits (cs.dropWhile fun c => c = ':' || isBlank c)
  if minutes < 60 ∧ hours < 24 then return (hours * 60 + minutes, cs) else none

/-- The offset from UTC in minutes. -/
def offset : List Char → Option (Int × List Char)
  | 'Z' :: rest => some (0, rest)
  | 'z' :: rest => some (0, rest)
  | '+' :: rest => (unsignedOffset rest).map fun (n, after) => ((n : Int), after)
  | '-' :: rest => (unsignedOffset rest).map fun (n, after) => (-(n : Int), after)
  | '−' :: rest => (unsignedOffset rest).map fun (n, after) => (-(n : Int), after)
  | u :: t :: c :: rest =>
    if u.toUpper = 'U' ∧ t.toUpper = 'T' ∧ c.toUpper = 'C' then some (0, rest) else none
  | _ => none

/-- The time stamp of a local time at an offset from UTC in minutes. -/
def atOffset (date : Date) (hour minute second nanos : Nat) (offset : Int) : Option Timestamp := do
  let ofDay : Int := hour * 60 + minute - offset
  let date ←
    if ofDay < 0 then date.previous?
    else if 1440 ≤ ofDay then date.next?
    else some date
  let ofDay := (Int.emod ofDay 1440).toNat
  of? date (ofDay / 60) (ofDay % 60) second nanos

/-- The time stamp that a text stands for. -/
def ofChars? (cs : List Char) : Option Timestamp := do
  let (year, cs) ← year cs
  let (month, cs) ← shortNumber (← mark '-' cs)
  let (day, cs) ← shortNumber (← mark '-' cs)
  let separator :: cs := cs | none
  if separator ≠ 'T' ∧ separator ≠ 't' ∧ separator ≠ ' ' then none
  let (hour, cs) ← shortNumber cs
  let (minute, cs) ← shortNumber (← mark ':' cs)
  let (second, cs) ← shortNumber (← mark ':' cs)
  let (nanos, cs) ← fraction cs
  let (offset, cs) ← offset (trim cs)
  if !(trim cs).isEmpty then none
  let date ← Date.of? year month day
  let _ ← of? date hour minute second nanos
  atOffset date hour minute second nanos offset

/-- The time stamp that a text stands for. -/
def parse? (s : String) : Option Timestamp := ofChars? s.toList

end FundsLedger.Timestamp
