import FundsLedger.Text.Numeral
import FundsLedger.Word

/-!
Whole numbers as text: decimal digits, with a sign in front of them or none. Reading goes from left
to right and stops at the first character that is no digit or takes the number out of the range of
its word, so of two faults the one further left is named.
-/

namespace FundsLedger

/-- Why a text is not a number of a word. -/
inductive IntegerError where
  | empty
  | invalidDigit
  | tooLarge
  | tooSmall
deriving DecidableEq, Repr

/-- The text shown for the cause. -/
def IntegerError.message : IntegerError → String
  | empty => "cannot parse integer from empty string"
  | invalidDigit => "invalid digit found in string"
  | tooLarge => "number too large to fit in target type"
  | tooSmall => "number too small to fit in target type"

namespace Integer

/-- The number as it is printed. -/
def printed (n : Int) : List Char :=
  if n < 0 then '-' :: Numeral.digits n.natAbs else Numeral.digits n.natAbs

/-- The number as text. -/
def toText (n : Int) : String := String.ofList (printed n)

/-- Goes on reading digits after the number `n`; `past` is the fault of going past the limit. -/
def magnitudeFrom (limit : Nat) (past : IntegerError) (n : { n : Nat // n ≤ limit }) :
    List Char → Except IntegerError { n : Nat // n ≤ limit }
  | [] => .ok n
  | c :: rest =>
    if c.isDigit then
      if h : n.val * 10 + Numeral.digitValue c ≤ limit then
        magnitudeFrom limit past ⟨n.val * 10 + Numeral.digitValue c, h⟩ rest
      else .error past
    else .error .invalidDigit

/-- Reads digits, at least one, as a number up to the limit. -/
def magnitude (limit : Nat) (past : IntegerError) (cs : List Char) :
    Except IntegerError { n : Nat // n ≤ limit } :=
  if cs.isEmpty then .error .invalidDigit else magnitudeFrom limit past ⟨0, Nat.zero_le _⟩ cs

/-- Reads the digits of a number that is not negative. -/
def nonnegative (w : Word) (cs : List Char) : Except IntegerError { n : Int // w.Holds n } := do
  let m ← magnitude w.greatest.toNat .tooLarge cs
  return ⟨m.val, by
    have := m.property; have := w.least_nonpos; have := w.greatest_nonneg
    unfold Word.Holds; omega⟩

/-- Reads the digits of a number with a minus sign. -/
def nonpositive (w : Word) (cs : List Char) : Except IntegerError { n : Int // w.Holds n } := do
  let m ← magnitude (-w.least).toNat .tooSmall cs
  return ⟨-m.val, by
    have := m.property; have := w.least_nonpos; have := w.greatest_nonneg
    unfold Word.Holds; omega⟩

/-- Reads a number of the word. -/
def ofChars (w : Word) : List Char → Except IntegerError { n : Int // w.Holds n }
  | [] => .error .empty
  | '+' :: cs => nonnegative w cs
  | '-' :: cs => nonpositive w cs
  | cs => nonnegative w cs

/-- Reads a number of the word. -/
def parse (w : Word) (s : String) : Except IntegerError { n : Int // w.Holds n } :=
  ofChars w s.toList

end Integer
end FundsLedger
