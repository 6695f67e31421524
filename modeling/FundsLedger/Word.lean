/-!
Machine words. Identifiers, amounts, page numbers and settings are integers that have to fit a word
of a stated width; the width is data, so that one reader of numbers serves them all.
-/

namespace FundsLedger

/-- The range of integers that a machine word can hold; zero is one of them. -/
structure Word where
  least : Int
  greatest : Int
  least_nonpos : least ≤ 0 := by decide
  greatest_nonneg : 0 ≤ greatest := by decide
deriving DecidableEq

namespace Word

/-- Signed 64-bit words: identifiers and amounts. -/
def int64 : Word where
  least := -9223372036854775808
  greatest := 9223372036854775807

/-- Signed 32-bit words: page numbers and page sizes. -/
def int32 : Word where
  least := -2147483648
  greatest := 2147483647

/-- Unsigned 64-bit words: delays in milliseconds. -/
def nat64 : Word where
  least := 0
  greatest := 18446744073709551615

/-- Unsigned 32-bit words: attempts and connections. -/
def nat32 : Word where
  least := 0
  greatest := 4294967295

/-- The integer fits the word. -/
def Holds (w : Word) (n : Int) : Prop := w.least ≤ n ∧ n ≤ w.greatest

instance (w : Word) (n : Int) : Decidable (w.Holds n) :=
  inferInstanceAs (Decidable (_ ∧ _))

end Word

/-- The signed 64-bit integer that a count reaches when it runs past the greatest one and goes on
from the least. -/
def wrap64 (n : Int) : Int := Int.bmod n 18446744073709551616

theorem wrap64_of_holds {n : Int} (h : Word.int64.Holds n) : wrap64 n = n := by
  obtain ⟨h₁, h₂⟩ := h
  simp only [Word.int64] at h₁ h₂
  unfold wrap64
  rw [Int.bmod_def]
  omega

end FundsLedger
