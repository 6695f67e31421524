/-!
Lengths of time in exact nanoseconds. The longest one is 2^64 - 1 seconds and 999999999
nanoseconds; multiplication stops there.
-/

namespace FundsLedger

/-- A length of time. -/
structure Duration where
  nanos : Nat
  bounded : nanos ≤ 18446744073709551615999999999
deriving DecidableEq

namespace Duration

/-- The greatest count of nanoseconds. -/
def maxNanos : Nat := 18446744073709551615999999999

/-- So many nanoseconds, or the longest time if there are more. -/
def ofNanos (n : Nat) : Duration := ⟨min n maxNanos, Nat.min_le_right _ _⟩

/-- So many milliseconds, or the longest time if there are more. -/
def ofMillis (n : Nat) : Duration := ofNanos (n * 1000000)

/-- No time. -/
def zero : Duration := ofNanos 0

/-- The time taken `factor` times, stopping at the longest. -/
def times (d : Duration) (factor : Nat) : Duration := ofNanos (d.nanos * factor)

/-- The shorter of two times. -/
def min (a b : Duration) : Duration := if a.nanos ≤ b.nanos then a else b

end Duration
end FundsLedger
