import FundsLedger.Process
import FundsLedger.Transfer.Error

/-!
Trying again after a conflict. Before attempt `n + 1` a client sleeps for a random time of at most
`base * 2^(n-1)`, and never longer than the policy's maximum.
-/

namespace FundsLedger

/-- How often and after what delays to try again. -/
structure RetryPolicy where
  maxAttempts : Nat
  baseDelay : Duration
  maxDelay : Duration
deriving DecidableEq

/-- An answer and the number of attempts it took. -/
structure Retried (α : Type) where
  result : Except TransferError α
  attempts : Nat

namespace RetryPolicy

/-- The policy with at least one attempt. -/
def of (maxAttempts : Nat) (baseDelay maxDelay : Duration) : RetryPolicy :=
  ⟨max maxAttempts 1, baseDelay, maxDelay⟩

/-- One attempt and no second. -/
def once : RetryPolicy := of 1 Duration.zero Duration.zero

/-- By how much the base delay grows before the delay after an attempt: it doubles with each attempt
as long as the factor fits a 32-bit word, and is the greatest such word from then on. -/
def growth (attempt : Nat) : Nat := if attempt - 1 < 32 then 1 <<< (attempt - 1) else 4294967295

/-- The longest delay after an attempt. -/
def ceiling (p : RetryPolicy) (attempt : Nat) : Duration :=
  (p.baseDelay.times (growth attempt)).min p.maxDelay

/-- The greatest number of nanoseconds that may be drawn as the delay after an attempt. -/
def drawLimit (p : RetryPolicy) (attempt : Nat) : Nat :=
  min (p.ceiling attempt).nanos 18446744073709551615

/-- The delay after an attempt for a random draw. -/
def backoff (p : RetryPolicy) (attempt : Nat) (draw : Fin (p.drawLimit attempt + 1)) : Duration :=
  if (p.ceiling attempt).nanos = 0 then Duration.zero else Duration.ofNanos draw

/-- Attempt number `attempt` and, after a conflict, up to `left` further ones. -/
def retryFrom {α : Type} (p : RetryPolicy) (op : Nat → Process (Except TransferError α))
    (attempt : Nat) : (left : Nat) → Process (Retried α)
  | 0 =>
    (op attempt).bind fun
      | .ok a => .done ⟨.ok a, attempt⟩
      | .error e => .done ⟨.error (if e.retryable then .conflict attempt else e), attempt⟩
  | left + 1 =>
    (op attempt).bind fun
      | .ok a => .done ⟨.ok a, attempt⟩
      | .error e =>
        if e.retryable then
          .note (.conflictRetried attempt)
            (.sleep (p.ceiling attempt) (retryFrom p op (attempt + 1) left))
        else .done ⟨.error e, attempt⟩

/-- Runs an operation until it ends otherwise than with a conflict, as often as the policy
allows. -/
def retry {α : Type} (p : RetryPolicy) (op : Nat → Process (Except TransferError α)) :
    Process (Retried α) :=
  p.retryFrom op 1 (p.maxAttempts - 1)

end RetryPolicy
end FundsLedger
