import Mathlib.Algebra.Group.Nat.Defs
import FundsLedger.Retry
import FundsLedger.Word

/-!
Delays between attempts. A delay is drawn below a ceiling that doubles with every attempt until it
meets the longest delay of the policy. Three limits could spoil this: the factor has to fit a word
of 32 bits, the product has to fit a duration, and what is drawn has to fit a word of 64 bits. The
ceiling is given by exact arithmetic all the same, as long as the factor fits or does not matter.
-/

namespace FundsLedger

namespace Duration

theorem nanos_le (d : Duration) : d.nanos ≤ maxNanos := d.bounded

theorem ofNanos_of_le {n : Nat} (h : n ≤ maxNanos) : (ofNanos n).nanos = n := Nat.min_eq_left h

theorem min_nanos (a b : Duration) : (a.min b).nanos = Min.min a.nanos b.nanos := by
  rw [Duration.min, Nat.min_def]
  split <;> rfl

theorem times_nanos (d : Duration) (factor : Nat) :
    (d.times factor).nanos = Min.min (d.nanos * factor) maxNanos := rfl

end Duration

namespace RetryPolicy

variable (p : RetryPolicy) {m n : Nat}

/-! ## The ceiling -/

/-- As long as the factor fits its word, it doubles. -/
theorem growth_of_le (h : n ≤ 32) : growth n = 2 ^ (n - 1) := by
  rw [growth, if_pos (by omega), Nat.one_shiftLeft]

theorem growth_of_gt (h : 32 < n) : growth n = 2 ^ 32 - 1 := if_neg (by omega)

theorem growth_le (n : Nat) : growth n ≤ 2 ^ (n - 1) := by
  rcases Nat.lt_or_ge 32 n with h | h
  · rw [growth_of_gt h]
    have hpow : 2 ^ 32 ≤ 2 ^ (n - 1) := Nat.pow_le_pow_right (by decide) (by omega)
    omega
  · exact Nat.le_of_eq (growth_of_le h)

theorem growth_mono (h : m ≤ n) : growth m ≤ growth n := by
  rcases Nat.lt_or_ge 32 n with hn | hn
  · rw [growth_of_gt hn]
    rcases Nat.lt_or_ge 32 m with hm | hm
    · exact Nat.le_of_eq (growth_of_gt hm)
    · rw [growth_of_le hm]
      have hpow : 2 ^ (m - 1) ≤ 2 ^ 31 := Nat.pow_le_pow_right (by decide) (by omega)
      omega
  · rw [growth_of_le hn, growth_of_le (Nat.le_trans h hn)]
    exact Nat.pow_le_pow_right (by decide) (by omega)

/-- It does not matter that the product stops at the longest time there is, since no policy has a
delay that is longer. -/
theorem ceiling_nanos (n : Nat) :
    (p.ceiling n).nanos = min (p.baseDelay.nanos * growth n) p.maxDelay.nanos := by
  rw [ceiling, Duration.min_nanos, Duration.times_nanos, Nat.min_assoc,
    Nat.min_eq_right p.maxDelay.nanos_le]

theorem ceiling_mono (h : m ≤ n) : (p.ceiling m).nanos ≤ (p.ceiling n).nanos := by
  have hproduct : p.baseDelay.nanos * growth m ≤ p.baseDelay.nanos * growth n :=
    Nat.mul_le_mul_left _ (growth_mono h)
  rw [ceiling_nanos, ceiling_nanos]
  omega

theorem ceiling_le_max (n : Nat) : (p.ceiling n).nanos ≤ p.maxDelay.nanos := by
  rw [ceiling_nanos]
  exact Nat.min_le_right _ _

/-- The ceiling in exact arithmetic. -/
theorem ceiling_exact
    (h : n ≤ 32 ∨ p.maxDelay.nanos ≤ p.baseDelay.nanos * (2 ^ 32 - 1)) :
    (p.ceiling n).nanos = min (p.baseDelay.nanos * 2 ^ (n - 1)) p.maxDelay.nanos := by
  rw [ceiling_nanos]
  rcases Nat.lt_or_ge 32 n with hn | hn
  · -- The factor has stopped growing, but by then the longest delay is reached.
    have hreached := h.resolve_left (by omega)
    rw [← growth_of_gt hn] at hreached
    have hexact : p.baseDelay.nanos * growth n ≤ p.baseDelay.nanos * 2 ^ (n - 1) :=
      Nat.mul_le_mul_left _ (growth_le n)
    rw [Nat.min_eq_right hreached, Nat.min_eq_right (Nat.le_trans hreached hexact)]
  · rw [growth_of_le hn]

/-! ## The delay -/

theorem drawLimit_eq (n : Nat) :
    p.drawLimit n = min (p.ceiling n).nanos 18446744073709551615 := rfl

/-- The delay is what has been drawn. -/
theorem backoff_nanos (draw : Fin (p.drawLimit n + 1)) : (p.backoff n draw).nanos = draw := by
  have hdraw : draw.val ≤ (p.ceiling n).nanos :=
    Nat.le_trans (Nat.lt_succ_iff.mp draw.isLt) (Nat.min_le_left _ _)
  unfold backoff
  split
  · rename_i hzero
    exact (Nat.le_zero.mp (hzero ▸ hdraw)).symm
  · exact Duration.ofNanos_of_le (Nat.le_trans hdraw (Duration.nanos_le _))

/-- The ceiling of the delay never falls from one attempt to the next and never exceeds the longest
delay of the policy. It is the base delay, doubled for every attempt after the first and cut at the
longest delay, for 32 attempts, and for all attempts if the greatest factor takes the base delay to
the longest one. What is slept for lies between nothing and the ceiling, and it can be every length
of time in between whose nanoseconds a word of 64 bits can count. -/
theorem backoff_bounded (p : RetryPolicy) :
    (∀ m n, m ≤ n → (p.ceiling m).nanos ≤ (p.ceiling n).nanos) ∧
    (∀ n, (p.ceiling n).nanos ≤ p.maxDelay.nanos) ∧
    (∀ n, 1 ≤ n → n ≤ 32 ∨ p.maxDelay.nanos ≤ p.baseDelay.nanos * (2 ^ 32 - 1) →
      (p.ceiling n).nanos = min (p.baseDelay.nanos * 2 ^ (n - 1)) p.maxDelay.nanos) ∧
    (∀ n draw, 0 ≤ (p.backoff n draw).nanos ∧ (p.backoff n draw).nanos ≤ (p.ceiling n).nanos) ∧
    ∀ n k, (∃ draw, (p.backoff n draw).nanos = k) ↔
      k ≤ (p.ceiling n).nanos ∧ Word.nat64.Holds k := by
  refine ⟨fun m n h => p.ceiling_mono h, p.ceiling_le_max, fun n _ h => p.ceiling_exact h,
    fun n draw => ⟨Nat.zero_le _, ?_⟩, fun n k => ?_⟩
  · rw [backoff_nanos]
    exact Nat.le_trans (Nat.lt_succ_iff.mp draw.isLt) (Nat.min_le_left _ _)
  · have hlimit : k ≤ p.drawLimit n ↔ k ≤ (p.ceiling n).nanos ∧ Word.nat64.Holds k := by
      rw [drawLimit_eq, Nat.le_min]
      simp only [Word.Holds, Word.nat64]
      omega
    rw [← hlimit]
    constructor
    · rintro ⟨draw, rfl⟩
      rw [backoff_nanos]
      exact Nat.lt_succ_iff.mp draw.isLt
    · intro hk
      exact ⟨⟨k, Nat.lt_succ_iff.mpr hk⟩, p.backoff_nanos _⟩

/-- A policy whose delays grow from three nanoseconds to the longest time there is. -/
def patient : RetryPolicy :=
  .of 50 (.ofNanos 3) (.ofNanos Duration.maxNanos)

/-- A policy that starts with a quarter of the longest time. -/
def sluggish : RetryPolicy :=
  .of 50 (.ofNanos 4611686018427387904000000000) (.ofNanos Duration.maxNanos)

/-- After attempt 32 the patient policy may sleep for 3 * 2^31 nanoseconds. After attempt 40 the
sluggish one may sleep for the longest time there is, but what it sleeps for has to fit a word. -/
theorem patient_sluggish_bounded :
    (patient.ceiling 32).nanos = 6442450944 ∧
      (sluggish.ceiling 40).nanos = Duration.maxNanos ∧
      (¬ ∃ draw, (sluggish.backoff 40 draw).nanos = 18446744073709551616) ∧
      ∃ draw, (sluggish.backoff 40 draw).nanos = 18446744073709551615 := by
  obtain ⟨-, -, hpatient, -⟩ := backoff_bounded patient
  obtain ⟨-, -, hsluggish, -, hdrawn⟩ := backoff_bounded sluggish
  have hceiling : (sluggish.ceiling 40).nanos = Duration.maxNanos :=
    (hsluggish 40 (by decide) (Or.inr (by decide))).trans (Nat.min_eq_right (by decide))
  have hfactor : (patient.ceiling 32).nanos = 6442450944 :=
    (hpatient 32 (by decide) (Or.inl (by decide))).trans (by decide)
  refine ⟨hfactor, hceiling, ?_, ?_⟩
  · intro hlong
    exact absurd ((hdrawn 40 _).mp hlong).2 (by decide)
  · have hlong : 18446744073709551615 ≤ Duration.maxNanos := by decide
    exact (hdrawn 40 _).mpr ⟨Nat.le_trans hlong (Nat.le_of_eq hceiling.symm), by decide⟩

end RetryPolicy
end FundsLedger
