import FundsLedger.Proofs.Text.Numeral
import FundsLedger.Timestamp.Text

/-!
Time stamps are read as they are printed: whatever the year, with or without a fraction of a second,
and with the leap second kept. Every printed number ends where something other than a digit begins,
so the reader, which takes numbers of fewer digits as well, takes no fewer and no more.
-/

namespace FundsLedger

theorem not_isBlank_of_isDigit {c : Char} (h : c.isDigit = true) : isBlank c = false := by
  have hrange : 48 ≤ c.toNat ∧ c.toNat ≤ 57 := Char.isDigit_iff_toNat.mp h
  simp only [isBlank, Bool.or_eq_false_iff, Bool.and_eq_false_iff, decide_eq_false_iff_not]
  omega

theorem Date.of?_self (d : Date) : Date.of? d.year d.month d.day = some d :=
  dif_pos ⟨d.year_covered, d.month_valid, d.day_valid⟩

theorem Date.day_lt (d : Date) : d.day < 100 := by
  have hday := d.day_valid.2
  unfold daysInMonth at hday
  grind

namespace Timestamp

variable {ds rest : List Char} {c : Char} {width n : Nat}

theorem of?_self (t : Timestamp) : of? t.date t.hour t.minute t.second t.nanos = some t :=
  dif_pos ⟨t.hour_valid, t.minute_valid, t.second_valid, t.nanos_valid⟩

/-! ## Numbers and marks -/

theorem trim_cons (h : isBlank c = false) (rest : List Char) : trim (c :: rest) = c :: rest := by
  simp [trim, h]

theorem trim_digits (hds : ∀ c ∈ ds, c.isDigit = true) (hne : ds ≠ []) (rest : List Char) :
    trim (ds ++ rest) = ds ++ rest := by
  obtain ⟨c, ds, rfl⟩ := List.exists_cons_of_ne_nil hne
  exact trim_cons (not_isBlank_of_isDigit (hds c List.mem_cons_self)) _

theorem mark_cons (h : isBlank c = false) (rest : List Char) : mark c (c :: rest) = some rest := by
  simp [mark, trim_cons h]

theorem stops_cons (h : c.isDigit = false) (rest : List Char) : Numeral.Stops (c :: rest) := by
  rintro c' ⟨⟩
  exact h

theorem numberUpTo_digits (hds : ∀ c ∈ ds, c.isDigit = true) (hne : ds ≠ [])
    (hwidth : ds.length ≤ width) (hrest : Numeral.Stops rest) :
    numberUpTo width (ds ++ rest) = some (Numeral.value ds, rest) := by
  have hstops : Numeral.Stops (rest.take (width - ds.length)) := by
    cases rest with
    | nil => simpa using hrest
    | cons c rest =>
      cases width - ds.length with
      | zero => simp [Numeral.Stops]
      | succ k => exact stops_cons (hrest c rfl) _
  have htaken : ((ds ++ rest).take width).takeWhile Char.isDigit = ds := by
    rw [List.take_append, List.take_of_length_le hwidth, Numeral.takeWhile_digits hds hstops]
  rw [numberUpTo, htaken]
  split
  · exact absurd rfl hne
  · simp

theorem shortNumber_padded (h : n < 100) (hrest : Numeral.Stops rest) :
    shortNumber (Numeral.padded 2 n ++ rest) = some (n, rest) := by
  have hdigits : ∀ c ∈ Numeral.padded 2 n, c.isDigit = true := fun _ =>
    Numeral.isDigit_of_mem_padded
  have hne := Numeral.padded_ne_nil 2 n
  have hlength : (Numeral.padded 2 n).length = 2 := Numeral.length_padded (by decide) h
  rw [shortNumber, trim_digits hdigits hne, numberUpTo_digits hdigits hne (by omega) hrest,
    Numeral.value_padded]

theorem year_plain (hc : c ≠ '-') (hc' : c ≠ '+') (h : isBlank c = false) (cs : List Char) :
    year (c :: cs) = (numberUpTo 4 (c :: cs)).map fun (n, after) => ((n : Int), after) := by
  rw [year, trim_cons h]
  grind

theorem year_printed (y : Int) (hrest : Numeral.Stops rest) :
    year (printedYear y ++ rest) = some (y, rest) := by
  have hdigits : ∀ c ∈ Numeral.padded 4 y.natAbs, c.isDigit = true := fun _ =>
    Numeral.isDigit_of_mem_padded
  have hne := Numeral.padded_ne_nil 4 y.natAbs
  have hvalue := Numeral.value_padded 4 y.natAbs
  unfold printedYear
  split
  · rename_i hfour
    have hlength : (Numeral.padded 4 y.natAbs).length = 4 :=
      Numeral.length_padded (by decide) (by omega)
    have hread : numberUpTo 4 (Numeral.padded 4 y.natAbs ++ rest) = _ :=
      numberUpTo_digits hdigits hne (by omega) hrest
    obtain ⟨c, cs, hcons⟩ := List.exists_cons_of_ne_nil hne
    have hc : c.isDigit = true := hdigits c (hcons ▸ List.mem_cons_self)
    have hsign : c ≠ '-' ∧ c ≠ '+' := by constructor <;> rintro rfl <;> simp at hc
    rw [hcons, List.cons_append] at hread ⊢
    rw [year_plain hsign.1 hsign.2 (not_isBlank_of_isDigit hc), hread, ← hcons, hvalue]
    simp
    omega
  · have hread : numberUpTo (Numeral.padded 4 y.natAbs ++ rest).length
        (Numeral.padded 4 y.natAbs ++ rest) = _ :=
      numberUpTo_digits hdigits hne (by simp) hrest
    split
    · rw [List.cons_append, year, trim_cons (by decide)]
      simp only [hread, hvalue, Option.map_some]
      congr 2
      omega
    · rw [List.cons_append, year, trim_cons (by decide)]
      simp only [hread, hvalue, Option.map_some]
      congr 2
      omega

/-! ## Fractions -/

theorem fraction_padded (hpos : 0 < width) (hwidth : width ≤ 9) (h : n < 10 ^ width)
    (hrest : Numeral.Stops rest) :
    fraction ('.' :: Numeral.padded width n ++ rest) = some (n * 10 ^ (9 - width), rest) := by
  have hdigits : ∀ c ∈ Numeral.padded width n, c.isDigit = true := fun _ =>
    Numeral.isDigit_of_mem_padded
  have hlength := Numeral.length_padded hpos h
  rw [List.cons_append, fraction, Numeral.takeWhile_digits hdigits hrest,
    Numeral.dropWhile_digits hdigits hrest]
  split
  · exact absurd ‹_› (Numeral.padded_ne_nil width n)
  · have hkept : (Numeral.padded width n).take 9 = Numeral.padded width n :=
      List.take_of_length_le (by omega)
    simp only [hkept, hlength, Numeral.value_padded]
    rfl

theorem fraction_printed (h : n < 1000000000) :
    fraction (printedFraction n ++ ['Z']) = some (n, ['Z']) := by
  have hstops : Numeral.Stops ['Z'] := stops_cons (by decide) []
  unfold printedFraction
  split
  · subst n
    rfl
  split
  · rw [fraction_padded (by decide) (by decide) (by omega) hstops]
    congr 2
    omega
  split
  · rw [fraction_padded (by decide) (by decide) (by omega) hstops]
    congr 2
    omega
  · rw [fraction_padded (by decide) (by decide) (by omega) hstops, Nat.pow_zero, Nat.mul_one]

theorem stops_fraction (n : Nat) : Numeral.Stops (printedFraction n ++ ['Z']) := by
  unfold printedFraction
  split
  · exact stops_cons (by decide) []
  split
  · exact stops_cons (by decide) _
  split <;> exact stops_cons (by decide) _

/-! ## Time stamps -/

theorem atOffset_zero (t : Timestamp) :
    atOffset t.date t.hour t.minute t.second t.nanos 0 = some t := by
  have hhour := t.hour_valid
  have hminute := t.minute_valid
  have hofDay : (Int.emod (t.hour * 60 + t.minute - 0) 1440).toNat = t.hour * 60 + t.minute := by
    have := Int.emod_eq_of_lt (a := t.hour * 60 + t.minute - 0) (b := 1440) (by omega) (by omega)
    change ((t.hour * 60 + t.minute - 0 : Int) % 1440).toNat = _
    omega
  have hsplit : (t.hour * 60 + t.minute) / 60 = t.hour ∧
      (t.hour * 60 + t.minute) % 60 = t.minute := by
    omega
  unfold atOffset
  simp only [hofDay, hsplit.1, hsplit.2]
  rw [if_neg (by omega), if_neg (by omega)]
  exact of?_self t

/-- A time stamp is read as it is printed. -/
theorem parse?_toText (t : Timestamp) : parse? t.toText = some t := by
  have hmonth : t.date.month < 100 := by have := t.date.month_valid; omega
  have hhour : t.hour < 100 := by have := t.hour_valid; omega
  have hminute : t.minute < 100 := by have := t.minute_valid; omega
  have hsecond : t.second < 100 := by have := t.second_valid; omega
  have hdash (rest : List Char) : mark '-' ('-' :: rest) = some rest := mark_cons (by decide) rest
  have hcolon (rest : List Char) : mark ':' (':' :: rest) = some rest := mark_cons (by decide) rest
  have hend : offset (trim ['Z']) = some (0, []) := rfl
  simp only [parse?, toText, String.toList_ofList, printed, printedDate, List.append_assoc,
    List.cons_append]
  -- One reader after the other; `dsimp` goes to the next bind and no further.
  rw [ofChars?, year_printed _ (stops_cons (by decide) _)]
  dsimp only [Option.bind_eq_bind, Option.bind_some]
  rw [hdash]
  dsimp only [Option.bind_some]
  rw [shortNumber_padded hmonth (stops_cons (by decide) _)]
  dsimp only [Option.bind_some]
  rw [hdash]
  dsimp only [Option.bind_some]
  rw [shortNumber_padded t.date.day_lt (stops_cons (by decide) _)]
  dsimp only [Option.bind_some]
  rw [if_neg (by decide), shortNumber_padded hhour (stops_cons (by decide) _)]
  dsimp only [Option.bind_some]
  rw [hcolon]
  dsimp only [Option.bind_some]
  rw [shortNumber_padded hminute (stops_cons (by decide) _)]
  dsimp only [Option.bind_some]
  rw [hcolon]
  dsimp only [Option.bind_some]
  rw [shortNumber_padded hsecond (stops_fraction t.nanos)]
  dsimp only [Option.bind_some]
  rw [fraction_printed t.nanos_valid]
  dsimp only [Option.bind_some]
  rw [hend]
  dsimp only [Option.bind_some]
  rw [if_neg (by decide), Date.of?_self]
  dsimp only [Option.bind_some]
  rw [of?_self]
  exact atOffset_zero t

end Timestamp
end FundsLedger
