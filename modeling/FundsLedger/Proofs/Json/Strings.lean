import FundsLedger.Json.Printer
import FundsLedger.Json.Reader

/-!
Texts between quotation marks are read as they are printed. Each printed character is one piece of
the text, and that piece stands for the character: no control character is a surrogate, so a unit
given by number never waits for another half.
-/

namespace FundsLedger.Json

variable {c e : Char} {n : Nat}

/-- The piece stands for the character, whatever pieces come after it. -/
def Piece.Denotes (p : Piece) (c : Char) : Prop :=
  ∀ ps, joined (p :: ps) = (joined ps).map (c :: ·)

theorem Piece.denotes_char (c : Char) : (Piece.char c).Denotes c := fun _ => rfl

theorem Piece.denotes_unit (h : n < 0xD800) : (Piece.unit n).Denotes (Char.ofNat n) := by
  have hhigh : isHighSurrogate n = false := by simp [isHighSurrogate]; omega
  have hlow : isLowSurrogate n = false := by simp [isLowSurrogate]; omega
  intro ps
  match ps with
  | [] => simp [joined, hhigh, hlow]
  | .char c :: ps => simp [joined, hhigh, hlow]
  | .unit low :: ps => simp [joined, hhigh, hlow]

/-- The piece is found first, and the rest of the text follows. -/
def First (p : Piece) (cs rest : List Char) : Prop :=
  pieces cs = (pieces rest).map fun (ps, after) => (p :: ps, after)

theorem first_escaped (h : escaped? e = some c) (rest : List Char) :
    First (.char c) ('\\' :: e :: rest) rest := by
  have hu : e ≠ 'u' := by rintro rfl; simp [escaped?] at h
  have hpieces : pieces ('\\' :: e :: rest) = do
      let c ← escaped? e
      let (ps, after) ← pieces rest
      return (.char c :: ps, after) := by
    rw [pieces.eq_def]
    grind
  rw [First, hpieces, h]
  cases pieces rest <;> rfl

theorem first_plain (hcontrol : ¬ c.toNat < 32) (hquote : c ≠ '"') (hslash : c ≠ '\\')
    (rest : List Char) : First (.char c) (c :: rest) rest := by
  have hpieces : pieces (c :: rest) = do
      let (ps, after) ← pieces rest
      return (.char c :: ps, after) := by
    rw [pieces.eq_def]
    grind
  rw [First, hpieces]
  cases pieces rest <;> rfl

theorem unit?_control (h : n < 32) :
    unit? '0' '0' (Nat.digitChar (n / 16)) (Nat.digitChar (n % 16)) = some n := by
  revert n
  decide

theorem first_control (h : n < 32) (rest : List Char) :
    First (.unit n)
      ('\\' :: 'u' :: '0' :: '0' :: Nat.digitChar (n / 16) :: Nat.digitChar (n % 16) :: rest)
      rest := by
  rw [First, pieces, unit?_control h]
  cases pieces rest <;> rfl

/-- A character is printed after a backslash, by its number, or as it is. -/
theorem printedChar_cases (c : Char) :
    (∃ e, escaped? e = some c ∧ printedChar c = ['\\', e]) ∨
    (c.toNat < 32 ∧
      printedChar c =
        ['\\', 'u', '0', '0', Nat.digitChar (c.toNat / 16), Nat.digitChar (c.toNat % 16)]) ∨
    (¬ c.toNat < 32 ∧ c ≠ '"' ∧ c ≠ '\\' ∧ printedChar c = [c]) := by
  by_cases hnamed : c ∈ ['"', '\\', '\x08', '\x0c', '\n', '\r', '\t']
  · left
    simp only [List.mem_cons, List.not_mem_nil, or_false] at hnamed
    rcases hnamed with rfl | rfl | rfl | rfl | rfl | rfl | rfl <;> refine ⟨_, ?_, rfl⟩ <;> rfl
  · simp only [List.mem_cons, List.not_mem_nil, or_false, not_or] at hnamed
    obtain ⟨h₁, h₂, h₃, h₄, h₅, h₆, h₇⟩ := hnamed
    right
    simp only [printedChar, if_neg h₁, if_neg h₂, if_neg h₃, if_neg h₄, if_neg h₅, if_neg h₆,
      if_neg h₇]
    by_cases hcontrol : c.toNat < 32
    · exact .inl ⟨hcontrol, if_pos hcontrol⟩
    · exact .inr ⟨hcontrol, h₁, h₂, if_neg hcontrol⟩

/-- A printed character is one piece, which stands for it. -/
theorem exists_piece (c : Char) :
    ∃ p : Piece, p.Denotes c ∧ ∀ rest, First p (printedChar c ++ rest) rest := by
  obtain ⟨e, he, hprinted⟩ | ⟨hcontrol, hprinted⟩ | ⟨hcontrol, hquote, hslash, hprinted⟩ :=
    printedChar_cases c
  · exact ⟨.char c, Piece.denotes_char c, fun rest => hprinted ▸ first_escaped he rest⟩
  · refine ⟨.unit c.toNat, ?_, fun rest => hprinted ▸ first_control hcontrol rest⟩
    have hdenotes := Piece.denotes_unit (n := c.toNat) (by omega)
    rwa [Char.ofNat_toNat] at hdenotes
  · exact ⟨.char c, Piece.denotes_char c,
      fun rest => hprinted ▸ first_plain hcontrol hquote hslash rest⟩

theorem pieces_printed (cs rest : List Char) :
    ∃ ps, pieces (cs.flatMap printedChar ++ '"' :: rest) = some (ps, rest) ∧
      joined ps = some cs := by
  induction cs with
  | nil => exact ⟨[], rfl, rfl⟩
  | cons c cs ih =>
    obtain ⟨ps, hpieces, hjoined⟩ := ih
    obtain ⟨p, hdenotes, hfirst⟩ := exists_piece c
    refine ⟨p :: ps, ?_, ?_⟩
    · rw [List.flatMap_cons, List.append_assoc, hfirst, hpieces]
      rfl
    · rw [hdenotes, hjoined]
      rfl

/-- A text is read as it is printed, up to its closing quotation mark. -/
theorem text_printed (s : String) (rest : List Char) :
    text (s.toList.flatMap printedChar ++ '"' :: rest) = some (some s, rest) := by
  obtain ⟨ps, hpieces, hjoined⟩ := pieces_printed s.toList rest
  simp [text, hpieces, hjoined]

end FundsLedger.Json
