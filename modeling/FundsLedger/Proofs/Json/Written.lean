import FundsLedger.Proofs.Json.Strings
import FundsLedger.Proofs.Text.Numeral

/-!
The written forms of a JSON value: what is printed for it, with any white space between its parts.
Both printers write such forms, and the reader takes every one of them back to the value that it is
a form of. So a printer may lay its text out as it likes.
-/

namespace FundsLedger.Json

variable {j item : Json} {xs : List Json} {ms : List (String × Json)} {name : String} {c : Char}
  {cs gap gap' rest : List Char} {n : Int} {m fuel : Nat}

/-! ## The grammar -/

/-- White space and nothing else. -/
def Spaces (cs : List Char) : Prop := ∀ c ∈ cs, isSpace c = true

/-- The value has no parts, and is not one of those that stand for nothing. -/
inductive Atom : Json → Prop
  | null : Atom null
  | bool (b : Bool) : Atom (bool b)
  | integer (n : Int) : Atom (integer n)
  | string (s : String) : Atom (string s)
  | array : Atom (array [])
  | object : Atom (object [])

mutual

/-- The text is a form of the value. -/
inductive Written : Json → List Char → Prop
  | atom {j : Json} : Atom j → Written j j.printedAtom
  | array {xs : List Json} {cs gap : List Char} :
    WrittenItems xs cs → Spaces gap → Written (array xs) ('[' :: cs ++ gap ++ [']'])
  | object {ms : List (String × Json)} {cs gap : List Char} :
    WrittenMembers ms cs → Spaces gap → Written (object ms) ('{' :: cs ++ gap ++ ['}'])

/-- The text is a form of the items, of which there is at least one, with commas between them. -/
inductive WrittenItems : List Json → List Char → Prop
  | last {item : Json} {gap cs : List Char} :
    Spaces gap → Written item cs → WrittenItems [item] (gap ++ cs)
  | cons {item : Json} {xs : List Json} {gap cs rest : List Char} :
    Spaces gap → Written item cs → WrittenItems xs rest →
      WrittenItems (item :: xs) (gap ++ cs ++ ',' :: rest)

/-- The text is a form of the members, of which there is at least one, with commas between them. -/
inductive WrittenMembers : List (String × Json) → List Char → Prop
  | last {name : String} {item : Json} {gap gap' cs : List Char} :
    Spaces gap → Spaces gap' → Written item cs →
      WrittenMembers [(name, item)] (gap ++ printedString name ++ ':' :: (gap' ++ cs))
  | cons {name : String} {item : Json} {ms : List (String × Json)} {gap gap' cs rest : List Char} :
    Spaces gap → Spaces gap' → Written item cs → WrittenMembers ms rest →
      WrittenMembers ((name, item) :: ms)
        (gap ++ printedString name ++ ':' :: (gap' ++ cs) ++ ',' :: rest)

end

/-- Every part of the value stands for something, so that all of it can be written. -/
inductive Plain : Json → Prop
  | null : Plain null
  | bool (b : Bool) : Plain (bool b)
  | integer (n : Int) : Plain (integer n)
  | string (s : String) : Plain (string s)
  | array {xs : List Json} : (∀ x ∈ xs, Plain x) → Plain (array xs)
  | object {ms : List (String × Json)} : (∀ m ∈ ms, Plain m.2) → Plain (object ms)

/-! ## What is printed is written -/

theorem spaces_nil : Spaces [] := by simp [Spaces]

theorem spaces_blank : Spaces [' '] := by simp [Spaces, isSpace]

theorem spaces_newLine (level : Nat) : Spaces (newLine level) := by
  intro c hc
  rcases List.mem_cons.mp hc with rfl | hc
  · rfl
  · rw [List.eq_of_mem_replicate hc]
    rfl

mutual

theorem written_compact : (j : Json) → Plain j → Written j j.compact
  | .null, _ => .atom .null
  | .bool b, _ => .atom (.bool b)
  | .integer n, _ => .atom (.integer n)
  | .string s, _ => .atom (.string s)
  | .array [], _ => .atom .array
  | .array (x :: xs), h => by
    cases h with
    | array h =>
      have hitems := writtenItems_compact (x :: xs) (by simp) h
      simpa [compact] using Written.array hitems spaces_nil
  | .object [], _ => .atom .object
  | .object (m :: ms), h => by
    cases h with
    | object h =>
      have hmembers := writtenMembers_compact (m :: ms) (by simp) h
      simpa [compact] using Written.object hmembers spaces_nil

theorem writtenItems_compact :
    (xs : List Json) → xs ≠ [] → (∀ x ∈ xs, Plain x) → WrittenItems xs (compactItems xs)
  | [x], _, h => .last spaces_nil (written_compact x (h x (by simp)))
  | x :: y :: xs, _, h =>
    .cons spaces_nil (written_compact x (h x (by simp)))
      (writtenItems_compact (y :: xs) (by simp) fun z hz => h z (List.mem_cons_of_mem _ hz))

theorem writtenMembers_compact :
    (ms : List (String × Json)) → ms ≠ [] → (∀ m ∈ ms, Plain m.2) →
      WrittenMembers ms (compactMembers ms)
  | [(name, x)], _, h => .last spaces_nil spaces_nil (written_compact x (h (name, x) (by simp)))
  | (name, x) :: m :: ms, _, h =>
    .cons spaces_nil spaces_nil (written_compact x (h (name, x) (by simp)))
      (writtenMembers_compact (m :: ms) (by simp) fun z hz => h z (List.mem_cons_of_mem _ hz))

end

mutual

theorem written_indented (level : Nat) : (j : Json) → Plain j → Written j (j.indented level)
  | .null, _ => .atom .null
  | .bool b, _ => .atom (.bool b)
  | .integer n, _ => .atom (.integer n)
  | .string s, _ => .atom (.string s)
  | .array [], _ => .atom .array
  | .array (x :: xs), h => by
    cases h with
    | array h =>
      exact .array (writtenItems_indented (level + 1) (x :: xs) (by simp) h) (spaces_newLine level)
  | .object [], _ => .atom .object
  | .object (m :: ms), h => by
    cases h with
    | object h =>
      exact .object (writtenMembers_indented (level + 1) (m :: ms) (by simp) h)
        (spaces_newLine level)

theorem writtenItems_indented (level : Nat) :
    (xs : List Json) → xs ≠ [] → (∀ x ∈ xs, Plain x) → WrittenItems xs (indentedItems level xs)
  | [x], _, h => .last (spaces_newLine level) (written_indented level x (h x (by simp)))
  | x :: y :: xs, _, h =>
    .cons (spaces_newLine level) (written_indented level x (h x (by simp)))
      (writtenItems_indented level (y :: xs) (by simp) fun z hz => h z (List.mem_cons_of_mem _ hz))

theorem writtenMembers_indented (level : Nat) :
    (ms : List (String × Json)) → ms ≠ [] → (∀ m ∈ ms, Plain m.2) →
      WrittenMembers ms (indentedMembers level ms)
  | [(name, x)], _, h =>
    .last (spaces_newLine level) spaces_blank (written_indented level x (h (name, x) (by simp)))
  | (name, x) :: m :: ms, _, h =>
    .cons (spaces_newLine level) spaces_blank (written_indented level x (h (name, x) (by simp)))
      (writtenMembers_indented level (m :: ms) (by simp) fun z hz =>
        h z (List.mem_cons_of_mem _ hz))

end

/-! ## What is written is read -/

/-- The text does not go on with anything that belongs to a number. -/
def Ends (cs : List Char) : Prop :=
  ∀ c ∈ cs.head?, c.isDigit = false ∧ c ≠ '.' ∧ c ≠ 'e' ∧ c ≠ 'E'

theorem ends_nil : Ends [] := by simp [Ends]

theorem ends_spaces (hgap : Spaces gap) (hrest : Ends rest) : Ends (gap ++ rest) := by
  cases gap with
  | nil => exact hrest
  | cons c gap =>
    have hc := hgap c (by simp)
    simp only [isSpace, Bool.or_eq_true, decide_eq_true_eq] at hc
    rintro c' ⟨⟩
    rcases hc with ((rfl | rfl) | rfl) | rfl <;> decide

theorem skip_spaces (hgap : Spaces gap) (rest : List Char) : skip (gap ++ rest) = skip rest :=
  List.dropWhile_append_of_pos hgap

theorem skip_cons (h : isSpace c = false) (rest : List Char) : skip (c :: rest) = c :: rest := by
  simp [skip, h]

theorem Ends.stops (h : Ends rest) : Numeral.Stops rest := fun c hc => (h c hc).1

theorem afterFraction_ends (h : Ends rest) : afterFraction rest = some (false, rest) := by
  cases rest with
  | nil => rfl
  | cons c rest =>
    have hdot : c ≠ '.' := (h c rfl).2.1
    rw [afterFraction.eq_def]
    grind

theorem afterExponent_ends (h : Ends rest) : afterExponent rest = some (false, rest) := by
  cases rest with
  | nil => rfl
  | cons c rest =>
    have hexponent : c ≠ 'e' ∧ c ≠ 'E' := (h c rfl).2.2
    rw [afterExponent.eq_def]
    grind

theorem digits_ends (m : Nat) (h : Ends rest) :
    digits (Numeral.digits m ++ rest) = some (Numeral.digits m, rest) := by
  have hall : ∀ c ∈ Numeral.digits m, c.isDigit = true := fun _ => Numeral.isDigit_of_mem_digits
  rw [digits, Numeral.takeWhile_digits hall h.stops, Numeral.dropWhile_digits hall h.stops]
  split
  · exact absurd ‹_› (Numeral.digits_ne_nil m)
  · rfl

/-- The digits of a number are its whole part: they start with a zero only if there is no other. -/
theorem wholePart_digits (m : Nat) (h : Ends rest) :
    wholePart (Numeral.digits m ++ rest) = some (Numeral.digits m, rest) := by
  obtain ⟨c, cs, hcons⟩ := List.exists_cons_of_ne_nil (Numeral.digits_ne_nil m)
  by_cases hzero : c = '0'
  · subst c
    rw [Numeral.digits_head hcons]
    rfl
  · have hwhole : wholePart (Numeral.digits m ++ rest) = digits (Numeral.digits m ++ rest) := by
      rw [hcons, List.cons_append, wholePart.eq_def]
      grind
    rw [hwhole, digits_ends m h]

theorem unsigned_digits {negative : Bool} (hsign : negative = true → m ≠ 0) (h : Ends rest) :
    unsigned negative (Numeral.digits m ++ rest) =
      some (.integer (if negative then -(m : Int) else m), rest) := by
  cases negative with
  | false => simp [unsigned, wholePart_digits m h, afterFraction_ends h, afterExponent_ends h,
      Numeral.value_digits]
  | true => simp [unsigned, wholePart_digits m h, afterFraction_ends h, afterExponent_ends h,
      Numeral.value_digits, hsign rfl]

/-- A number starts with its sign or a digit. -/
theorem printed_head (n : Int) :
    ∃ c cs, Integer.printed n = c :: cs ∧ (c = '-' ∨ c.isDigit = true) := by
  unfold Integer.printed
  split
  · exact ⟨'-', _, rfl, .inl rfl⟩
  · obtain ⟨c, cs, hcons⟩ := List.exists_cons_of_ne_nil (Numeral.digits_ne_nil n.natAbs)
    exact ⟨c, cs, hcons, .inr (Numeral.isDigit_of_mem_digits (hcons ▸ List.mem_cons_self))⟩

theorem number_printed (n : Int) (h : Ends rest) :
    number (Integer.printed n ++ rest) = some (.integer n, rest) := by
  unfold Integer.printed
  split
  · rename_i hneg
    have hread : unsigned true (Numeral.digits n.natAbs ++ rest) = _ :=
      unsigned_digits (by omega) h
    rw [List.cons_append, number, hread]
    simp only [if_true]
    congr 3
    omega
  · rename_i hpos
    have hread : unsigned false (Numeral.digits n.natAbs ++ rest) = _ :=
      unsigned_digits (by simp) h
    have hnumber : number (Numeral.digits n.natAbs ++ rest) =
        unsigned false (Numeral.digits n.natAbs ++ rest) := by
      obtain ⟨c, cs, hcons⟩ := List.exists_cons_of_ne_nil (Numeral.digits_ne_nil n.natAbs)
      have hdigit : c.isDigit = true :=
        Numeral.isDigit_of_mem_digits (hcons ▸ List.mem_cons_self)
      have hminus : c ≠ '-' := by rintro rfl; simp at hdigit
      rw [hcons, List.cons_append, number.eq_def]
      grind
    rw [hnumber, hread]
    simp only [Bool.false_eq_true, if_false]
    congr 3
    omega

/-- A value that starts like a number is a number. -/
theorem value_number (hc : c = '-' ∨ c.isDigit = true) (cs : List Char) :
    value (fuel + 1) (c :: cs) = number (c :: cs) := by
  have hother : c ≠ '{' ∧ c ≠ '[' ∧ c ≠ '"' ∧ c ≠ 'n' ∧ c ≠ 't' ∧ c ≠ 'f' := by
    refine ⟨?_, ?_, ?_, ?_, ?_, ?_⟩ <;> rintro rfl <;> simp at hc
  rw [value.eq_def]
  grind

theorem value_atom (h : Atom j) (hrest : Ends rest) :
    value (fuel + 1) (j.printedAtom ++ rest) = some (j, rest) := by
  cases h with
  | null => rfl
  | bool b => cases b <;> rfl
  | integer n =>
    obtain ⟨c, cs, hcons, hc⟩ := printed_head n
    have hnumber := number_printed n hrest
    simp only [printedAtom]
    rw [hcons, List.cons_append] at hnumber ⊢
    rw [value_number hc, hnumber]
  | string s =>
    have htext := text_printed s rest
    simp [printedAtom, printedString, value, htext]
  | array => rfl
  | object => rfl

/-- The text starts with a character that is no white space and closes nothing. -/
def Opens (cs : List Char) : Prop :=
  ∃ c cs', cs = c :: cs' ∧ isSpace c = false ∧ c ≠ ']' ∧ c ≠ '}'

theorem Opens.append (h : Opens cs) (rest : List Char) : Opens (cs ++ rest) := by
  obtain ⟨c, cs', rfl, hc⟩ := h
  exact ⟨c, cs' ++ rest, rfl, hc⟩

theorem Opens.skip (h : Opens cs) : skip cs = cs := by
  obtain ⟨c, cs', rfl, hspace, -⟩ := h
  exact skip_cons hspace cs'

theorem skip_opens (hgap : Spaces gap) (h : Opens cs) (rest : List Char) :
    skip (gap ++ cs ++ rest) = cs ++ rest := by
  rw [List.append_assoc, skip_spaces hgap, (h.append rest).skip]

theorem opens_string (s : String) : Opens (printedString s) :=
  ⟨'"', _, rfl, by decide, by decide, by decide⟩

theorem opens_number (n : Int) : Opens (Integer.printed n) := by
  obtain ⟨c, cs, hcons, hc⟩ := printed_head n
  refine ⟨c, cs, hcons, ?_, ?_, ?_⟩
  · simp only [isSpace, Bool.or_eq_false_iff, decide_eq_false_iff_not]
    refine ⟨⟨⟨?_, ?_⟩, ?_⟩, ?_⟩ <;> rintro rfl <;> simp at hc
  all_goals
    rintro rfl
    simp at hc

theorem Written.opens (h : Written j cs) : Opens cs := by
  cases h with
  | atom h =>
    cases h with
    | bool b => cases b <;> exact ⟨_, _, rfl, by decide, by decide, by decide⟩
    | integer n => exact opens_number n
    | string s => exact opens_string s
    | _ => exact ⟨_, _, rfl, by decide, by decide, by decide⟩
  | _ => exact ⟨_, _, rfl, by decide, by decide, by decide⟩

theorem WrittenItems.opens (h : WrittenItems xs cs) (rest : List Char) :
    Opens (Json.skip (cs ++ rest)) := by
  cases h with
  | last hgap hitem =>
    rw [skip_opens hgap hitem.opens]
    exact hitem.opens.append rest
  | cons hgap hitem =>
    rw [List.append_assoc, skip_opens hgap hitem.opens]
    exact hitem.opens.append _

theorem WrittenMembers.opens (h : WrittenMembers ms cs) (rest : List Char) :
    Opens (Json.skip (cs ++ rest)) := by
  cases h with
  | last hgap =>
    rw [List.append_assoc, skip_opens hgap (opens_string _)]
    exact (opens_string _).append _
  | cons hgap =>
    rw [List.append_assoc, List.append_assoc, skip_opens hgap (opens_string _)]
    exact (opens_string _).append _

theorem value_array (h : Opens (skip cs)) :
    value (fuel + 1) ('[' :: cs) =
      (items fuel (skip cs)).map fun (xs, after) => (.array xs, after) := by
  obtain ⟨c, cs', hcons, -, hclose, -⟩ := h
  rw [value, hcons]
  grind

theorem value_object (h : Opens (skip cs)) :
    value (fuel + 1) ('{' :: cs) =
      (members fuel (skip cs)).map fun (ms, after) => (objectOf ms, after) := by
  obtain ⟨c, cs', hcons, -, -, hclose⟩ := h
  rw [value, hcons]
  grind

/-- Names that have been read as characters are the names of the object. -/
theorem objectOf_named (ms : List (String × Json)) :
    objectOf (ms.map (Prod.map some id)) = .object ms := by
  have hread : (ms.map (Prod.map some id)).mapM
      (fun m : Option String × Json => m.1.map fun name => (name, m.2)) = some ms := by
    induction ms with
    | nil => rfl
    | cons m ms ih => simp [ih]
  unfold objectOf
  split
  · rename_i hmembers
    cases hmembers.symm.trans hread
    rfl
  · rename_i hnone
    cases hnone.symm.trans hread

section Steps

variable {xs : List Json} {named : List (Option String × Json)} {name : Option String}
  {more after : List Char}

theorem items_last (hvalue : value fuel cs = some (item, rest)) (hskip : skip rest = ']' :: after) :
    items (fuel + 1) cs = some ([item], after) := by
  simp [items, hvalue, hskip]

theorem items_cons (hvalue : value fuel cs = some (item, rest)) (hskip : skip rest = ',' :: more)
    (hitems : items fuel (skip more) = some (xs, after)) :
    items (fuel + 1) cs = some (item :: xs, after) := by
  simp [items, hvalue, hskip, hitems]

theorem members_last (htext : text cs = some (name, gap)) (hcolon : skip gap = ':' :: gap')
    (hvalue : value fuel (skip gap') = some (item, rest)) (hskip : skip rest = '}' :: after) :
    members (fuel + 1) ('"' :: cs) = some ([(name, item)], after) := by
  simp [members, htext, hcolon, hvalue, hskip]

theorem members_cons (htext : text cs = some (name, gap)) (hcolon : skip gap = ':' :: gap')
    (hvalue : value fuel (skip gap') = some (item, rest)) (hskip : skip rest = ',' :: more)
    (hmembers : members fuel (skip more) = some (named, after)) :
    members (fuel + 1) ('"' :: cs) = some ((name, item) :: named, after) := by
  simp [members, htext, hcolon, hvalue, hskip, hmembers]

end Steps

theorem ends_mark (hgap : Spaces gap) (hc : c = ',' ∨ c = ']' ∨ c = '}') (rest : List Char) :
    Ends (gap ++ c :: rest) := by
  refine ends_spaces hgap ?_
  rintro c' ⟨⟩
  rcases hc with rfl | rfl | rfl <;> decide

theorem skip_mark (hgap : Spaces gap) (hc : isSpace c = false) (rest : List Char) :
    skip (gap ++ c :: rest) = c :: rest := by
  rw [skip_spaces hgap, skip_cons hc]

mutual

/-- The reader takes a form of a value back to the value, provided that its fuel covers the text and
that what comes after could not belong to a number. -/
theorem value_written {j : Json} {cs : List Char} (h : Written j cs) :
    ∀ {fuel : Nat} {rest : List Char}, cs.length ≤ fuel → Ends rest →
      value fuel (cs ++ rest) = some (j, rest) := by
  intro fuel rest hfuel hrest
  obtain ⟨fuel, rfl⟩ : ∃ k, fuel = k + 1 := by
    obtain ⟨c, cs', hcons, -⟩ := h.opens
    rw [hcons, List.length_cons] at hfuel
    exact Nat.exists_eq_succ_of_ne_zero (by omega)
  cases h with
  | atom h => exact value_atom h hrest
  | array hitems hgap =>
    rename_i xs cs gap
    have hread : items fuel (skip (cs ++ (gap ++ ']' :: rest))) = _ :=
      items_written hitems (by simp at hfuel; omega) hgap
    simp only [List.cons_append, List.append_assoc, List.nil_append]
    rw [value_array (hitems.opens _), hread]
    rfl
  | object hmembers hgap =>
    rename_i ms cs gap
    have hread : members fuel (skip (cs ++ (gap ++ '}' :: rest))) = _ :=
      members_written hmembers (by simp at hfuel; omega) hgap
    simp only [List.cons_append, List.append_assoc, List.nil_append]
    rw [value_object (hmembers.opens _), hread]
    exact congrArg (fun j => some (j, rest)) (objectOf_named ms)

theorem items_written {xs : List Json} {cs : List Char} (h : WrittenItems xs cs) :
    ∀ {fuel : Nat} {gap rest : List Char}, cs.length < fuel → Spaces gap →
      items fuel (skip (cs ++ (gap ++ ']' :: rest))) = some (xs, rest) := by
  intro fuel gap rest hfuel hgap
  obtain ⟨fuel, rfl⟩ := Nat.exists_eq_succ_of_ne_zero (Nat.ne_zero_of_lt hfuel)
  cases h with
  | last hbefore hitem =>
    rw [List.length_append] at hfuel
    rw [skip_opens hbefore hitem.opens]
    exact items_last
      (value_written hitem (by omega) (ends_mark hgap (by simp) rest))
      (skip_mark hgap (by decide) rest)
  | cons hbefore hitem hitems =>
    simp only [List.length_append, List.length_cons] at hfuel
    rw [List.append_assoc, skip_opens hbefore hitem.opens]
    exact items_cons
      (value_written hitem (by omega) (ends_mark spaces_nil (by simp) _))
      (skip_cons (by decide) _)
      (items_written hitems (by omega) hgap)

theorem members_written {ms : List (String × Json)} {cs : List Char} (h : WrittenMembers ms cs) :
    ∀ {fuel : Nat} {gap rest : List Char}, cs.length < fuel → Spaces gap →
      members fuel (skip (cs ++ (gap ++ '}' :: rest))) =
        some (ms.map (Prod.map some id), rest) := by
  intro fuel gap rest hfuel hgap
  obtain ⟨fuel, rfl⟩ := Nat.exists_eq_succ_of_ne_zero (Nat.ne_zero_of_lt hfuel)
  cases h with
  | last hbefore hbetween hitem =>
    rename_i name item gap₁ gap₂ cs
    simp only [List.length_append, List.length_cons] at hfuel
    rw [List.append_assoc, skip_opens hbefore (opens_string _)]
    simp only [printedString, List.cons_append, List.append_assoc, List.nil_append]
    have hskip := skip_opens hbetween hitem.opens (gap ++ '}' :: rest)
    refine members_last (text_printed name _) (skip_cons (by decide) _) ?_
      (skip_mark hgap (by decide) rest)
    rw [← List.append_assoc, hskip]
    exact value_written hitem (by omega) (ends_mark hgap (by simp) rest)
  | cons hbefore hbetween hitem hmembers =>
    rename_i name item ms gap₁ gap₂ cs more
    simp only [List.length_append, List.length_cons] at hfuel
    rw [List.append_assoc, List.append_assoc, skip_opens hbefore (opens_string _)]
    simp only [printedString, List.cons_append, List.append_assoc, List.nil_append]
    have hskip := skip_opens hbetween hitem.opens (',' :: (more ++ (gap ++ '}' :: rest)))
    refine members_cons (text_printed name _) (skip_cons (by decide) _) ?_
      (skip_cons (by decide) _) (members_written hmembers (by omega) hgap)
    rw [← List.append_assoc, hskip]
    exact value_written hitem (by omega) (ends_mark spaces_nil (by simp) _)

end

/-! ## Round trips -/

/-- A form of a value between white space stands for that value. -/
theorem ofChars?_written (h : Written j cs) (hgap : Spaces gap) (hgap' : Spaces gap') :
    ofChars? (gap ++ cs ++ gap') = some j := by
  have hvalue : value ((gap ++ cs ++ gap').length + 1) (cs ++ gap') = some (j, gap') :=
    value_written h (by simp; omega) (by simpa using ends_spaces hgap' ends_nil)
  have hnothing : skip gap' = [] := by
    rw [← List.append_nil gap', skip_spaces hgap']
    rfl
  rw [ofChars?, skip_opens hgap h.opens, hvalue]
  simp [hnothing]

theorem parse?_print (h : j.Plain) : parse? j.print = some j := by
  simpa [parse?, print] using ofChars?_written (written_compact j h) spaces_nil spaces_nil

theorem parse?_pretty (h : j.Plain) : parse? j.pretty = some j := by
  simpa [parse?, pretty] using ofChars?_written (written_indented 0 j h) spaces_nil spaces_nil

end FundsLedger.Json
