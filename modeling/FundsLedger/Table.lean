/-!
Tables. A table keeps rows under integer keys in ascending order of the key, each key once, so that
listing a table needs no sorting and two tables with the same rows are equal.
-/

namespace FundsLedger

/-- Puts a row under its key, in place of the row that was there. -/
def insertRow {α : Type} (key : Int) (row : α) : List (Int × α) → List (Int × α)
  | [] => [(key, row)]
  | (k, r) :: rest =>
    if key < k then (key, row) :: (k, r) :: rest
    else if key = k then (key, row) :: rest
    else (k, r) :: insertRow key row rest

/-- The row under a key. -/
def findRow {α : Type} (key : Int) : List (Int × α) → Option α
  | [] => none
  | (k, r) :: rest => if key = k then some r else findRow key rest

theorem mem_insertRow {α : Type} {key : Int} {row : α} {rows : List (Int × α)} {p : Int × α}
    (h : p ∈ insertRow key row rows) : p = (key, row) ∨ p ∈ rows := by
  induction rows with
  | nil => simpa [insertRow] using h
  | cons q rest ih =>
    obtain ⟨k, r⟩ := q
    simp only [insertRow] at h
    split at h
    · simpa using h
    · split at h
      · rcases List.mem_cons.mp h with h | h
        · exact Or.inl h
        · exact Or.inr (List.mem_cons_of_mem _ h)
      · rcases List.mem_cons.mp h with h | h
        · exact Or.inr (h ▸ List.mem_cons_self)
        · rcases ih h with h | h
          · exact Or.inl h
          · exact Or.inr (List.mem_cons_of_mem _ h)

theorem insertRow_ascending {α : Type} (key : Int) (row : α) {rows : List (Int × α)}
    (h : rows.Pairwise (·.1 < ·.1)) : (insertRow key row rows).Pairwise (·.1 < ·.1) := by
  induction rows with
  | nil => simp [insertRow]
  | cons q rest ih =>
    obtain ⟨k, r⟩ := q
    obtain ⟨hk, hrest⟩ := List.pairwise_cons.mp h
    simp only [insertRow]
    split
    · rename_i hlt
      refine List.pairwise_cons.mpr ⟨fun p hp => ?_, h⟩
      rcases List.mem_cons.mp hp with rfl | hp
      · exact hlt
      · exact Int.lt_trans hlt (hk p hp)
    · split
      · rename_i heq
        subst heq
        exact List.pairwise_cons.mpr ⟨hk, hrest⟩
      · refine List.pairwise_cons.mpr ⟨fun p hp => ?_, ih hrest⟩
        rcases mem_insertRow hp with rfl | hp
        · show k < key
          omega
        · exact hk p hp

/-- Rows under integer keys, in ascending order of the key. -/
structure Table (α : Type) where
  rows : List (Int × α)
  ascending : rows.Pairwise (·.1 < ·.1)
deriving DecidableEq

namespace Table

variable {α : Type}

/-- The table without rows. -/
def empty : Table α := ⟨[], List.Pairwise.nil⟩

instance : Inhabited (Table α) := ⟨empty⟩

/-- The row under the key. -/
def find? (t : Table α) (key : Int) : Option α := findRow key t.rows

/-- There is a row under the key. -/
def contains (t : Table α) (key : Int) : Bool := (t.find? key).isSome

/-- Puts the row under the key, in place of the one that was there. -/
def insert (t : Table α) (key : Int) (row : α) : Table α :=
  ⟨insertRow key row t.rows, insertRow_ascending key row t.ascending⟩

/-- Takes the key and its row out. -/
def erase (t : Table α) (key : Int) : Table α :=
  ⟨t.rows.filter (·.1 ≠ key), t.ascending.filter _⟩

/-- The rows in ascending order of their keys. -/
def values (t : Table α) : List α := t.rows.map (·.2)

/-- The keys in ascending order. -/
def keys (t : Table α) : List Int := t.rows.map (·.1)

/-- Puts every row of the second table over the first. -/
def overlay (t s : Table α) : Table α :=
  s.rows.foldl (fun acc p => acc.insert p.1 p.2) t

/-- The rows that pass the test, under their keys. -/
def filter (t : Table α) (test : α → Bool) : Table α :=
  ⟨t.rows.filter (fun p => test p.2), t.ascending.filter _⟩

@[ext] theorem ext {t s : Table α} (h : t.rows = s.rows) : t = s := by
  cases t; cases s; cases h; rfl

@[simp] theorem find?_empty (key : Int) : (empty : Table α).find? key = none := rfl

theorem findRow_insertRow (rows : List (Int × α)) (key key' : Int) (row : α) :
    findRow key' (insertRow key row rows) = if key' = key then some row else findRow key' rows := by
  induction rows with
  | nil => simp [insertRow, findRow]
  | cons q rest ih =>
    obtain ⟨k, r⟩ := q
    simp only [insertRow]
    split
    · simp [findRow]
    · split
      · rename_i heq
        subst heq
        by_cases h : key' = key <;> simp [findRow, h]
      · simp only [findRow, ih]
        by_cases h : key' = k
        · subst h
          rename_i h₁ h₂
          rw [if_pos rfl, if_pos rfl, if_neg (fun h => h₂ h.symm)]
        · simp [h]

@[simp] theorem find?_insert (t : Table α) (key key' : Int) (row : α) :
    (t.insert key row).find? key' = if key' = key then some row else t.find? key' :=
  findRow_insertRow t.rows key key' row

end Table
end FundsLedger
