import FundsLedger.Table

/-!
Tables seen through their look-up. A table is its look-up function: two tables that find the same
row under every key are equal, because the rows stand in ascending order. Every operation is then
one equation on what is found afterwards.
-/

namespace FundsLedger.Table

variable {α : Type}

/-! ## Rows and look-up -/

theorem findRow_eq_none {key : Int} {rows : List (Int × α)} (h : ∀ p ∈ rows, p.1 ≠ key) :
    findRow key rows = none := by
  induction rows with
  | nil => rfl
  | cons p rest ih =>
    obtain ⟨k, r⟩ := p
    have hk : key ≠ k := (h (k, r) (by simp)).symm
    rw [findRow, if_neg hk]
    exact ih fun q hq => h q (by simp [hq])

theorem mem_of_findRow {key : Int} {row : α} {rows : List (Int × α)}
    (h : findRow key rows = some row) : (key, row) ∈ rows := by
  induction rows with
  | nil => cases h
  | cons p rest ih =>
    obtain ⟨k, r⟩ := p
    rw [findRow] at h
    split at h
    · rename_i heq
      cases h
      simp [heq]
    · exact List.mem_cons_of_mem _ (ih h)

theorem findRow_of_mem {key : Int} {row : α} {rows : List (Int × α)}
    (hasc : rows.Pairwise (·.1 < ·.1)) (h : (key, row) ∈ rows) :
    findRow key rows = some row := by
  induction rows with
  | nil => cases h
  | cons p rest ih =>
    obtain ⟨k, r⟩ := p
    obtain ⟨hk, hrest⟩ := List.pairwise_cons.mp hasc
    rw [findRow]
    rcases List.mem_cons.mp h with heq | hmem
    · cases heq
      simp
    · have hlt : k < key := hk (key, row) hmem
      rw [if_neg (by omega)]
      exact ih hrest hmem

theorem mem_rows_iff {t : Table α} {key : Int} {row : α} :
    (key, row) ∈ t.rows ↔ t.find? key = some row :=
  ⟨findRow_of_mem t.ascending, mem_of_findRow⟩

theorem mem_values_iff {t : Table α} {row : α} :
    row ∈ t.values ↔ ∃ key, t.find? key = some row := by
  simp only [values, List.mem_map, Prod.exists, exists_eq_right, mem_rows_iff]

/-- Two ascending lists with the same rows are equal. -/
theorem ascending_ext {id : α → Int} {xs ys : List α} (hxs : xs.Pairwise (id · < id ·))
    (hys : ys.Pairwise (id · < id ·)) (hmem : ∀ r, r ∈ xs ↔ r ∈ ys) : xs = ys := by
  have hnodup : ∀ {zs : List α}, zs.Pairwise (id · < id ·) → zs.Nodup := fun hzs =>
    hzs.imp fun hlt heq => by rw [heq] at hlt; exact Int.lt_irrefl _ hlt
  have hperm : xs.Perm ys := (List.perm_ext_iff_of_nodup (hnodup hxs) (hnodup hys)).mpr hmem
  refine hperm.eq_of_pairwise (fun r r' _ _ hlt hlt' => ?_) hxs hys
  exact absurd hlt (Int.not_lt.mpr (Int.le_of_lt hlt'))

/-- A table is determined by what it finds. -/
theorem ext_find? {t s : Table α} (h : ∀ key, t.find? key = s.find? key) : t = s := by
  refine Table.ext (ascending_ext t.ascending s.ascending ?_)
  rintro ⟨key, row⟩
  rw [mem_rows_iff, mem_rows_iff, h]

/-! ## Rows that know their keys -/

/-- Every row stands under its own identifier. -/
def Keyed (t : Table α) (id : α → Int) : Prop := ∀ key r, t.find? key = some r → id r = key

namespace Keyed

variable {t : Table α} {id : α → Int}

theorem mem_values_iff (h : t.Keyed id) {r : α} : r ∈ t.values ↔ t.find? (id r) = some r := by
  rw [Table.mem_values_iff]
  constructor
  · rintro ⟨key, hkey⟩
    rwa [h key r hkey]
  · exact fun hfind => ⟨id r, hfind⟩

/-- Such rows are listed in ascending order of their identifiers. -/
theorem values_ascending (h : t.Keyed id) : t.values.Pairwise (id · < id ·) := by
  rw [values, List.pairwise_map]
  refine t.ascending.imp_of_mem fun {p q} hp hq hlt => ?_
  obtain ⟨key, r⟩ := p
  obtain ⟨key', r'⟩ := q
  rw [mem_rows_iff] at hp hq
  rw [h key r hp, h key' r' hq]
  exact hlt

end Keyed

/-! ## What is found after each operation -/

@[simp] theorem find?_erase (t : Table α) (key key' : Int) :
    (t.erase key).find? key' = if key' = key then none else t.find? key' := by
  by_cases heq : key' = key
  · rw [if_pos heq]
    apply findRow_eq_none
    intro p hp
    have hne := (List.mem_filter.mp hp).2
    simp only [ne_eq, decide_not, Bool.not_eq_true', decide_eq_false_iff_not] at hne
    rwa [heq]
  · rw [if_neg heq]
    apply Option.ext
    intro row
    rw [← mem_rows_iff, ← mem_rows_iff]
    simp [erase, List.mem_filter, heq]

theorem find?_foldl_insert (rows : List (Int × α)) (hasc : rows.Pairwise (·.1 < ·.1))
    (t : Table α) (key : Int) :
    (rows.foldl (fun acc p => acc.insert p.1 p.2) t).find? key =
      (findRow key rows).or (t.find? key) := by
  induction rows generalizing t with
  | nil => rfl
  | cons p rest ih =>
    obtain ⟨k, r⟩ := p
    obtain ⟨hk, hrest⟩ := List.pairwise_cons.mp hasc
    rw [List.foldl_cons, ih hrest, find?_insert, findRow]
    by_cases heq : key = k
    · subst heq
      rw [findRow_eq_none fun s hs => by have := hk s hs; simp only at this; omega]
      simp
    · simp [heq]

@[simp] theorem find?_overlay (t s : Table α) (key : Int) :
    (t.overlay s).find? key = (s.find? key).or (t.find? key) :=
  find?_foldl_insert s.rows s.ascending t key

theorem insert_insert (t : Table α) (key : Int) (row row' : α) :
    (t.insert key row).insert key row' = t.insert key row' := by
  apply ext_find?
  intro k
  simp only [find?_insert]
  split <;> rfl

/-- Putting in the row that is there changes nothing. -/
theorem insert_self {t : Table α} {key : Int} {row : α} (h : t.find? key = some row) :
    t.insert key row = t := by
  apply ext_find?
  intro k
  rw [find?_insert]
  split
  · rename_i heq
    rw [heq, h]
  · rfl

/-- Rows under different keys can be put in in either order. -/
theorem insert_comm (t : Table α) {key key' : Int} (h : key ≠ key') (row row' : α) :
    (t.insert key row).insert key' row' = (t.insert key' row').insert key row := by
  apply ext_find?
  intro k
  simp only [find?_insert]
  by_cases hk : k = key
  · simp [hk, h]
  · simp [hk]

@[simp] theorem find?_filter (t : Table α) (test : α → Bool) (key : Int) :
    (t.filter test).find? key = (t.find? key).filter test := by
  apply Option.ext
  intro row
  rw [← mem_rows_iff, Option.filter_eq_some_iff, ← mem_rows_iff]
  exact List.mem_filter

theorem erase_insert (t : Table α) (key : Int) (row : α) :
    (t.insert key row).erase key = t.erase key := by
  apply ext_find?
  intro k
  simp only [find?_erase, find?_insert]
  split <;> rfl

/-! ## The rows after an insertion -/

/-- A row under a new key is one row more. -/
theorem insertRow_of_new {key : Int} {rows : List (Int × α)} (row : α)
    (h : findRow key rows = none) : (insertRow key row rows).Perm ((key, row) :: rows) := by
  induction rows with
  | nil => exact .refl _
  | cons p rest ih =>
    obtain ⟨k, r⟩ := p
    rw [findRow] at h
    split at h
    · cases h
    · rename_i hne
      rw [insertRow]
      split
      · exact .refl _
      · exact ((ih h).cons (k, r)).trans (.swap (key, row) (k, r) rest)

/-- A row under a key that is in use takes the place of the row that was there. -/
theorem insertRow_of_findRow {key : Int} {old : α} {rows : List (Int × α)} (row : α)
    (hasc : rows.Pairwise (·.1 < ·.1)) (h : findRow key rows = some old) :
    ∃ xs ys, rows = xs ++ (key, old) :: ys ∧
      insertRow key row rows = xs ++ (key, row) :: ys := by
  induction rows with
  | nil => cases h
  | cons p rest ih =>
    obtain ⟨k, r⟩ := p
    obtain ⟨hk, hrest⟩ := List.pairwise_cons.mp hasc
    rw [findRow] at h
    rw [insertRow]
    split at h
    · rename_i heq
      cases h
      subst heq
      exact ⟨[], rest, rfl, by simp⟩
    · rename_i hne
      have hlt : ¬ key < k := Int.not_lt.mpr (Int.le_of_lt (hk _ (mem_of_findRow h)))
      obtain ⟨xs, ys, hrows, hinsert⟩ := ih hrest h
      refine ⟨(k, r) :: xs, ys, by rw [hrows, List.cons_append], ?_⟩
      rw [if_neg hlt, if_neg hne, hinsert, List.cons_append]

theorem values_insert_of_new {t : Table α} {key : Int} (row : α) (h : t.find? key = none) :
    (t.insert key row).values.Perm (row :: t.values) :=
  (insertRow_of_new row h).map Prod.snd

theorem values_insert_of_find? {t : Table α} {key : Int} {old : α} (row : α)
    (h : t.find? key = some old) :
    ∃ xs ys, t.values = xs ++ old :: ys ∧ (t.insert key row).values = xs ++ row :: ys := by
  obtain ⟨xs, ys, hrows, hinsert⟩ := insertRow_of_findRow row t.ascending h
  have hinsert : (t.insert key row).rows = xs ++ (key, row) :: ys := hinsert
  refine ⟨xs.map Prod.snd, ys.map Prod.snd, ?_, ?_⟩
  · rw [values, hrows, List.map_append, List.map_cons]
  · rw [values, hinsert, List.map_append, List.map_cons]

theorem keys_insert_of_new {t : Table α} {key : Int} (row : α) (h : t.find? key = none) :
    (t.insert key row).keys.Perm (key :: t.keys) :=
  (insertRow_of_new row h).map Prod.fst

theorem keys_insert_of_find? {t : Table α} {key : Int} {old : α} (row : α)
    (h : t.find? key = some old) : (t.insert key row).keys = t.keys := by
  obtain ⟨xs, ys, hrows, hinsert⟩ := insertRow_of_findRow row t.ascending h
  have hinsert : (t.insert key row).rows = xs ++ (key, row) :: ys := hinsert
  rw [keys, keys, hinsert, hrows, List.map_append, List.map_append, List.map_cons, List.map_cons]

theorem find?_isSome_of_mem_keys {t : Table α} {key : Int} (h : key ∈ t.keys) :
    (t.find? key).isSome := by
  obtain ⟨⟨k, row⟩, hmem, rfl⟩ := List.mem_map.mp h
  rw [mem_rows_iff.mp hmem]
  rfl

theorem mem_keys_iff {t : Table α} {key : Int} : key ∈ t.keys ↔ (t.find? key).isSome := by
  refine ⟨find?_isSome_of_mem_keys, fun h => ?_⟩
  obtain ⟨row, hrow⟩ := Option.isSome_iff_exists.mp h
  exact List.mem_map.mpr ⟨(key, row), mem_rows_iff.mpr hrow, rfl⟩

/-- Every key is listed once. -/
theorem keys_ascending (t : Table α) : t.keys.Pairwise (· < ·) := by
  rw [keys, List.pairwise_map]
  exact t.ascending

end FundsLedger.Table
