import FundsLedger.Proofs.Ledger.Staging

/-!
Rows that are staged as new and published under their identifiers: entries and transfers alike. The
identifiers of one kind are counted by one counter; committed and staged rows never share one, and
every unit of work stages its rows in ascending order.
-/

namespace FundsLedger

variable {α : Type} {id : α → Int} {drawn : Nat} {committed : Table α} {staged : UnitId → List α}

/-- Putting ascending rows into a table one after the other. -/
theorem Table.find?_foldl_insertById (id : α → Int) (t : Table α) {rows : List α}
    (hasc : rows.Pairwise (id · < id ·)) (key : Int) :
    (rows.foldl (fun t r => t.insert (id r) r) t).find? key =
      (rows.find? (id · = key)).or (t.find? key) := by
  induction rows generalizing t with
  | nil => rfl
  | cons r rest ih =>
    obtain ⟨hr, hrest⟩ := List.pairwise_cons.mp hasc
    rw [List.foldl_cons, ih _ hrest, Table.find?_insert, List.find?_cons]
    by_cases heq : id r = key
    · have hmiss : rest.find? (id · = key) = none := by
        rw [List.find?_eq_none]
        intro q hq
        have := hr q hq
        simp only [decide_eq_true_eq]
        omega
      simp [hmiss, heq]
    · have hne : key ≠ id r := fun h => heq h.symm
      simp [heq, hne]

/-- A row that is found after others have been put in is one of these, or it was there before. -/
theorem Table.mem_of_find?_foldl_insertById (id : α → Int) {rows : List α} {t : Table α}
    {key : Int} {r : α}
    (h : (rows.foldl (fun t r => t.insert (id r) r) t).find? key = some r) :
    r ∈ rows ∨ t.find? key = some r := by
  induction rows generalizing t with
  | nil => exact Or.inr h
  | cons q rest ih =>
    rcases ih h with hrest | hfound
    · exact Or.inl (List.mem_cons_of_mem _ hrest)
    · rw [Table.find?_insert] at hfound
      split at hfound
      · cases hfound
        exact Or.inl List.mem_cons_self
      · exact Or.inr hfound

/-- The rows that are put in come under their identifiers, and no other key is new. -/
theorem Table.mem_keys_foldl_insertById {rows : List α} {t : Table α} {key : Int}
    (h : key ∈ (rows.foldl (fun t r => t.insert (id r) r) t).keys) :
    key ∈ t.keys ∨ key ∈ rows.map id := by
  induction rows generalizing t with
  | nil => exact Or.inl h
  | cons r rest ih =>
    rcases ih h with hinsert | hrest
    · rw [Table.mem_keys_iff, Table.find?_insert] at hinsert
      split at hinsert
      · rename_i heq
        exact Or.inr (by rw [heq]; exact List.mem_cons_self)
      · exact Or.inl (Table.mem_keys_iff.mpr hinsert)
    · exact Or.inr (List.mem_cons_of_mem _ hrest)

/-- Among ascending rows a row is found by its identifier. -/
theorem find?_of_ascending {r : α} {rows : List α} (hasc : rows.Pairwise (id · < id ·))
    (h : r ∈ rows) : rows.find? (id · = id r) = some r := by
  induction rows with
  | nil => cases h
  | cons q rest ih =>
    obtain ⟨hq, hrest⟩ := List.pairwise_cons.mp hasc
    rcases List.mem_cons.mp h with rfl | hr
    · simp
    · have hne : id q ≠ id r := Int.ne_of_lt (hq r hr)
      rw [List.find?_cons_of_neg (by simpa using hne)]
      exact ih hrest hr

/-! ## Listings -/

theorem insertOrdered_perm (id : α → Int) (r : α) (rows : List α) :
    (insertOrdered id r rows).Perm (r :: rows) := by
  induction rows with
  | nil => exact .refl _
  | cons q rest ih =>
    rw [insertOrdered]
    split
    · exact .refl _
    · exact (ih.cons q).trans (.swap r q rest)

/-- A listing has the rows that it lists. -/
theorem orderById_perm (id : α → Int) (rows : List α) : (orderById id rows).Perm rows := by
  induction rows with
  | nil => exact .refl _
  | cons r rest ih => exact (insertOrdered_perm id r (orderById id rest)).trans (ih.cons r)

theorem insertOrdered_ascending {r : α} {rows : List α} (h : rows.Pairwise (id · < id ·))
    (hr : ∀ q ∈ rows, id r ≠ id q) : (insertOrdered id r rows).Pairwise (id · < id ·) := by
  induction rows with
  | nil => exact List.pairwise_singleton _ _
  | cons q rest ih =>
    obtain ⟨hq, hrest⟩ := List.pairwise_cons.mp h
    have hne : id r ≠ id q := hr q List.mem_cons_self
    rw [insertOrdered]
    split
    · rename_i hle
      refine List.pairwise_cons.mpr ⟨fun s hs => ?_, h⟩
      rcases List.mem_cons.mp hs with rfl | hs
      · omega
      · have := hq s hs
        omega
    · rename_i hle
      refine List.pairwise_cons.mpr ⟨fun s hs => ?_, ih hrest fun s hs =>
        hr s (List.mem_cons_of_mem q hs)⟩
      rcases List.mem_cons.mp ((insertOrdered_perm id r rest).mem_iff.mp hs) with rfl | hs
      · omega
      · exact hq s hs

/-- Rows with different identifiers are listed in ascending order. -/
theorem orderById_ascending {rows : List α} (h : rows.Pairwise (id · ≠ id ·)) :
    (orderById id rows).Pairwise (id · < id ·) := by
  induction rows with
  | nil => exact List.Pairwise.nil
  | cons r rest ih =>
    obtain ⟨hr, hrest⟩ := List.pairwise_cons.mp h
    exact insertOrdered_ascending (ih hrest) fun q hq =>
      hr q ((orderById_perm id rest).mem_iff.mp hq)

/-- Rows that stand in ascending order are in order already. -/
theorem orderById_of_ascending {rows : List α} (h : rows.Pairwise (id · < id ·)) :
    orderById id rows = rows :=
  Table.ascending_ext (orderById_ascending (h.imp fun hlt => Int.ne_of_lt hlt)) h fun _ =>
    (orderById_perm id rows).mem_iff

/-- Who has staged nothing sees the listings that are committed. -/
theorem UnitOfWork.fresh_entriesOf {b : Books} {a : AccountId}
    (h : (b.entriesOf a).Pairwise (·.id < ·.id)) : fresh.entriesOf b a = b.entriesOf a := by
  rw [entriesOf, show fresh.entries.filter _ = [] from rfl, List.append_nil]
  exact orderById_of_ascending h

theorem UnitOfWork.fresh_transfersBetween {b : Books} {fromId toId : AccountId}
    (h : (b.transfersBetween fromId toId).Pairwise (·.id < ·.id)) :
    fresh.transfersBetween b fromId toId = b.transfersBetween fromId toId := by
  rw [transfersBetween, show fresh.transfers.filter _ = [] from rfl, List.append_nil]
  exact orderById_of_ascending h

/-! ## Rows of units of work -/

/-- The identifiers of one kind of rows: `staged` lists what each unit of work has added. -/
structure Numbered (id : α → Int) (drawn : Nat) (committed : Table α)
    (staged : UnitId → List α) : Prop where
  keyed : ∀ key r, committed.find? key = some r → id r = key ∧ 1 ≤ key ∧ key ≤ drawn
  range : ∀ u r, r ∈ staged u → 1 ≤ id r ∧ id r ≤ drawn
  ascending : ∀ u, (staged u).Pairwise (id · < id ·)
  unpublished : ∀ u r, r ∈ staged u → committed.find? (id r) = none
  apart : ∀ u u' r r', r ∈ staged u → r' ∈ staged u' → id r = id r' → u = u'

namespace Numbered

theorem empty (id : α → Int) : Numbered id 0 Table.empty fun _ => [] where
  keyed key r h := by simp at h
  range u r h := by simp at h
  ascending u := List.Pairwise.nil
  unpublished u r h := by simp at h
  apart u u' r r' h := by simp at h

/-- Dropping what units of work have staged does no harm. -/
theorem shrink {staged' : UnitId → List α} (h : Numbered id drawn committed staged)
    (hsub : ∀ u, staged' u = staged u ∨ staged' u = []) : Numbered id drawn committed staged' := by
  have hmem : ∀ u r, r ∈ staged' u → r ∈ staged u := by
    intro u r hr
    rcases hsub u with heq | heq
    · rwa [heq] at hr
    · rw [heq] at hr
      cases hr
  refine ⟨h.keyed, fun u r hr => h.range u r (hmem u r hr), fun u => ?_,
    fun u r hr => h.unpublished u r (hmem u r hr),
    fun u u' r r' hr hr' => h.apart u u' r r' (hmem u r hr) (hmem u' r' hr')⟩
  rcases hsub u with heq | heq
  · rw [heq]
    exact h.ascending u
  · rw [heq]
    exact List.Pairwise.nil

/-- The next identifier is larger than all that are in use. -/
theorem append {staged' : UnitId → List α} {u : UnitId} {r : α}
    (h : Numbered id drawn committed staged) (hr : id r = drawn + 1)
    (hself : staged' u = staged u ++ [r]) (hother : ∀ u', u' ≠ u → staged' u' = staged u') :
    Numbered id (drawn + 1) committed staged' := by
  have hmem : ∀ u' q, q ∈ staged' u' → q ∈ staged u' ∨ (u' = u ∧ q = r) := by
    intro u' q hq
    by_cases heq : u' = u
    · subst heq
      rw [hself] at hq
      simpa using hq
    · rw [hother u' heq] at hq
      exact Or.inl hq
  have hrange : ∀ u' q, q ∈ staged u' → id q ≤ drawn := fun u' q hq => (h.range u' q hq).2
  constructor
  case keyed =>
    intro key q hq
    obtain ⟨hid, hlow, hhigh⟩ := h.keyed key q hq
    exact ⟨hid, hlow, by push_cast; omega⟩
  case range =>
    intro u' q hq
    rcases hmem u' q hq with hq | ⟨-, rfl⟩
    · obtain ⟨hlow, hhigh⟩ := h.range u' q hq
      exact ⟨hlow, by push_cast; omega⟩
    · rw [hr]
      exact ⟨by omega, by push_cast; omega⟩
  case ascending =>
    intro u'
    by_cases heq : u' = u
    · subst heq
      rw [hself, List.pairwise_append]
      refine ⟨h.ascending u', List.pairwise_singleton _ _, fun q hq q' hq' => ?_⟩
      rw [List.mem_singleton] at hq'
      subst hq'
      have := hrange u' q hq
      omega
    · rw [hother u' heq]
      exact h.ascending u'
  case unpublished =>
    intro u' q hq
    rcases hmem u' q hq with hq | ⟨-, rfl⟩
    · exact h.unpublished u' q hq
    · cases hf : committed.find? (id q) with
      | none => rfl
      | some s =>
        have := (h.keyed _ _ hf).2.2
        omega
  case apart =>
    intro u₁ u₂ q q' hq hq' heq
    -- The new row has an identifier of its own, so only the two equal cases remain.
    rcases hmem u₁ q hq with hq | ⟨rfl, rfl⟩ <;> rcases hmem u₂ q' hq' with hq' | ⟨rfl, rfl⟩
    · exact h.apart u₁ u₂ q q' hq hq' heq
    · have := hrange u₁ q hq
      omega
    · have := hrange u₂ q' hq'
      omega
    · rfl

/-- A unit of work stages nothing new or one row under the next identifier. -/
theorem grow {staged' : UnitId → List α} {drawn' : Nat} {u : UnitId}
    (h : Numbered id drawn committed staged)
    (hself : (staged' u = staged u ∧ drawn' = drawn) ∨
      ∃ r, staged' u = staged u ++ [r] ∧ id r = idAfter drawn ∧ drawn' = drawn + 1)
    (hother : ∀ u', u' ≠ u → staged' u' = staged u') (hrange : drawn' ≤ 9223372036854775807) :
    Numbered id drawn' committed staged' := by
  rcases hself with ⟨hself, rfl⟩ | ⟨r, hself, hid, rfl⟩
  · refine h.shrink fun u' => Or.inl ?_
    by_cases hne : u' = u
    · rw [hne, hself]
    · exact hother u' hne
  · exact h.append (by rw [hid, idAfter_eq hrange]) hself hother

/-- What a unit of work has staged is published beside what is committed and not over it. -/
theorem kept {u : UnitId} {key : Int} {r : α} (h : Numbered id drawn committed staged)
    (hr : committed.find? key = some r) :
    ((staged u).foldl (fun t r => t.insert (id r) r) committed).find? key = some r := by
  have hnone : (staged u).find? (id · = key) = none := by
    rw [List.find?_eq_none]
    intro q hq heq
    have hfree := h.unpublished u q hq
    have heq : id q = key := by simpa using heq
    rw [heq, hr] at hfree
    cases hfree
  rw [Table.find?_foldl_insertById id committed (h.ascending u), hnone, hr]
  rfl

/-- What a unit of work has staged becomes committed, and others have staged other identifiers. -/
theorem publish {u : UnitId} (h : Numbered id drawn committed staged)
    (staged' : UnitId → List α) (hself : staged' u = [])
    (hother : ∀ u', u' ≠ u → staged' u' = staged u') :
    Numbered id drawn ((staged u).foldl (fun t r => t.insert (id r) r) committed) staged' := by
  have hfind := Table.find?_foldl_insertById id committed (h.ascending u)
  have hstaged : Numbered id drawn committed staged' := h.shrink fun u' => by
    by_cases heq : u' = u
    · subst heq
      exact Or.inr hself
    · exact Or.inl (hother u' heq)
  constructor
  case keyed =>
    intro key r hr
    rw [hfind] at hr
    rcases Option.or_eq_some_iff.mp hr with hr | ⟨-, hr⟩
    · have hid : id r = key := by simpa using List.find?_some hr
      have hrange := h.range u r (List.mem_of_find?_eq_some hr)
      rw [hid] at hrange
      exact ⟨hid, hrange⟩
    · exact h.keyed key r hr
  case range =>
    exact hstaged.range
  case ascending =>
    exact hstaged.ascending
  case unpublished =>
    intro u' r hr
    have hne : u' ≠ u := by
      rintro rfl
      rw [hself] at hr
      cases hr
    rw [hother u' hne] at hr
    -- An identifier that was not committed can only come from the rows just published.
    rw [hfind, h.unpublished u' r hr, Option.or_none, List.find?_eq_none]
    intro q hq
    simp only [decide_eq_true_eq]
    intro heq
    exact hne (h.apart u' u r q hr hq heq.symm)
  case apart =>
    exact hstaged.apart

theorem table_keyed (h : Numbered id drawn committed staged) : committed.Keyed id :=
  fun key r hr => (h.keyed key r hr).1

/-- The committed table after a unit of work has published its rows is keyed as well. -/
theorem publish_keyed (h : Numbered id drawn committed staged) (u : UnitId) :
    ((staged u).foldl (fun t r => t.insert (id r) r) committed).Keyed id :=
  (h.publish (fun u' => if u' = u then [] else staged u') (if_pos rfl)
    fun _ hne => if_neg hne).table_keyed

/-- After a unit of work has published its rows, the rows are those committed before and its own. -/
theorem mem_publish {u : UnitId} {r : α} (h : Numbered id drawn committed staged) :
    r ∈ ((staged u).foldl (fun t r => t.insert (id r) r) committed).values ↔
      r ∈ committed.values ∨ r ∈ staged u := by
  have hfind := Table.find?_foldl_insertById id committed (h.ascending u)
  rw [(h.publish_keyed u).mem_values_iff, h.table_keyed.mem_values_iff]
  constructor
  · intro hr
    rw [hfind] at hr
    rcases Option.or_eq_some_iff.mp hr with hstaged | ⟨-, hcommitted⟩
    · exact Or.inr (List.mem_of_find?_eq_some hstaged)
    · exact Or.inl hcommitted
  · rintro (hcommitted | hstaged)
    · exact h.kept hcommitted
    · rw [hfind, find?_of_ascending (h.ascending u) hstaged]
      rfl

/-- Of the rows that pass a test, those that are published follow those that are committed, if their
identifiers do. -/
theorem filter_publish {u : UnitId} (h : Numbered id drawn committed staged) (test : α → Bool)
    (hlater : ∀ r ∈ staged u, ∀ r' ∈ committed.values, test r → test r' → id r' < id r) :
    ((staged u).foldl (fun t r => t.insert (id r) r) committed).values.filter test =
      committed.values.filter test ++ (staged u).filter test := by
  refine Table.ascending_ext ((h.publish_keyed u).values_ascending.filter _) ?_ fun r => ?_
  · refine List.pairwise_append.mpr ⟨h.table_keyed.values_ascending.filter _,
      (h.ascending u).filter _, fun r' hr' r hr => ?_⟩
    rw [List.mem_filter] at hr hr'
    exact hlater r hr.1 r' hr'.1 hr.2 hr'.2
  · rw [← List.filter_append, List.mem_filter, List.mem_filter, h.mem_publish, List.mem_append]

/-- A unit of work lists the rows that pass a test, those committed and its own, as they are listed
after it has published its own. -/
theorem orderById_publish (h : Numbered id drawn committed staged) (u : UnitId)
    (test : α → Bool) :
    orderById id (committed.values.filter test ++ (staged u).filter test) =
      ((staged u).foldl (fun t r => t.insert (id r) r) committed).values.filter test := by
  refine Table.ascending_ext (orderById_ascending ?_)
    ((h.publish_keyed u).values_ascending.filter _) fun r => ?_
  · rw [← List.filter_append]
    refine (List.pairwise_append.mpr ⟨h.table_keyed.values_ascending.imp Int.ne_of_lt,
      (h.ascending u).imp Int.ne_of_lt, fun r hr r' hr' heq => ?_⟩).filter _
    -- A staged row has an identifier under which nothing is committed.
    have hfree := h.unpublished u r' hr'
    rw [← heq, h.table_keyed.mem_values_iff.mp hr] at hfree
    cases hfree
  · rw [(orderById_perm _ _).mem_iff, ← List.filter_append, List.mem_filter, List.mem_filter,
      h.mem_publish, List.mem_append]

end Numbered
end FundsLedger
