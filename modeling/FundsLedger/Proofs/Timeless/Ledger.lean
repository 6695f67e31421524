import FundsLedger.Proofs.Service.Turns
import FundsLedger.Proofs.Timeless

/-!
Two ledgers side by side. The ledgers hold the same but for times, and in both the same requests for
rows stand in line before those of a unit of work. The two units of work have staged the same but
for times; then they are answered the same but for times, they wait for the same rows, and they end
in the same way. How many units of work there have been before makes no difference.
-/

namespace FundsLedger.Ledger

variable {l l' l₁ l₁' : Ledger} {u u' : UnitId} {w w' : UnitOfWork} {c : Call}
variable {others : List LockRequest} {d : Drawn}

/-! ## One unit of work behind others -/

/-- These are all requests for rows, and they come from units of work that have begun. -/
structure Rests (l : Ledger) (others : List LockRequest) : Prop where
  requests : l.requests = others
  numbered : ∀ q ∈ others, q.unit ≤ (l.begins : Int)

/-- The unit of work is open and stands as it is said; its requests for rows are in line behind
those of others. -/
structure Stands (l : Ledger) (others : List LockRequest) (u : UnitId) (w : UnitOfWork) :
    Prop where
  isOpen : l.units.find? u = some w
  line : ∃ own, l.requests = others ++ own ∧ ∀ q ∈ own, q.unit = u
  foreign : ∀ q ∈ others, q.unit ≠ u
  numbered : ∀ q ∈ others, q.unit ≤ (l.begins : Int)
  asks : ∀ c, w.pending = some c → ∃ row, c.row? = some row ∧ ⟨u, row⟩ ∈ l.requests

/-- One of the requests of others is for the row that the call needs. -/
def Blocks (others : List LockRequest) (c : Call) : Prop := ∃ q ∈ others, c.row? = some q.row

/-- The call has been made before, or it is not refused. -/
def Accepts (l : Ledger) (w : UnitOfWork) (c : Call) : Prop :=
  w.pending = some c ∨ (w.pending = none ∧ l.refusal? w c = none)

/-- Identifiers have been spent up to here; apart from that the ledger has the same in stock. -/
structure Spends (l l' : Ledger) (d : Drawn) : Prop where
  books : l'.books = l.books
  drawn : l'.drawn = d
  failPoint : l'.failPoint = l.failPoint
  conflicts : l'.conflicts = l.conflicts

namespace Rests

theorem of_lawful (hl : l.Lawful) : l.Rests l.requests :=
  ⟨rfl, fun q hq => hl.orderly.numbered q.unit (hl.orderly.opened q.unit q.row hq)⟩

theorem begin (h : l.Rests others) :
    l.begin.1.Stands others (l.begins + 1) UnitOfWork.fresh where
  isOpen := by simp [Ledger.begin]
  line := ⟨[], by simp [Ledger.begin, h.requests], fun q hq => nomatch hq⟩
  foreign q hq := Int.ne_of_lt (Int.lt_add_one_of_le (h.numbered q hq))
  numbered q hq := Int.le_trans (h.numbered q hq) (Int.ofNat_le.mpr (Nat.le_succ l.begins))
  asks c hc := nomatch hc

end Rests

namespace Stands

/-- A unit of work that changes and keeps its requests stands where it stood. -/
theorem restage (h : l.Stands others u w) (hunits : l'.units = l.units.insert u w')
    (hrequests : l'.requests = l.requests) (hbegins : l'.begins = l.begins)
    (hasks : ∀ c, w'.pending = some c → ∃ row, c.row? = some row ∧ ⟨u, row⟩ ∈ l.requests) :
    l'.Stands others u w' where
  isOpen := by simp [hunits]
  line := hrequests ▸ h.line
  foreign := h.foreign
  numbered := hbegins ▸ h.numbered
  asks := hrequests ▸ hasks

/-- Whoever has asked for a row holds it, unless others have asked for it before. -/
theorem holds_iff {row : AccountId} (h : l.Stands others u w)
    (hasked : (⟨u, row⟩ : LockRequest) ∈ l.requests) :
    l.Holds u row ↔ ∀ q ∈ others, q.row ≠ row := by
  obtain ⟨own, hline, hown⟩ := h.line
  constructor
  · intro hholds q hq heq
    -- The first of the others' requests for the row comes before all own ones.
    rw [Ledger.holds_iff, hline, List.find?_append] at hholds
    cases hfind : others.find? (·.row = row) with
    | none =>
      have := List.find?_eq_none.mp hfind q hq
      simp [heq] at this
    | some q' =>
      rw [hfind, Option.some_or, Option.some.injEq] at hholds
      exact h.foreign q' (List.mem_of_find?_eq_some hfind) (by rw [hholds])
  · intro hfree
    refine .of_sole hasked fun u' hu' => ?_
    rw [hline, List.mem_append] at hu'
    rcases hu' with hother | hself
    · exact absurd rfl (hfree _ hother)
    · exact hown _ hself

theorem request (h : l.Stands others u w) (row : AccountId) :
    (l.request u row).Stands others u w := by
  have hbegins : (l.request u row).begins = l.begins := request_begins
  obtain ⟨own, hline, hown⟩ := h.line
  refine ⟨by rw [request_units, h.isOpen], ?_, h.foreign, by rw [hbegins]; exact h.numbered,
    fun c hc => ?_⟩
  · unfold Ledger.request
    split
    · exact ⟨own, hline, hown⟩
    · refine ⟨own ++ [⟨u, row⟩], by rw [hline, List.append_assoc], fun q hq => ?_⟩
      rcases List.mem_append.mp hq with hq | hq
      · exact hown q hq
      · rw [List.mem_singleton.mp hq]
  · obtain ⟨row', hrow, hasked⟩ := h.asks c hc
    exact ⟨row', hrow, mem_request.mpr (Or.inl hasked)⟩

/-- Who is done has no requests left. -/
theorem close (h : l.Stands others u w) (hrequests : l'.requests = (l.close u).requests)
    (hbegins : l'.begins = l.begins) : l'.Rests others := by
  obtain ⟨own, hline, hown⟩ := h.line
  refine ⟨?_, by rw [hbegins]; exact h.numbered⟩
  have hothers : others.filter (·.unit ≠ u) = others :=
    List.filter_eq_self.mpr fun q hq => by simpa using h.foreign q hq
  have hself : own.filter (·.unit ≠ u) = [] :=
    List.filter_eq_nil_iff.mpr fun q hq => by simp [hown q hq]
  rw [hrequests, Ledger.close, hline, List.filter_append, hothers, hself, List.append_nil]

/-! ## What becomes of its requests -/

theorem respond_refused {e : StoreError} (h : l.Stands others u w) (hidle : w.pending = none)
    (hrefusal : l.refusal? w c = some e) :
    l.respond (some u) (.call c) = ⟨l, some u, some (.error e)⟩ := by
  simp [respond, resume?, call?, h.isOpen, hidle, hrefusal]

/-- A call that is accepted waits if it is blocked, and is carried out otherwise. -/
theorem exists_respond (h : l.Stands others u w) (ha : l.Accepts w c) :
    ∃ l₁, (Blocks others c ∧ l.respond (some u) (.call c) = ⟨l₁, some u, none⟩ ∧
        l₁.Stands others u { w with pending := some c } ∧ l.Spends l₁ l.drawn) ∨
      (¬ Blocks others c ∧
        l.respond (some u) (.call c) = ⟨l₁, some u, some (l.perform w c).result⟩ ∧
        l₁.Stands others u { (l.perform w c).unit with pending := none } ∧
        l.Spends l₁ (l.perform w c).drawn) := by
  -- The holder of the row that the call needs, once that has been asked for.
  have hblocks : ∀ row, c.row? = some row →
      ((l.request u row).Holds u row ↔ ¬ Blocks others c) := by
    intro row hrow
    rw [(h.request row).holds_iff (mem_request.mpr (Or.inr rfl))]
    simp [Blocks, hrow, eq_comm]
  have hready : w.pending = none ∨ (w.pending = some c ∧ c.row?.isSome) := by
    rcases ha with hpending | ⟨hidle, -⟩
    · obtain ⟨row, hrow, -⟩ := h.asks c hpending
      exact Or.inr ⟨hpending, by rw [hrow]; rfl⟩
    · exact Or.inl hidle
  obtain ⟨l₁, o, hsome, hcalled⟩ := exists_called h.isOpen hready
  have hanswered : ∀ r, o = .answered r →
      l.respond (some u) (.call c) = ⟨l₁, some u, some r⟩ := by
    rintro r rfl
    simp only [respond, Option.bind_some, hsome]
  have hwaits : o = .waits → l.respond (some u) (.call c) = ⟨l₁, some u, none⟩ := by
    rintro rfl
    simp only [respond, Option.bind_some, hsome]
  refine ⟨l₁, ?_⟩
  cases hcalled with
  | refused isOpen idle refusal =>
    rw [h.isOpen, Option.some.injEq] at isOpen
    subst isOpen
    rcases ha with hpending | ⟨-, haccepted⟩
    · rw [idle] at hpending
      cases hpending
    · rw [refusal] at haccepted
      cases haccepted
  | @performed w asked isOpen ready granted =>
    rw [h.isOpen, Option.some.injEq] at isOpen
    subst isOpen
    have hasked : asked.Stands others u w ∧ ¬ Blocks others c := by
      cases granted with
      | free row => exact ⟨h, by simp [Blocks, row]⟩
      | held row holds known => exact ⟨h.request _, (hblocks _ row).mp holds⟩
    refine Or.inr ⟨hasked.2, ?_, ?_, ?_⟩
    · rw [hanswered _ rfl, ← granted.perform]
    · rw [← granted.perform]
      exact hasked.1.restage rfl rfl rfl fun d hd => by cases hd
    · exact ⟨granted.books, granted.drawn_finish, granted.failPoint, granted.conflicts⟩
  | @queued w id isOpen idle row known taken =>
    rw [h.isOpen, Option.some.injEq] at isOpen
    subst isOpen
    have hblocked := Classical.byContradiction fun hfree => taken ((hblocks id row).mpr hfree)
    refine Or.inl ⟨hblocked, hwaits rfl, ?_, ?_⟩
    · refine (h.request id).restage (by rw [request_units]) rfl rfl fun d hd => ?_
      cases hd
      exact ⟨id, row, mem_request.mpr (Or.inr rfl)⟩
    · exact ⟨request_books, request_drawn, request_failPoint, request_conflicts⟩
  | @waiting w id isOpen pending row taken =>
    rw [h.isOpen, Option.some.injEq] at isOpen
    subst isOpen
    obtain ⟨row', hrow', hasked⟩ := h.asks c pending
    rw [row, Option.some.injEq] at hrow'
    subst hrow'
    rw [← request_of_mem hasked] at taken
    have hsame : { w with pending := some c } = w := by rw [← pending]
    have hblocked := Classical.byContradiction fun hfree => taken ((hblocks id row).mpr hfree)
    exact Or.inl ⟨hblocked, hwaits rfl, hsame ▸ h, ⟨rfl, rfl, rfl, rfl⟩⟩

/-! ## How it ends -/

theorem respond_commit (h : l.Stands others u w) (hidle : w.pending = none) :
    l.respond (some u) .commit =
      ⟨(l.commitUnit u w).1, none, some (l.commitUnit u w).2⟩ := by
  simp [respond, endingResponse, commit?, h.isOpen, hidle]

theorem respond_rollback (h : l.Stands others u w) (hidle : w.pending = none) :
    l.respond (some u) .rollback = ⟨l.close u, none, some (.ok ())⟩ := by
  simp [respond, endingResponse, rollback?, h.isOpen, hidle]

theorem commitUnit (h : l.Stands others u w) : (l.commitUnit u w).1.Rests others := by
  unfold Ledger.commitUnit
  split
  · exact h.close rfl rfl
  · split
    · exact h.close rfl rfl
    · split <;> exact h.close rfl rfl

theorem abandonAny (h : l.Stands others u w) : (l.abandonAny (some u)).1 = l.close u := by
  simp [Ledger.abandonAny, abandon, h.isOpen]

end Stands

/-! ## Two ledgers -/

/-- The ledgers hold the same but for times, and they fail at the same places. -/
structure Alike (l l' : Ledger) : Prop where
  books : l.books.timeless = l'.books.timeless
  drawn : l.drawn = l'.drawn
  failPoint : l.failPoint = l'.failPoint
  conflicts : l.conflicts = l'.conflicts

namespace Alike

theorem refl (l : Ledger) : l.Alike l := ⟨rfl, rfl, rfl, rfl⟩

theorem symm (h : l.Alike l') : l'.Alike l :=
  ⟨h.books.symm, h.drawn.symm, h.failPoint.symm, h.conflicts.symm⟩

theorem trans {l'' : Ledger} (h : l.Alike l') (h' : l'.Alike l'') : l.Alike l'' :=
  ⟨h.books.trans h'.books, h.drawn.trans h'.drawn, h.failPoint.trans h'.failPoint,
    h.conflicts.trans h'.conflicts⟩

/-- Two ledgers that spend the same identifiers stay alike. -/
theorem spends {d' : Drawn} (h : l.Alike l') (hs : l.Spends l₁ d) (hs' : l'.Spends l₁' d')
    (hd : d = d') : l₁.Alike l₁' where
  books := by rw [hs.books, hs'.books, h.books]
  drawn := by rw [hs.drawn, hs'.drawn, hd]
  failPoint := by rw [hs.failPoint, hs'.failPoint, h.failPoint]
  conflicts := by rw [hs.conflicts, hs'.conflicts, h.conflicts]

theorem injected? (h : l.Alike l') (point : FailPoint) :
    l.injected? point = l'.injected? point := by
  rw [Ledger.injected?, Ledger.injected?, h.failPoint]

theorem refusal? (h : l.Alike l') (hw : w.timeless = w'.timeless) (c : Call) :
    l.refusal? w c = l'.refusal? w' c := by
  rw [← l.refusal?_timeless, ← l'.refusal?_timeless, hw]
  have hbooks : l.timeless.books = l'.timeless.books := h.books
  have hinjected : l.timeless.injected? .addBalance = l'.timeless.injected? .addBalance :=
    h.injected? .addBalance
  cases c <;> simp only [Ledger.refusal?, hbooks, hinjected]

theorem perform (h : l.Alike l') (hw : w.timeless = w'.timeless) (c : Call) :
    (l.perform w c).timeless = (l'.perform w' c).timeless := by
  rw [← perform_timeless, ← perform_timeless, hw]
  exact perform_congr h.books h.drawn rfl h.failPoint

/-- Commits of what is the same but for times have the same result. -/
theorem commitUnit (h : l.Alike l') (hw : w.timeless = w'.timeless) :
    (l.commitUnit u w).2 = (l'.commitUnit u' w').2 ∧
      (l.commitUnit u w).1.Alike (l'.commitUnit u' w').1 := by
  have hduplicate : (w.firstDuplicate? l.books).map Account.timeless =
      (w'.firstDuplicate? l'.books).map Account.timeless := by
    rw [← UnitOfWork.firstDuplicate?_timeless, ← UnitOfWork.firstDuplicate?_timeless, hw, h.books]
  have hpublish : (w.publish l.books).timeless = (w'.publish l'.books).timeless := by
    rw [← UnitOfWork.publish_timeless, ← UnitOfWork.publish_timeless, hw, h.books]
  rw [Ledger.commitUnit, Ledger.commitUnit, h.injected?]
  cases l'.injected? .commit with
  | some e => exact ⟨rfl, h.books, h.drawn, h.failPoint, h.conflicts⟩
  | none =>
    dsimp only
    rw [h.conflicts]
    split
    · exact ⟨rfl, h.books, h.drawn, h.failPoint, rfl⟩
    · cases hfirst : w.firstDuplicate? l.books with
      | none =>
        cases hfirst' : w'.firstDuplicate? l'.books with
        | none => exact ⟨rfl, hpublish, h.drawn, h.failPoint, h.conflicts⟩
        | some a' =>
          rw [hfirst, hfirst'] at hduplicate
          cases hduplicate
      | some a =>
        cases hfirst' : w'.firstDuplicate? l'.books with
        | none =>
          rw [hfirst, hfirst'] at hduplicate
          cases hduplicate
        | some a' =>
          rw [hfirst, hfirst'] at hduplicate
          obtain ⟨t, rfl⟩ := Account.timeless_eq_iff.mp (Option.some.inj hduplicate)
          exact ⟨rfl, h.books, h.drawn, h.failPoint, h.conflicts⟩

end Alike

/-! ## Two units of work -/

/-- The ledgers are alike, and in both of them these are all requests for rows. -/
structure AtRest (others : List LockRequest) (l l' : Ledger) : Prop where
  alike : l.Alike l'
  rests : l.Rests others
  rests' : l'.Rests others

/-- The ledgers are alike, and in each of them one client has a unit of work open, or none has. The
two units of work have staged the same but for times, and wait in the call `q`, or in none. -/
inductive Beside (others : List LockRequest) (l l' : Ledger) :
    Option UnitId → Option UnitId → Bool → Option Call → Prop
  | idle (rest : AtRest others l l') : Beside others l l' none none false none
  | busy {u u' : UnitId} {w w' : UnitOfWork} {q : Option Call} (alike : l.Alike l')
      (stands : l.Stands others u w) (stands' : l'.Stands others u' w')
      (same : w.timeless = w'.timeless) (pending : w.pending = q) :
      Beside others l l' (some u) (some u') true q

/-- Both ledgers let the call wait, or both answer it, and they answer the same but for times. -/
inductive RespondAlike (others : List LockRequest) (c : Call) :
    Response (.call c) → Response (.call c) → Prop
  | waits {l l' : Ledger} {u u' : UnitId} (blocked : Blocks others c)
      (beside : Beside others l l' (some u) (some u') true (some c)) :
      RespondAlike others c ⟨l, some u, none⟩ ⟨l', some u', none⟩
  | answered {l l' : Ledger} {u u' : UnitId} {r r' : c.Result}
      (same : r.map c.timeless = r'.map c.timeless)
      (beside : Beside others l l' (some u) (some u') true none) :
      RespondAlike others c ⟨l, some u, some r⟩ ⟨l', some u', some r'⟩

theorem AtRest.begin (h : AtRest others l l') :
    Beside others l.begin.1 l'.begin.1 (some (l.begins + 1)) (some (l'.begins + 1)) true none :=
  .busy ⟨h.alike.books, h.alike.drawn, h.alike.failPoint, h.alike.conflicts⟩ h.rests.begin
    h.rests'.begin rfl rfl

/-- Units of work that are the same but for times wait in the same call. -/
theorem pending_eq (h : w.timeless = w'.timeless) : w.pending = w'.pending := by
  have hpending := congrArg UnitOfWork.pending h
  exact hpending

namespace Beside

theorem symm {unit unit' : Option UnitId} {isOpen : Bool} {q : Option Call}
    (h : Beside others l l' unit unit' isOpen q) : Beside others l' l unit' unit isOpen q := by
  cases h with
  | idle rest => exact .idle ⟨rest.alike.symm, rest.rests', rest.rests⟩
  | busy alike stands stands' same pending =>
    exact .busy alike.symm stands' stands same.symm ((pending_eq same).symm.trans pending)

theorem exists_units {unit unit' : Option UnitId} {q : Option Call}
    (h : Beside others l l' unit unit' true q) : ∃ u u', unit = some u ∧ unit' = some u' := by
  cases h with
  | busy => exact ⟨_, _, rfl, rfl⟩

theorem respond_call {q : Option Call} (h : Beside others l l' (some u) (some u') true q)
    (hq : q = none ∨ q = some c) :
    RespondAlike others c (l.respond (some u) (.call c)) (l'.respond (some u') (.call c)) := by
  cases h with
  | @busy _ _ w w' _ alike stands stands' same pending =>
    have hpending := pending_eq same
    have hrefusal := alike.refusal? same c
    by_cases haccepted : l.Accepts w c
    · have haccepted' : l'.Accepts w' c := by rwa [Accepts, ← hpending, ← hrefusal]
      obtain ⟨l₁, ⟨hblocked, hrespond, hstands, hspends⟩ | ⟨hfree, hrespond, hstands, hspends⟩⟩ :=
        stands.exists_respond haccepted
      · obtain ⟨l₁', ⟨-, hrespond', hstands', hspends'⟩ | ⟨hfree', -⟩⟩ :=
          stands'.exists_respond haccepted'
        · rw [hrespond, hrespond']
          refine .waits hblocked (.busy (alike.spends hspends hspends' alike.drawn) hstands
            hstands' ?_ rfl)
          exact congrArg (fun x : UnitOfWork => { x with pending := some c }) same
        · exact absurd hblocked hfree'
      · obtain ⟨l₁', ⟨hblocked', -⟩ | ⟨-, hrespond', hstands', hspends'⟩⟩ :=
          stands'.exists_respond haccepted'
        · exact absurd hblocked' hfree
        · have hperform := alike.perform same c
          have hdrawn := congrArg Performed.drawn hperform
          have hunit := congrArg Performed.unit hperform
          rw [hrespond, hrespond']
          refine .answered (congrArg Performed.result hperform)
            (.busy (alike.spends hspends hspends' hdrawn) hstands hstands' ?_ rfl)
          exact congrArg (fun x : UnitOfWork => { x with pending := none }) hunit
    · -- What is not accepted is refused, and changes nothing.
      have hidle : w.pending = none := by
        rw [pending]
        refine hq.resolve_right fun hq => haccepted (Or.inl ?_)
        rw [pending, hq]
      obtain ⟨e, he⟩ := Option.ne_none_iff_exists'.mp fun hnone => haccepted (Or.inr ⟨hidle, hnone⟩)
      have he' := hrefusal ▸ he
      rw [stands.respond_refused hidle he, stands'.respond_refused (hpending ▸ hidle) he']
      exact .answered rfl (.busy alike stands stands' same hidle)

theorem respond_commit (h : Beside others l l' (some u) (some u') true none) :
    ∃ l₁ l₁' r, l.respond (some u) .commit = ⟨l₁, none, some r⟩ ∧
      l'.respond (some u') .commit = ⟨l₁', none, some r⟩ ∧ AtRest others l₁ l₁' := by
  cases h with
  | @busy _ _ w w' _ alike stands stands' same pending =>
    have hpending' : w'.pending = none := (pending_eq same).symm.trans pending
    obtain ⟨hresult, halike⟩ := alike.commitUnit same
    refine ⟨_, _, _, stands.respond_commit pending, ?_,
      ⟨halike, stands.commitUnit, stands'.commitUnit⟩⟩
    rw [stands'.respond_commit hpending', hresult]

theorem close {q : Option Call} (h : Beside others l l' (some u) (some u') true q) :
    AtRest others (l.close u) (l'.close u') := by
  cases h with
  | busy alike stands stands' same pending =>
    exact ⟨⟨alike.books, alike.drawn, alike.failPoint, alike.conflicts⟩, stands.close rfl rfl,
      stands'.close rfl rfl⟩

theorem respond_rollback (h : Beside others l l' (some u) (some u') true none) :
    l.respond (some u) .rollback = ⟨l.close u, none, some (.ok ())⟩ ∧
      l'.respond (some u') .rollback = ⟨l'.close u', none, some (.ok ())⟩ := by
  cases h with
  | @busy _ _ w w' _ alike stands stands' same pending =>
    have hpending' : w'.pending = none := (pending_eq same).symm.trans pending
    exact ⟨stands.respond_rollback pending, stands'.respond_rollback hpending'⟩

theorem abandonAny {unit unit' : Option UnitId} {isOpen : Bool} {q : Option Call}
    (h : Beside others l l' unit unit' isOpen q) :
    AtRest others (l.abandonAny unit).1 (l'.abandonAny unit').1 := by
  cases h with
  | idle rest => exact rest
  | busy alike stands stands' same pending =>
    rw [stands.abandonAny, stands'.abandonAny]
    exact (busy alike stands stands' same pending).close

end Beside
end FundsLedger.Ledger
