import FundsLedger.Postgres.Store
import FundsLedger.Proofs.Transfer.Protocol

/-!
What the failures of a driver mean. A call is a conflict only if the server has refused its
statement with one of two codes: nothing that can go wrong in reading rows is mistaken for one.
-/

namespace FundsLedger.Postgres

variable {α β : Type}

/-! ## Texts -/

/-- A text contains another one. -/
def Mentions (text part : String) : Prop := part.toList <:+: text.toList

theorem occursIn_iff {needle hay : List Char} : occursIn needle hay = true ↔ needle <:+: hay := by
  induction hay with
  | nil => simp [occursIn]
  | cons c rest ih =>
    rw [occursIn, Bool.or_eq_true, List.isPrefixOf_iff_prefix, ih, List.infix_cons_iff]

instance (text part : String) : Decidable (Mentions text part) := decidable_of_iff _ occursIn_iff

theorem Mentions.trans {text middle part : String} (h : Mentions text middle)
    (h' : Mentions middle part) : Mentions text part :=
  List.IsInfix.trans h' h

theorem mentions_append (before part after : String) :
    Mentions (before ++ part ++ after) part := by
  refine ⟨before.toList, after.toList, ?_⟩
  rw [String.toList_append, String.toList_append]

namespace DriverError

/-! ## Codes -/

variable {e : DriverError} {missing : Option String → AccountId}

theorem translate_conflict (h : e.IsConflict) : e.translate missing = .conflict := if_pos h

theorem not_isConflict_foreignKey (text : String) (constraint : Option String) :
    ¬ (database text (some "23503") constraint).IsConflict := by
  simp [IsConflict, sqlState?]

theorem translate_foreignKey (text : String) (constraint : Option String) :
    (database text (some "23503") constraint).translate missing =
      .accountNotFound (missing constraint) := by
  rw [translate, if_neg (not_isConflict_foreignKey text constraint)]
  rfl

theorem translate_other (hconflict : ¬ e.IsConflict) (hkey : e.sqlState? ≠ some "23503") :
    e.translate missing = .internal e.message := by
  have hnone : e.foreignKey? = none := by
    unfold foreignKey?
    split
    · exact absurd rfl hkey
    · rfl
  rw [translate, if_neg hconflict, hnone]

/-- Only two codes mean a conflict. -/
theorem translate_eq_conflict_iff : e.translate missing = .conflict ↔ e.IsConflict := by
  refine ⟨fun h => ?_, translate_conflict⟩
  by_contra hconflict
  rw [translate, if_neg hconflict] at h
  split at h <;> cases h

/-- The text of the failure has the text that the server gave. -/
theorem message_mentions (text : String) (code constraint : Option String) :
    Mentions (database text code constraint).message text := by
  have h := mentions_append "error returned from database: " text ""
  rwa [String.append_empty] at h

end DriverError

/-! ## Reading rows -/

/-- If this fails then the driver has failed, not the server. -/
def Local (r : Except DriverError α) : Prop := ∀ e, r = .error e → e.sqlState? = none

/-- This is not a conflict. -/
def Undisputed (r : Except StoreError α) : Prop := r ≠ .error .conflict

theorem Local.ok (a : α) : Local (.ok a) := fun _ h => nomatch h

theorem Local.error {e : DriverError} (h : e.sqlState? = none) :
    Local (.error e : Except DriverError α) := by
  rintro e' ⟨⟩
  exact h

theorem Local.bind {x : Except DriverError α} {f : α → Except DriverError β} (hx : Local x)
    (hf : ∀ a, Local (f a)) : Local (x >>= f) := by
  cases x with
  | ok a => exact hf a
  | error e => exact .error (hx e rfl)

theorem Undisputed.ok (a : α) : Undisputed (.ok a) := nofun

theorem Undisputed.bind {x : Except StoreError α} {f : α → Except StoreError β}
    (hx : Undisputed x) (hf : ∀ a, Undisputed (f a)) : Undisputed (x >>= f) := by
  cases x with
  | ok a => exact hf a
  | error e =>
    intro h
    cases h
    exact hx rfl

theorem Local.lift {r : Except DriverError α} (h : Local r) : Undisputed (Row.lift r) := by
  cases r with
  | ok a => exact .ok a
  | error e =>
    intro hconflict
    have htranslate : e.toStoreError = .conflict := Except.error.inj hconflict
    have hcode := DriverError.translate_eq_conflict_iff.mp htranslate
    rw [DriverError.IsConflict, h e rfl] at hcode
    rcases hcode with ⟨⟨⟩⟩ | ⟨⟨⟩⟩

namespace Row

variable (row : Row) (name : String)

theorem cell_local : Local (row.cell name) := by
  unfold cell
  split
  · exact .ok _
  · exact .error rfl

theorem numberIn_local (cell : Column × SqlValue) : Local (numberIn cell) := by
  unfold numberIn
  split
  · exact .ok _
  · exact .error rfl
  · exact .error rfl

theorem number_local : Local (row.number name) :=
  (row.cell_local name).bind fun cell => numberIn_local cell

theorem amountIn_local (cell : Column × SqlValue) : Local (amountIn cell) := by
  refine (numberIn_local cell).bind fun n => ?_
  split
  · exact .ok _
  · exact .error rfl

theorem amount_local : Local (row.amount name) :=
  (row.cell_local name).bind fun cell => amountIn_local cell

theorem text_local : Local (row.text name) := by
  refine (row.cell_local name).bind fun cell => ?_
  split
  · exact .ok _
  · exact .error rfl
  · exact .error rfl

theorem time_local : Local (row.time name) := by
  refine (row.cell_local name).bind fun cell => ?_
  split
  · exact .ok _
  · exact .error rfl
  · exact .error rfl

theorem currency_undisputed : Undisputed row.currency := by
  refine (row.text_local "currency").lift.bind fun code => ?_
  cases Currency.parse code with
  | ok currency => exact .ok currency
  | error e => nofun

theorem account_undisputed : Undisputed row.account := by
  refine row.currency_undisputed.bind fun currency => ?_
  refine (row.number_local "id").lift.bind fun id => ?_
  refine (row.text_local "owner").lift.bind fun owner => ?_
  refine (row.amount_local "balance").lift.bind fun balance => ?_
  exact (row.time_local "created_at").lift.bind fun createdAt => .ok _

theorem entry_undisputed : Undisputed row.entry := by
  refine (row.number_local "id").lift.bind fun id => ?_
  refine (row.number_local "account_id").lift.bind fun accountId => ?_
  refine (row.amount_local "amount").lift.bind fun amount => ?_
  exact (row.time_local "created_at").lift.bind fun createdAt => .ok _

theorem transfer_undisputed : Undisputed row.transfer := by
  refine (row.number_local "id").lift.bind fun id => ?_
  refine (row.number_local "from_account_id").lift.bind fun fromId => ?_
  refine (row.number_local "to_account_id").lift.bind fun toId => ?_
  refine (row.amount_local "amount").lift.bind fun amount => ?_
  exact (row.time_local "created_at").lift.bind fun createdAt => .ok _

end Row

/-! ## Calls -/

/-- The account for which a broken foreign key stands when the statement of a call is refused. -/
def missingAt : Call → Option String → AccountId
  | .appendEntry accountId _ => fun _ => accountId
  | .appendTransfer fromId toId _ => DriverError.missingEndpoint fromId toId
  | _ => fun _ => 0

variable {m : Movement} {c : Call}

/-- A call of a transfer fails as the refusal of its statement says. -/
theorem interpret_error (hc : c ∈ m.calls) (e : DriverError) :
    interpret c (.error e) = .error (e.translate (missingAt c)) := by
  simp only [Movement.calls, List.mem_cons, List.not_mem_nil, or_false] at hc
  rcases hc with rfl | rfl | rfl | rfl | rfl | rfl | rfl <;> rfl

theorem foundAccount_undisputed (id : AccountId) (rows : List Row) :
    Undisputed (foundAccount id (.ok rows)) := by
  cases rows with
  | nil => nofun
  | cons row rest => exact row.account_undisputed

/-- The first row, read. -/
theorem firstRow_undisputed {missing : Option String → AccountId} {read : Row → Except StoreError α}
    (rows : List Row) (hread : ∀ row, Undisputed (read row)) :
    Undisputed (((Except.ok rows).bind firstRow).mapError (·.translate missing) >>= read) := by
  cases rows with
  | nil => nofun
  | cons row rest => exact hread row

/-- A call of a transfer whose statement is answered with rows is not a conflict. -/
theorem interpret_undisputed (hc : c ∈ m.calls) (rows : List Row) :
    Undisputed (interpret c (.ok rows)) := by
  simp only [Movement.calls, List.mem_cons, List.not_mem_nil, or_false] at hc
  rcases hc with rfl | rfl | rfl | rfl | rfl | rfl | rfl
  · exact foundAccount_undisputed _ rows
  · exact foundAccount_undisputed _ rows
  · exact foundAccount_undisputed _ rows
  · exact foundAccount_undisputed _ rows
  · exact firstRow_undisputed rows Row.entry_undisputed
  · exact firstRow_undisputed rows Row.entry_undisputed
  · exact firstRow_undisputed rows Row.transfer_undisputed

end FundsLedger.Postgres
