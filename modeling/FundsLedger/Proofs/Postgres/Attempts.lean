import FundsLedger.Proofs.Postgres.Dialogue
import FundsLedger.Proofs.Postgres.Refusals
import FundsLedger.Proofs.Retrying

/-!
Attempts at a transfer, as a server sees them. The server may refuse any statement with any error.
An attempt is a transaction whose statements are sent in order from its beginning, up to the first
that is refused, and then rolled back; the error of that statement alone decides how the attempt
ends. If none is refused it ends with the commit, unless rows come that cannot be read or accounts
between which the transfer is declined.
-/

namespace FundsLedger.Postgres

variable {σ : Type} {m : Movement} {currency : Currency} {isolation : Isolation} {c : Call}
variable {result : Except TransferError Receipt}

/-! ## Transactions -/

/-- The statements that set a transaction up. -/
def opening (isolation : Isolation) : List Statement := [command "BEGIN", command isolation.sql]

/-- The statements of an attempt at a transfer that nothing goes wrong with. -/
def transaction (m : Movement) (isolation : Isolation) : List Statement :=
  opening isolation ++ m.calls.map statement ++ [command "COMMIT"]

/-- The calls of a transfer read accounts, but for the entries and the transfer. -/
theorem call_cases (hc : c ∈ m.calls) :
    ((statement c).columns = accountColumns ∧ missingAt c = fun _ => 0) ∨
      (∃ id amount, c = .appendEntry id amount) ∨
      c = .appendTransfer m.fromId m.toId m.amount := by
  simp only [Movement.calls, List.mem_cons, List.not_mem_nil, or_false] at hc
  rcases hc with rfl | rfl | rfl | rfl | rfl | rfl | rfl
  · exact Or.inl ⟨rfl, rfl⟩
  · exact Or.inl ⟨rfl, rfl⟩
  · exact Or.inl ⟨rfl, rfl⟩
  · exact Or.inl ⟨rfl, rfl⟩
  · exact Or.inr (Or.inl ⟨_, _, rfl⟩)
  · exact Or.inr (Or.inl ⟨_, _, rfl⟩)
  · exact Or.inr (Or.inr rfl)

/-- What distinguishes the statement of a call from a command. -/
theorem statement_columns (hc : c ∈ m.calls) : (statement c).columns ≠ [] := by
  rcases call_cases hc with ⟨haccounts, -⟩ | ⟨id, amount, rfl⟩ | rfl
  · rw [haccounts]
    exact List.cons_ne_nil _ _
  · exact List.cons_ne_nil _ _
  · exact List.cons_ne_nil _ _

theorem statement_ne_command (hc : c ∈ m.calls) (sql : String) : statement c ≠ command sql := by
  intro heq
  exact statement_columns hc (congrArg Statement.columns heq)

theorem command_injective {sql sql' : String} (h : command sql = command sql') : sql = sql' :=
  congrArg Statement.sql h

/-- Nothing in a transaction before its commit is another one of these commands. -/
theorem not_mem_opening {sql : String} (hbegin : sql ≠ "BEGIN") (hset : sql ≠ isolation.sql) :
    command sql ∉ opening isolation ++ m.calls.map statement := by
  simp only [opening, List.cons_append, List.nil_append, List.mem_cons, List.mem_map, not_or,
    not_exists, not_and]
  refine ⟨fun heq => hbegin (command_injective heq), fun heq => hset (command_injective heq), ?_⟩
  intro c hc
  exact statement_ne_command hc sql

theorem commit_not_mem : command "COMMIT" ∉ opening isolation ++ m.calls.map statement :=
  not_mem_opening (by decide) (by cases isolation <;> decide)

theorem rollback_not_mem : rollback ∉ transaction m isolation := by
  rw [transaction, List.mem_append, not_or]
  refine ⟨not_mem_opening (by decide) (by cases isolation <;> decide), ?_⟩
  rw [List.mem_singleton]
  intro heq
  exact absurd (command_injective heq) (by decide)

/-- A transaction is begun once. -/
theorem begin_not_mem_tail : command "BEGIN" ∉ (transaction m isolation).tail := by
  change command "BEGIN" ∉ [command isolation.sql] ++ m.calls.map statement ++ [command "COMMIT"]
  simp only [List.mem_append, List.mem_singleton, List.mem_map, not_or, not_exists, not_and]
  refine ⟨⟨fun heq => ?_, fun c hc => statement_ne_command hc _⟩, fun heq => ?_⟩
  · exact absurd (command_injective heq) (by cases isolation <;> decide)
  · exact absurd (command_injective heq) (by decide)

/-! ## Attempts -/

/-- A statement that the server has refused, and the error with which it has. -/
structure Refusal where
  statement : Statement
  error : DriverError

/-- How an attempt ends: a statement has been refused, the transaction has been committed, or
neither, and the transfer has stopped with an error of its own. -/
inductive Ending where
  | refused (r : Refusal)
  | committed
  | stopped (e : TransferError)

variable {xs left : List Asked} {r : Refusal} {ending : Ending}

/-- The server has accepted all of these statements. -/
def Accepted (xs : List Asked) : Prop := ∀ x ∈ xs, ∃ rows, x.answer = .ok rows

/-- In this part of a dialogue the account has been locked, and read as this one. -/
def Reads (xs : List Asked) (id : AccountId) (a : Account) : Prop :=
  ∃ rows, ⟨statement (.getForUpdate id), .ok rows⟩ ∈ xs ∧ foundAccount id (.ok rows) = .ok a

/-- Why a transfer stops although no statement has been refused: the last rows cannot be read, or it
is declined between the two accounts that have just been read. -/
inductive Stops (m : Movement) (currency : Currency) (isolation : Isolation) (xs : List Asked) :
    TransferError → Prop
  | unreadable {before : List Asked} {c : Call} {rows : List Row} {e : StoreError}
      (made : c ∈ m.calls) (last : xs = before ++ [⟨statement c, .ok rows⟩])
      (unread : interpret c (.ok rows) = .error e) : Stops m currency isolation xs (ofStoreError e)
  | declined {source destination : Account} {e : TransferError}
      (order : xs.map (·.statement) = opening isolation ++ (m.calls.take 2).map statement)
      (sourceRead : Reads xs m.fromId source) (destinationRead : Reads xs m.toId destination)
      (declines : m.Declines currency source destination e) : Stops m currency isolation xs e

/-- One attempt. The statements of the transaction are sent in order from its beginning: up to the
first that is refused, up to the commit, or up to where the transfer stops. A transaction that has
been begun and not committed is rolled back, and nothing else is sent any more. -/
inductive Attempted (m : Movement) (currency : Currency) (isolation : Isolation) :
    List Asked → Ending → Prop
  | refused {xs left : List Asked} {r : Refusal}
      (order : xs.map (·.statement) ++ [r.statement] <+: transaction m isolation)
      (accepted : Accepted xs) (undone : left = [] ↔ xs = [])
      (after : ∀ x ∈ left, x.statement = rollback) :
      Attempted m currency isolation (xs ++ ⟨r.statement, .error r.error⟩ :: left) (.refused r)
  | committed {xs : List Asked} (order : xs.map (·.statement) = transaction m isolation)
      (accepted : Accepted xs) : Attempted m currency isolation xs .committed
  | stopped {xs left : List Asked} {e : TransferError}
      (order : xs.map (·.statement) <+: opening isolation ++ m.calls.map statement)
      (accepted : Accepted xs) (stops : Stops m currency isolation xs e) (undone : left ≠ [])
      (after : ∀ x ∈ left, x.statement = rollback) :
      Attempted m currency isolation (xs ++ left) (.stopped e)

/-- In this part of a dialogue the server has refused the statement with the error, and it was not
to roll a transaction back. -/
def Refused (xs : List Asked) (r : Refusal) : Prop :=
  ⟨r.statement, .error r.error⟩ ∈ xs ∧ r.statement ≠ rollback

theorem Accepted.not_refused (h : Accepted xs) (r : Refusal) : ¬ Refused xs r := by
  rintro ⟨hmem, -⟩
  obtain ⟨rows, hrows⟩ := h _ hmem
  cases hrows

/-- It does not matter whether a rollback is refused. -/
theorem refused_append_rollbacks (hleft : ∀ x ∈ left, x.statement = rollback) :
    Refused (xs ++ left) r ↔ Refused xs r := by
  refine and_congr_left fun hne => ?_
  rw [List.mem_append, or_iff_left]
  intro hmem
  exact hne (hleft _ hmem)

namespace Attempted

/-- The first statement that is refused is the only one, rollbacks apart. -/
theorem refused_iff (h : Attempted m currency isolation xs ending) (r : Refusal) :
    Refused xs r ↔ ending = .refused r := by
  cases h with
  | @refused xs left r' order accepted undone after =>
    rw [List.append_cons, refused_append_rollbacks after, Ending.refused.injEq]
    constructor
    · rintro ⟨hmem, hne⟩
      rcases List.mem_append.mp hmem with hmem | hmem
      · exact absurd ⟨hmem, hne⟩ (accepted.not_refused r)
      · obtain ⟨st, e⟩ := r
        obtain ⟨st', e'⟩ := r'
        cases List.mem_singleton.mp hmem
        rfl
    · rintro rfl
      refine ⟨List.mem_append_right _ List.mem_cons_self, fun heq => ?_⟩
      have hmem := order.subset (List.mem_append_right _ List.mem_cons_self)
      rw [heq] at hmem
      exact rollback_not_mem hmem
  | committed order accepted => simpa using accepted.not_refused r
  | stopped order accepted stops undone after =>
    simpa [refused_append_rollbacks after] using accepted.not_refused r

/-- What is sent is a first part of the transaction, which is not empty, and rollbacks. -/
theorem split (h : Attempted m currency isolation xs ending) :
    ∃ sent left, xs.map (·.statement) = sent ++ left ∧ sent ≠ [] ∧
      sent <+: transaction m isolation ∧ ∀ st ∈ left, st = rollback := by
  have hrollbacks : ∀ {left : List Asked}, (∀ x ∈ left, x.statement = rollback) →
      ∀ st ∈ left.map (·.statement), st = rollback := by
    intro left hleft
    exact List.forall_mem_map.mpr hleft
  cases h with
  | @refused xs left r order accepted undone after =>
    exact ⟨_, left.map (·.statement), by simp, by simp, order, hrollbacks after⟩
  | committed order accepted =>
    exact ⟨_, [], by rw [order, List.append_nil], by simp [transaction], List.prefix_refl _,
      by simp⟩
  | @stopped xs left e order accepted stops undone after =>
    refine ⟨_, left.map (·.statement), List.map_append, ?_,
      order.trans (List.prefix_append _ _), hrollbacks after⟩
    cases stops with
    | unreadable made last unread => simp [last]
    | declined order sourceRead destinationRead declines => simp [order, opening]

end Attempted

/-- It begins with a `BEGIN`, and no other one is sent. -/
def Begins (xs : List Asked) : Prop :=
  ∃ rest, xs.map (·.statement) = command "BEGIN" :: rest ∧ command "BEGIN" ∉ rest

theorem Attempted.begins (h : Attempted m currency isolation xs ending) : Begins xs := by
  obtain ⟨sent, left, hsplit, hsent, hprefix, hleft⟩ := h.split
  obtain ⟨first, more, rfl⟩ := List.exists_cons_of_ne_nil hsent
  change first :: more <+: command "BEGIN" :: (transaction m isolation).tail at hprefix
  obtain ⟨rfl, hmore⟩ := List.cons_prefix_cons.mp hprefix
  refine ⟨more ++ left, hsplit, ?_⟩
  rw [List.mem_append, not_or]
  refine ⟨fun hmem => begin_not_mem_tail (hmore.subset hmem), fun hmem => ?_⟩
  exact absurd (command_injective (hleft _ hmem)) (by decide)

/-- As many attempts have been made as transactions have been begun. -/
theorem count_begin {attempts : List (List Asked)} (h : ∀ xs ∈ attempts, Begins xs) :
    (attempts.flatten.map (·.statement)).count (command "BEGIN") = attempts.length := by
  induction attempts with
  | nil => rfl
  | cons xs attempts ih =>
    obtain ⟨⟨rest, hrest, hnone⟩, hattempts⟩ := List.forall_mem_cons.mp h
    rw [List.flatten_cons, List.map_append, List.count_append, ih hattempts, hrest,
      List.count_cons_self, List.count_eq_zero.mpr hnone, List.length_cons, Nat.add_comm]

/-- After each statement that is refused only rollbacks are sent, and no commit before it. -/
def Abandons (xs : List Asked) : Prop :=
  ∀ r, Refused xs r → ∃ before after, xs = before ++ ⟨r.statement, .error r.error⟩ :: after ∧
    (∀ x ∈ before, x.statement ≠ command "COMMIT") ∧ ∀ x ∈ after, x.statement = rollback

/-- The commit comes last in a transaction, so nothing is committed after a refusal. -/
theorem Attempted.abandons (h : Attempted m currency isolation xs ending) : Abandons xs := by
  intro r hr
  rw [h.refused_iff] at hr
  subst hr
  cases h with
  | @refused before left r order accepted undone after =>
    refine ⟨before, left, rfl, ?_, after⟩
    have hopening : before.map (·.statement) <+: opening isolation ++ m.calls.map statement := by
      rw [transaction, List.prefix_concat_iff] at order
      rcases order with heq | hprefix
      · rw [(List.append_inj' heq rfl).1]
      · exact (List.prefix_append _ _).trans hprefix
    intro x hx hcommit
    have hmem := hopening.subset (List.mem_map_of_mem hx)
    rw [hcommit] at hmem
    exact commit_not_mem hmem

/-! ## Answers -/

/-- The account for which a broken foreign key stands at a statement of a transfer. -/
inductive Resolves (m : Movement) (st : Statement) : (Option String → AccountId) → Prop
  | control (plain : st.columns = []) : Resolves m st fun _ => 0
  | call {c : Call} (made : c ∈ m.calls) (carried : st = statement c) : Resolves m st (missingAt c)

/-- What a transfer answers if this attempt, which is the last of so many, ends like that. -/
inductive Answers (m : Movement) (attempts : Nat) : Ending → Except TransferError Receipt → Prop
  | exhausted {r : Refusal} (conflict : r.error.IsConflict) :
      Answers m attempts (.refused r) (.error (.conflict attempts))
  | refused {r : Refusal} {missing : Option String → AccountId} (other : ¬ r.error.IsConflict)
      (resolves : Resolves m r.statement missing) :
      Answers m attempts (.refused r) (.error (ofStoreError (r.error.translate missing)))
  | committed (receipt : Receipt) : Answers m attempts .committed (.ok receipt)
  | stopped {e : TransferError} (final : e.retryable = false) :
      Answers m attempts (.stopped e) (.error e)

theorem conflicts_ofStoreError_iff {e : StoreError} :
    Conflicts (.error (ofStoreError e) : Except TransferError Receipt) ↔ e = .conflict := by
  rw [conflicts_error_iff, retryable_ofStoreError]

namespace Answers

/-- The outcome of an attempt on its own, one of whose statements has been refused. -/
theorem of_refusal {missing : Option String → AccountId}
    (resolves : Resolves m r.statement missing) :
    Answers m 1 (.refused r) (.error (ofStoreError (r.error.translate missing))) := by
  by_cases hconflict : r.error.IsConflict
  · rw [DriverError.translate_conflict hconflict]
    exact .exhausted hconflict
  · exact .refused hconflict resolves

/-- An attempt ends with a conflict if a statement has been refused with one, and only then. -/
theorem conflicts_iff {n : Nat} (h : Answers m n ending result) :
    Conflicts result ↔ ∃ r, ending = .refused r ∧ r.error.IsConflict := by
  cases h with
  | @exhausted r conflict => exact iff_of_true ⟨_, rfl⟩ ⟨r, rfl, conflict⟩
  | refused other resolves =>
    rw [conflicts_ofStoreError_iff, DriverError.translate_eq_conflict_iff]
    simp
  | committed receipt => simp [not_conflicts_ok]
  | stopped final => simp [conflicts_error_iff, final]

/-- The answer of the last attempt is its outcome, but that a conflict counts the attempts. -/
theorem lastWord (h : Answers m 1 ending result) (n : Nat) :
    Answers m n ending (lastWord n result) := by
  by_cases hconflict : Conflicts result
  · obtain ⟨r, rfl, hr⟩ := h.conflicts_iff.mp hconflict
    rw [lastWord_of_conflicts hconflict]
    exact .exhausted hr
  · rw [lastWord_of_not_conflicts hconflict]
    cases h with
    | exhausted conflict => exact absurd ⟨1, rfl⟩ hconflict
    | refused other resolves => exact .refused other resolves
    | committed receipt => exact .committed receipt
    | stopped final => exact .stopped final

end Answers

/-- This attempt, which is the last of so many, settles the transfer with this answer. -/
def Settles (m : Movement) (currency : Currency) (isolation : Isolation) (attempts : Nat)
    (xs : List Asked) (result : Except TransferError Receipt) : Prop :=
  ∃ ending, Attempted m currency isolation xs ending ∧ Answers m attempts ending result

namespace Settles

variable {n : Nat}

theorem conflicts_iff (h : Settles m currency isolation n xs result) :
    Conflicts result ↔ ∃ r, Refused xs r ∧ r.error.IsConflict := by
  obtain ⟨ending, hattempted, hanswers⟩ := h
  simp only [hanswers.conflicts_iff, hattempted.refused_iff]

theorem lastWord (h : Settles m currency isolation 1 xs result) (n : Nat) :
    Settles m currency isolation n xs (lastWord n result) := by
  obtain ⟨ending, hattempted, hanswers⟩ := h
  exact ⟨ending, hattempted, hanswers.lastWord n⟩

/-- If a statement has been refused, the answer is what that refusal says. -/
theorem answers (h : Settles m currency isolation n xs result) (hr : Refused xs r) :
    Answers m n (.refused r) result := by
  obtain ⟨ending, hattempted, hanswers⟩ := h
  obtain rfl := (hattempted.refused_iff r).mp hr
  exact hanswers

end Settles

/-- Trying again would not help. -/
theorem Stops.final {e : TransferError} (h : Stops m currency isolation xs e) :
    e.retryable = false := by
  cases h with
  | @unreadable before c rows e made last unread =>
    rw [← Bool.not_eq_true, retryable_ofStoreError]
    rintro rfl
    exact interpret_undisputed made rows unread
  | declined order sourceRead destinationRead declines => exact declines.final

/-! ## From requests to statements -/

/-- The statement carries the call out, and what it is answered is the answer to the call. -/
structure Conveys (x : Asked) (a : Answered) : Prop where
  statement : x.statement = statement a.call
  result : a.result = interpret a.call x.answer

namespace Conveys

variable {x : Asked} {a : Answered} {calls : List Answered}

theorem succeeded (h : Conveys x a) (hcall : a.call ∈ m.calls) (ha : a.Succeeded) :
    ∃ rows, x.answer = .ok rows := by
  cases hanswer : x.answer with
  | ok rows => exact ⟨rows, rfl⟩
  | error e =>
    rw [Answered.Succeeded, h.result, hanswer, interpret_error hcall] at ha
    cases ha

theorem statements (h : List.Forall₂ Conveys xs calls) :
    xs.map (·.statement) = (calls.map (·.call)).map Postgres.statement := by
  induction h with
  | nil => rfl
  | cons first rest ih => rw [List.map_cons, List.map_cons, List.map_cons, first.statement, ih]

theorem accepted (h : List.Forall₂ Conveys xs calls) (hcalls : ∀ a ∈ calls, a.call ∈ m.calls)
    (hall : ∀ a ∈ calls, a.Succeeded) : Accepted xs := by
  unfold Accepted
  induction h with
  | nil => simp
  | cons first rest ih =>
    rw [List.forall_mem_cons] at hcalls hall ⊢
    exact ⟨first.succeeded hcalls.1 hall.1, ih hcalls.2 hall.2⟩

/-- An account that has been read is in the rows that were answered. -/
theorem reads (h : List.Forall₂ Conveys xs calls) {id : AccountId} {account : Account}
    (hmem : (⟨.getForUpdate id, .ok account⟩ : Answered) ∈ calls) : Reads xs id account := by
  induction h with
  | nil => cases hmem
  | @cons x a xs calls first rest ih =>
    rcases List.mem_cons.mp hmem with rfl | hmem
    · obtain ⟨st, answer⟩ := x
      obtain ⟨rfl, hresult⟩ := first
      cases answer with
      | ok rows => exact ⟨rows, List.mem_cons_self, hresult.symm⟩
      | error e => cases hresult
    · obtain ⟨rows, hrows, hfound⟩ := ih hmem
      exact ⟨rows, List.mem_cons_of_mem _ hrows, hfound⟩

theorem concat (h : List.Forall₂ Conveys xs (calls ++ [a])) :
    ∃ ys y, xs = ys ++ [y] ∧ List.Forall₂ Conveys ys calls ∧ Conveys y a := by
  have hlast := List.forall₂_drop_append xs calls [a] h
  obtain ⟨y, rest, hy, hrest, heq⟩ := List.forall₂_cons_right_iff.mp hlast
  cases hrest
  refine ⟨xs.take calls.length, y, ?_, List.forall₂_take_append xs calls [a] h, hy⟩
  rw [← heq, List.take_append_drop]

end Conveys

/-- What is sent for the calls in a unit of work and for its end. -/
theorem sent_calls {calls : List Answered} {x : Exchange} {xss : List (List Asked)}
    (h : List.Forall₂ (Sent isolation) (calls.map (·.exchange) ++ [x]) xss) :
    ∃ xs last, xss.flatten = xs ++ last ∧ List.Forall₂ Conveys xs calls ∧
      Sent isolation x last := by
  induction calls generalizing xss with
  | nil =>
    obtain ⟨last, rest, hlast, hrest, rfl⟩ := List.forall₂_cons_left_iff.mp h
    cases hrest
    exact ⟨[], last, by simp, .nil, hlast⟩
  | cons a calls ih =>
    obtain ⟨first, rest, hfirst, hrest, rfl⟩ := List.forall₂_cons_left_iff.mp h
    obtain ⟨xs, last, hflatten, hconveys, hlast⟩ := ih hrest
    obtain ⟨call, result⟩ := a
    change Sent isolation ⟨.call call, result⟩ first at hfirst
    cases hfirst with
    | called call answer =>
      refine ⟨⟨statement call, answer⟩ :: xs, last, ?_, .cons ⟨rfl, rfl⟩ hconveys, hlast⟩
      rw [List.flatten_cons, hflatten]
      rfl

/-- What is sent to roll back is rollbacks, and at least one. -/
theorem Sent.rollbacks {reply : Except StoreError Unit} (h : Sent isolation ⟨.rollback, reply⟩ xs) :
    xs ≠ [] ∧ ∀ x ∈ xs, x.statement = rollback := by
  cases h with
  | rolledBack controlled => cases controlled <;> simp

/-- What is sent in a transaction that has been set up. -/
theorem sent_unit {calls : List Answered} {x : Exchange} {xss : List (List Asked)}
    (h : List.Forall₂ (Sent isolation) (⟨.begin, .ok ()⟩ :: (calls.map (·.exchange) ++ [x])) xss) :
    ∃ begun xs last, xss.flatten = begun ++ xs ++ last ∧
      begun.map (·.statement) = opening isolation ∧ Accepted begun ∧
      List.Forall₂ Conveys xs calls ∧ Sent isolation x last := by
  obtain ⟨begun, rest, hbegin, hrest, rfl⟩ := List.forall₂_cons_left_iff.mp h
  obtain ⟨xs, last, hflatten, hconveys, hlast⟩ := sent_calls hrest
  refine ⟨begun, xs, last, ?_, ?_, ?_, hconveys, hlast⟩
  · rw [List.flatten_cons, hflatten, List.append_assoc]
  · cases hbegin with
    | begun rows controlled =>
      cases controlled
      rfl
  · cases hbegin with
    | begun rows controlled =>
      cases controlled
      simp [Accepted]

/-- The calls of an attempt stand in its transaction after the beginning. -/
theorem opening_prefix {calls : List Call} (h : calls <+: m.calls) :
    opening isolation ++ calls.map statement <+: opening isolation ++ m.calls.map statement := by
  rw [List.prefix_append_right_inj]
  exact h.map statement

/-- What is sent in it if all of its calls succeed. -/
theorem sent_succeeded {calls : List Answered} {x : Exchange} {xss : List (List Asked)}
    (h : List.Forall₂ (Sent isolation) (⟨.begin, .ok ()⟩ :: (calls.map (·.exchange) ++ [x])) xss)
    (hcalls : calls.map (·.call) <+: m.calls) (hall : ∀ a ∈ calls, a.Succeeded) :
    ∃ xs last, xss.flatten = xs ++ last ∧
      xs.map (·.statement) = opening isolation ++ (calls.map (·.call)).map statement ∧
      Accepted xs ∧ (∀ id account, (⟨.getForUpdate id, .ok account⟩ : Answered) ∈ calls →
        Reads xs id account) ∧ Sent isolation x last := by
  obtain ⟨begun, xs, last, hflatten, hopening, hbegun, hconveys, hlast⟩ := sent_unit h
  have haccepted := Conveys.accepted hconveys
    (fun a ha => hcalls.subset (List.mem_map_of_mem ha)) hall
  refine ⟨begun ++ xs, last, hflatten, ?_, List.forall_mem_append.mpr ⟨hbegun, haccepted⟩, ?_,
    hlast⟩
  · rw [List.map_append, hopening, Conveys.statements hconveys]
  · intro id account hmem
    obtain ⟨rows, hrows, hfound⟩ := Conveys.reads hconveys hmem
    exact ⟨rows, List.mem_append_right _ hrows, hfound⟩

/-! ## From requests to attempts -/

/-- A statement has been refused. -/
theorem Settles.refused (xs left : List Asked) {st : Statement} {e : DriverError}
    {missing : Option String → AccountId}
    (order : xs.map (·.statement) ++ [st] <+: transaction m isolation) (accepted : Accepted xs)
    (undone : left = [] ↔ xs = []) (after : ∀ x ∈ left, x.statement = rollback)
    (resolves : Resolves m st missing) :
    Settles m currency isolation 1 (xs ++ ⟨st, .error e⟩ :: left)
      (.error (ofStoreError (e.translate missing))) :=
  ⟨.refused ⟨st, e⟩, .refused (r := ⟨st, e⟩) order accepted undone after,
    .of_refusal (r := ⟨st, e⟩) resolves⟩

section

variable {calls : List Answered} {xss : List (List Asked)}

/-- The transaction cannot be set up. -/
theorem Settles.unopened {e : StoreError}
    (hsent : List.Forall₂ (Sent isolation) [⟨.begin, .error e⟩] xss) :
    Settles m currency isolation 1 xss.flatten (.error (ofStoreError e)) := by
  obtain ⟨ys, rest, hbegin, hrest, rfl⟩ := List.forall₂_cons_left_iff.mp hsent
  cases hrest
  rw [List.flatten_singleton]
  cases hbegin with
  | unbegun e =>
    apply Settles.refused [] [] _ _ _ _ (.control rfl)
    all_goals simp [transaction, opening, Accepted]
  | begun rows controlled =>
    cases controlled with
    | left e answer =>
      apply Settles.refused [⟨command "BEGIN", .ok rows⟩] [⟨rollback, answer⟩] _ _ _ _
        (.control rfl)
      all_goals simp [transaction, opening, Accepted]

/-- The commit is accepted. -/
theorem Settles.committed (whole : Whole m calls) (receipt : Receipt)
    (hsent : List.Forall₂ (Sent isolation)
      (⟨.begin, .ok ()⟩ :: (calls.map (·.exchange) ++ [⟨.commit, .ok ()⟩])) xss) :
    Settles m currency isolation 1 xss.flatten (.ok receipt) := by
  obtain ⟨xs, last, hflatten, hstatements, haccepted, -, hlast⟩ :=
    sent_succeeded hsent (by rw [whole.order]) whole.succeeded
  rw [hflatten]
  cases hlast with
  | committed controlled =>
    cases controlled with
    | done rows =>
      refine ⟨.committed, .committed ?_ ?_, .committed receipt⟩
      · rw [List.map_append, hstatements, whole.order]
        rfl
      · exact List.forall_mem_append.mpr ⟨haccepted, by simp⟩

/-- The commit is refused. -/
theorem Settles.uncommitted {e : StoreError} (whole : Whole m calls)
    (hsent : List.Forall₂ (Sent isolation)
      (⟨.begin, .ok ()⟩ :: (calls.map (·.exchange) ++ [⟨.commit, .error e⟩])) xss) :
    Settles m currency isolation 1 xss.flatten (.error (ofStoreError e)) := by
  obtain ⟨xs, last, hflatten, hstatements, haccepted, -, hlast⟩ :=
    sent_succeeded hsent (by rw [whole.order]) whole.succeeded
  have hnonempty : xs ≠ [] := by
    rintro rfl
    cases hstatements
  rw [hflatten]
  cases hlast with
  | committed controlled =>
    cases controlled with
    | left e answer =>
      apply Settles.refused xs [⟨rollback, answer⟩] _ haccepted _ _ (.control rfl)
      · rw [hstatements, whole.order]
        exact List.prefix_refl _
      · simp [hnonempty]
      · simp

/-- The last call fails, because its statement is refused or because its rows cannot be read. -/
theorem Settles.failed {code : String} {e : StoreError} {reply : Except StoreError Unit}
    (obeys : Obeys m code (calls ++ [⟨c, .error e⟩]))
    (hsent : List.Forall₂ (Sent isolation) (⟨.begin, .ok ()⟩ ::
      ((calls ++ [(⟨c, .error e⟩ : Answered)]).map (·.exchange) ++ [⟨.rollback, reply⟩])) xss) :
    Settles m currency isolation 1 xss.flatten (.error (ofStoreError e)) := by
  obtain ⟨begun, xs, left, hflatten, hopening, hbegun, hconveys, hleft⟩ := sent_unit hsent
  obtain ⟨ys, ⟨st, answer⟩, rfl, hbefore, hstatement, hresult⟩ := Conveys.concat hconveys
  obtain rfl : st = statement c := hstatement
  obtain ⟨hundone, hafter⟩ := hleft.rollbacks
  have hcalls : ∀ a ∈ calls ++ [⟨c, .error e⟩], a.call ∈ m.calls := fun a ha =>
    obeys.order.subset (List.mem_map_of_mem ha)
  have hcall : c ∈ m.calls := hcalls ⟨c, .error e⟩ (by simp)
  have hsucceeded : ∀ a ∈ calls, a.Succeeded := by
    have hstops := obeys.stops
    rwa [List.dropLast_concat] at hstops
  have haccepted : Accepted (begun ++ ys) := List.forall_mem_append.mpr ⟨hbegun,
    Conveys.accepted hbefore (fun a ha => hcalls a (List.mem_append_left _ ha)) hsucceeded⟩
  have hnonempty : begun ++ ys ≠ [] := by
    rintro heq
    rw [(List.append_eq_nil_iff.mp heq).1] at hopening
    cases hopening
  have horder : (begun ++ ys).map (·.statement) ++ [statement c] <+:
      opening isolation ++ m.calls.map statement := by
    have hprefix : _ <+: opening isolation ++ m.calls.map statement := opening_prefix obeys.order
    simpa [hopening, Conveys.statements hbefore] using hprefix
  rw [hflatten, ← List.append_assoc]
  cases answer with
  | error e' =>
    rw [List.append_assoc (begun ++ ys)]
    obtain rfl : e = e'.translate (missingAt c) :=
      Except.error.inj (hresult.trans (interpret_error hcall e'))
    exact .refused _ _ (horder.trans (List.prefix_append _ _)) haccepted
      (by simp [hundone, hnonempty]) hafter (.call hcall rfl)
  | ok rows =>
    have hstops : Stops m currency isolation (begun ++ ys ++ [⟨statement c, .ok rows⟩])
        (ofStoreError e) := .unreadable hcall rfl hresult.symm
    refine ⟨.stopped (ofStoreError e), .stopped ?_ ?_ hstops hundone hafter, .stopped hstops.final⟩
    · rwa [List.map_append, List.map_singleton]
    · exact List.forall_mem_append.mpr ⟨haccepted, by simp⟩

/-- The transfer is declined. -/
theorem Settles.declined {source destination : Account} {e : TransferError}
    {reply : Except StoreError Unit} (order : calls.map (·.call) = m.calls.take 2)
    (sourceRead : (⟨.getForUpdate m.fromId, .ok source⟩ : Answered) ∈ calls)
    (destinationRead : (⟨.getForUpdate m.toId, .ok destination⟩ : Answered) ∈ calls)
    (succeeded : ∀ a ∈ calls, a.Succeeded) (declines : m.Declines currency source destination e)
    (hsent : List.Forall₂ (Sent isolation)
      (⟨.begin, .ok ()⟩ :: (calls.map (·.exchange) ++ [⟨.rollback, reply⟩])) xss) :
    Settles m currency isolation 1 xss.flatten (.error e) := by
  have hprefix : calls.map (·.call) <+: m.calls := order ▸ List.take_prefix 2 _
  obtain ⟨xs, left, hflatten, hstatements, haccepted, hreads, hleft⟩ :=
    sent_succeeded hsent hprefix succeeded
  obtain ⟨hundone, hafter⟩ := hleft.rollbacks
  have hstops : Stops m currency isolation xs e :=
    .declined (by rw [hstatements, order]) (hreads _ _ sourceRead) (hreads _ _ destinationRead)
      declines
  rw [hflatten]
  refine ⟨.stopped e, .stopped ?_ haccepted hstops hundone hafter, .stopped hstops.final⟩
  rw [hstatements]
  exact opening_prefix hprefix

end

/-- What has been tried, seen from the server. -/
theorem Settles.of_tried {o : TransferOrder} {ys : List Exchange} {xss : List (List Asked)}
    (h : o.attempt.Tried ys (.answered result))
    (hsent : List.Forall₂ (Sent isolation) ys xss) :
    Settles o.toMovement o.currency isolation 1 xss.flatten result := by
  cases h with
  | unopened e => exact .unopened hsent
  | opened finished =>
    cases finished with
    | @committed calls receipt path =>
      obtain ⟨-, hconcludes⟩ := TransferOrder.attempt_obeys path trivial
      cases hconcludes with
      | succeeded whole _ => exact .committed whole receipt hsent
    | @uncommitted calls receipt path e =>
      obtain ⟨-, hconcludes⟩ := TransferOrder.attempt_obeys path trivial
      cases hconcludes with
      | succeeded whole _ => exact .uncommitted whole hsent
    | @rolledBack calls e path reply =>
      obtain ⟨hobeys, hconcludes⟩ := TransferOrder.attempt_obeys path trivial
      cases hconcludes with
      | @failed before c e last =>
        subst last
        exact .failed hobeys hsent
      | declined order sourceRead destinationRead succeeded declines =>
        exact .declined order sourceRead destinationRead succeeded declines hsent

/-- What is said in an attempt on any connection, and the outcome of the attempt. -/
theorem attempt_says (o : TransferOrder) (server : Server σ) (isolation : Isolation)
    (c : Connection σ) :
    ∃ xs result,
      server.Says c xs (o.attempt.atomically.runOn (store server isolation) c).state ∧
      (o.attempt.atomically.runOn (store server isolation) c).settled = .answered result ∧
      Settles o.toMovement o.currency isolation 1 xs result := by
  have htried := o.attempt.atomically_tried (store server isolation) c
  obtain ⟨-, result, hsettled, -⟩ := o.attempt_tried htried
  obtain ⟨xss, hsent, hsays⟩ := server.process_says isolation c hsettled
  rw [hsettled] at htried
  exact ⟨xss.flatten, result, hsays, hsettled, Settles.of_tried htried hsent⟩

end FundsLedger.Postgres
