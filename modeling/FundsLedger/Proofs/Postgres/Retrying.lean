import FundsLedger.Postgres.Scripted
import FundsLedger.Proofs.Postgres.Attempts

/-!
Transfers over a server. The server may refuse any statement of any attempt with any error. What it
has refused decides whether the transfer is attempted again and, if it is not, what is answered.
-/

namespace FundsLedger.Postgres

variable {σ : Type} {m : Movement} {currency : Currency} {isolation : Isolation} {c : Call}
variable {result : Except TransferError Receipt}

/-! ## What a refusal means -/

/-- At an entry a broken foreign key stands for the account of the entry. -/
theorem missingAt_of_entry {id : AccountId} {amount : Amount} (hc : c ∈ m.calls)
    (h : statement (.appendEntry id amount) = statement c) : missingAt c = fun _ => id := by
  have hcolumns : entryColumns = (statement c).columns := congrArg Statement.columns h
  rcases call_cases hc with ⟨haccounts, -⟩ | ⟨id', amount', rfl⟩ | rfl
  · rw [haccounts] at hcolumns
    exact absurd hcolumns (by decide)
  · have hbound : [Bound.number id, .number amount.units] = [.number id', .number amount'.units] :=
      congrArg Statement.bound h
    rw [missingAt, Bound.number.inj (List.cons.inj hbound).1]
  · have htransfer : entryColumns = transferColumns := hcolumns
    exact absurd htransfer (by decide)

/-- At the transfer it stands for the account that its constraint names. -/
theorem missingAt_of_transfer (hc : c ∈ m.calls)
    (h : statement (.appendTransfer m.fromId m.toId m.amount) = statement c) :
    missingAt c = DriverError.missingEndpoint m.fromId m.toId := by
  have hcolumns : transferColumns = (statement c).columns := congrArg Statement.columns h
  rcases call_cases hc with ⟨haccounts, -⟩ | ⟨id', amount', rfl⟩ | rfl
  · rw [haccounts] at hcolumns
    exact absurd hcolumns (by decide)
  · have hentry : transferColumns = entryColumns := hcolumns
    exact absurd hentry (by decide)
  · rfl

namespace Resolves

variable {st : Statement} {missing : Option String → AccountId}

theorem entry {id : AccountId} {amount : Amount} (h : Resolves m st missing)
    (hst : st = statement (.appendEntry id amount)) : missing = fun _ => id := by
  cases h with
  | control plain =>
    have hcolumns : entryColumns = [] := (congrArg Statement.columns hst).symm.trans plain
    cases hcolumns
  | call made carried => exact missingAt_of_entry made (hst.symm.trans carried)

theorem transfer (h : Resolves m st missing)
    (hst : st = statement (.appendTransfer m.fromId m.toId m.amount)) :
    missing = DriverError.missingEndpoint m.fromId m.toId := by
  cases h with
  | control plain =>
    have hcolumns : transferColumns = [] := (congrArg Statement.columns hst).symm.trans plain
    cases hcolumns
  | call made carried => exact missingAt_of_transfer made (hst.symm.trans carried)

end Resolves

theorem missingEndpoint_destination {fromId toId : AccountId} {name : String}
    (h : Mentions name "to_account") :
    DriverError.missingEndpoint fromId toId (some name) = toId :=
  if_pos (occursIn_iff.mpr h)

theorem missingEndpoint_source {fromId toId : AccountId} {constraint : Option String}
    (h : ∀ name ∈ constraint, ¬ Mentions name "to_account") :
    DriverError.missingEndpoint fromId toId constraint = fromId := by
  cases constraint with
  | none => rfl
  | some name =>
    apply if_neg
    rw [occursIn_iff]
    exact h name rfl

/-- One end of a transfer. -/
inductive Endpoint where
  | source
  | destination

namespace Endpoint

/-- The constraint of the schema by which the account at that end must exist. -/
def constraint : Endpoint → String
  | source => "transfers_from_account_id_fkey"
  | destination => "transfers_to_account_id_fkey"

/-- The account at that end. -/
def account (m : Movement) : Endpoint → AccountId
  | source => m.fromId
  | destination => m.toId

/-- The names of the constraints tell the ends apart. -/
theorem missingEndpoint_constraint (endpoint : Endpoint) :
    DriverError.missingEndpoint m.fromId m.toId (some endpoint.constraint) =
      endpoint.account m := by
  cases endpoint with
  | source =>
    apply missingEndpoint_source
    rintro name ⟨⟩
    decide
  | destination => exact missingEndpoint_destination (by decide)

end Endpoint

/-! ## Transfers -/

/-- How a transfer over a server goes if it may be attempted so often. What has been refused in an
attempt decides whether another one follows, and the answer is what the end of the last one says. -/
structure Decides (m : Movement) (currency : Currency) (isolation : Isolation) (limit : Nat)
    (attempts : List (List Asked)) (result : Except TransferError Receipt) : Prop where
  nonempty : attempts ≠ []
  each : ∀ xs ∈ attempts, ∃ ending, Attempted m currency isolation xs ending
  again : ∀ n (h : n < attempts.length), n + 1 < attempts.length ↔
    (∃ r, Refused attempts[n] r ∧ r.error.IsConflict) ∧ n + 1 < limit
  answer : ∀ xs ∈ attempts.getLast?, Settles m currency isolation attempts.length xs result

/-- Attempts of which each but the last ends with a conflict, and the last one does so only at the
limit. -/
theorem decides_of_attempts {limit last : Nat} {xs : Nat → List Asked}
    {outcome : Nat → Except TransferError Receipt}
    (hsettles : ∀ n, Settles m currency isolation 1 (xs n) (outcome n)) (hle : last + 1 ≤ limit)
    (hbefore : ∀ n < last, Conflicts (outcome n))
    (hstop : last + 1 < limit → ¬ Conflicts (outcome last)) :
    Decides m currency isolation limit ((List.range (last + 1)).map xs)
      (lastWord (last + 1) (outcome last)) := by
  constructor
  case nonempty => simp
  case each =>
    intro ys hys
    obtain ⟨n, -, rfl⟩ := List.mem_map.mp hys
    obtain ⟨ending, hattempted, -⟩ := hsettles n
    exact ⟨ending, hattempted⟩
  case again =>
    intro n h
    simp only [List.length_map, List.length_range, List.getElem_map, List.getElem_range] at h ⊢
    rw [← (hsettles n).conflicts_iff, Nat.succ_lt_succ_iff]
    constructor
    · intro hlt
      exact ⟨hbefore n hlt, by omega⟩
    · rintro ⟨hconflict, hlimit⟩
      by_contra hnlast
      obtain rfl : n = last := by omega
      exact hstop hlimit hconflict
  case answer =>
    intro ys hys
    rw [List.range_succ, List.map_append, List.map_singleton, List.getLast?_concat] at hys
    cases hys
    rw [List.length_map, List.length_range]
    exact (hsettles last).lastWord (last + 1)

/-- Attempts one after the other are one dialogue. -/
theorem says_attempts {server : Server σ} {b : Backend (Connection σ)} {s : Connection σ}
    {op : Nat → Process (Except TransferError Receipt)} {xs : Nat → List Asked}
    (h : ∀ n, server.Says (stateAfter b s op n) (xs n) (stateAfter b s op (n + 1))) (k : Nat) :
    server.Says s ((List.range k).map xs).flatten (stateAfter b s op k) := by
  induction k with
  | zero => exact .nil s
  | succ k ih =>
    rw [List.range_succ, List.map_append, List.flatten_append, List.map_singleton,
      List.flatten_singleton]
    exact ih.append (h k)

/-- A transfer whose form has been checked. -/
theorem order_decides (o : TransferOrder) (p : RetryPolicy) (server : Server σ)
    (isolation : Isolation) (c : Connection σ) :
    ∃ attempts result,
      server.Says c attempts.flatten
        ((o.executeFrom p 1 (p.maxAttempts - 1)).runOn (store server isolation) c).state ∧
      ((o.executeFrom p 1 (p.maxAttempts - 1)).runOn (store server isolation) c).settled =
        .answered result ∧
      Decides o.toMovement o.currency isolation (max 1 p.maxAttempts) attempts result := by
  -- Each attempt is looked at on the connection as the attempts before it leave it.
  choose xs outcome hsays hsettled hsettles using fun n =>
    attempt_says o server isolation
      (stateAfter (store server isolation) c (fun _ => o.attempt.atomically) n)
  have hyields : Yields (store server isolation) c (fun _ => o.attempt.atomically)
      (max 1 p.maxAttempts) fun n => outcome (n - 1) := fun n _ _ => hsettled n
  obtain ⟨k, ds, hpos, hle, hbefore, hstop, -, hloop⟩ :=
    RetryPolicy.loopFrom_does (p := p) o.reports hyields (p.maxAttempts - 1) 0 (by omega)
      fun m hm hle => absurd hm (by omega)
  obtain ⟨last, rfl⟩ := Nat.exists_eq_add_one.mpr hpos
  have hdoes : Process.Does (store server isolation) c (o.executeFrom p 1 (p.maxAttempts - 1)) ds
      (stateAfter (store server isolation) c (fun _ => o.attempt.atomically) (last + 1))
      (lastWord (last + 1) (outcome last)) := by
    rw [o.executeFrom_eq]
    exact hloop.map (·.result)
  refine ⟨(List.range (last + 1)).map xs, lastWord (last + 1) (outcome last), ?_, hdoes.settled, ?_⟩
  · rw [hdoes.state]
    exact says_attempts hsays (last + 1)
  · refine decides_of_attempts hsettles hle (fun n hn => ?_) hstop
    exact hbefore (n + 1) (by omega) (by omega)

/-- What is answered after a refusal that is the last one. A conflict counts the attempts. The
account of an entry or of an end of the transfer is missing if the foreign key is broken there, and
what else may have gone wrong is told in the words of the driver. -/
structure Explains (m : Movement) (limit : Nat) (attempts : List (List Asked))
    (result : Except TransferError Receipt) : Prop where
  exhausted : ∀ n (h : n < attempts.length) r, Refused attempts[n] r → r.error.IsConflict →
    n + 1 = limit → n + 1 = attempts.length ∧ result = .error (.conflict limit)
  entry : ∀ n (h : n < attempts.length) id amount text constraint,
    Refused attempts[n]
      ⟨statement (.appendEntry id amount), .database text (some "23503") constraint⟩ →
    n + 1 = attempts.length ∧ result = .error (.accountNotFound id)
  destination : ∀ n (h : n < attempts.length) text name, Mentions name "to_account" →
    Refused attempts[n] ⟨statement (.appendTransfer m.fromId m.toId m.amount),
      .database text (some "23503") (some name)⟩ →
    n + 1 = attempts.length ∧ result = .error (.accountNotFound m.toId)
  source : ∀ n (h : n < attempts.length) text constraint,
    (∀ name ∈ constraint, ¬ Mentions name "to_account") →
    Refused attempts[n] ⟨statement (.appendTransfer m.fromId m.toId m.amount),
      .database text (some "23503") constraint⟩ →
    n + 1 = attempts.length ∧ result = .error (.accountNotFound m.fromId)
  endpoint : ∀ n (h : n < attempts.length) text (endpoint : Endpoint),
    Refused attempts[n] ⟨statement (.appendTransfer m.fromId m.toId m.amount),
      .database text (some "23503") (some endpoint.constraint)⟩ →
    n + 1 = attempts.length ∧ result = .error (.accountNotFound (endpoint.account m))
  internal : ∀ n (h : n < attempts.length) r, Refused attempts[n] r → ¬ r.error.IsConflict →
    r.error.sqlState? ≠ some "23503" →
    n + 1 = attempts.length ∧ ∃ text, result = .error (.internal text) ∧
      Mentions text r.error.message ∧
      ∀ told code constraint, r.error = .database told code constraint → Mentions text told

namespace Decides

variable {limit : Nat} {attempts : List (List Asked)} {n : Nat} {r : Refusal}

/-- A refusal after which no other attempt follows gives the answer. -/
theorem last (h : Decides m currency isolation limit attempts result) (hn : n < attempts.length)
    (hr : Refused attempts[n] r) (hstop : r.error.IsConflict → ¬ n + 1 < limit) :
    n + 1 = attempts.length ∧ Answers m attempts.length (.refused r) result := by
  have hlast : n + 1 = attempts.length := by
    by_contra hne
    obtain ⟨⟨r', hr', hconflict⟩, hlimit⟩ := (h.again n hn).mp (by omega)
    obtain ⟨ending, hattempted⟩ := h.each _ (List.getElem_mem hn)
    have hending := (hattempted.refused_iff r).mp hr
    rw [hattempted.refused_iff, hending, Ending.refused.injEq] at hr'
    exact hstop (hr' ▸ hconflict) hlimit
  refine ⟨hlast, (h.answer attempts[n] ?_).answers hr⟩
  rw [List.getLast?_eq_getElem?, ← hlast, Nat.add_sub_cancel, List.getElem?_eq_getElem hn]
  rfl

theorem exhausted (h : Decides m currency isolation limit attempts result)
    (hn : n < attempts.length) (hr : Refused attempts[n] r) (hconflict : r.error.IsConflict)
    (hlimit : n + 1 = limit) : n + 1 = attempts.length ∧ result = .error (.conflict limit) := by
  obtain ⟨hlast, hanswers⟩ := h.last hn hr fun _ => by omega
  rw [← hlast, hlimit] at hanswers
  cases hanswers with
  | exhausted => exact ⟨hlast, rfl⟩
  | refused other resolves => exact absurd hconflict other

/-- Any refusal but a conflict is the end. -/
theorem ends (h : Decides m currency isolation limit attempts result) (hn : n < attempts.length)
    (hr : Refused attempts[n] r) (hother : ¬ r.error.IsConflict) :
    n + 1 = attempts.length ∧ ∃ missing, Resolves m r.statement missing ∧
      result = .error (ofStoreError (r.error.translate missing)) := by
  obtain ⟨hlast, hanswers⟩ := h.last hn hr fun hconflict => absurd hconflict hother
  cases hanswers with
  | exhausted conflict => exact absurd conflict hother
  | refused other resolves => exact ⟨hlast, _, resolves, rfl⟩

/-- A transfer that the server refuses for a broken foreign key. -/
theorem transfer (h : Decides m currency isolation limit attempts result)
    (hn : n < attempts.length) {text : String} {constraint : Option String}
    (hr : Refused attempts[n] ⟨statement (.appendTransfer m.fromId m.toId m.amount),
      .database text (some "23503") constraint⟩) :
    n + 1 = attempts.length ∧ result =
      .error (.accountNotFound (DriverError.missingEndpoint m.fromId m.toId constraint)) := by
  obtain ⟨hlast, missing, hresolves, hresult⟩ :=
    h.ends hn hr (DriverError.not_isConflict_foreignKey text constraint)
  obtain rfl := hresolves.transfer rfl
  rw [DriverError.translate_foreignKey] at hresult
  exact ⟨hlast, hresult⟩

theorem explains (h : Decides m currency isolation limit attempts result) :
    Explains m limit attempts result := by
  constructor
  case exhausted =>
    intro n hn r hr hconflict hlimit
    exact h.exhausted hn hr hconflict hlimit
  case entry =>
    intro n hn id amount text constraint hr
    obtain ⟨hlast, missing, hresolves, hresult⟩ :=
      h.ends hn hr (DriverError.not_isConflict_foreignKey text constraint)
    obtain rfl := hresolves.entry rfl
    rw [DriverError.translate_foreignKey] at hresult
    exact ⟨hlast, hresult⟩
  case destination =>
    intro n hn text name hname hr
    have htransfer := h.transfer hn hr
    rwa [missingEndpoint_destination hname] at htransfer
  case source =>
    intro n hn text constraint hconstraint hr
    have htransfer := h.transfer hn hr
    rwa [missingEndpoint_source hconstraint] at htransfer
  case endpoint =>
    intro n hn text endpoint hr
    have htransfer := h.transfer hn hr
    rwa [endpoint.missingEndpoint_constraint] at htransfer
  case internal =>
    intro n hn r hr hconflict hkey
    obtain ⟨hlast, missing, -, hresult⟩ := h.ends hn hr hconflict
    rw [DriverError.translate_other hconflict hkey] at hresult
    have hmentions : Mentions (StoreError.internal r.error.message).message r.error.message := by
      have happend := mentions_append "Storage error: " r.error.message ""
      rwa [String.append_empty] at happend
    refine ⟨hlast, _, hresult, hmentions, ?_⟩
    intro told code constraint heq
    rw [heq] at hmentions ⊢
    exact hmentions.trans (DriverError.message_mentions told code constraint)

end Decides

/-- The errors of the driver decide how a transfer over a server goes. Every attempt begins a
transaction, and another one follows if the server has refused a statement with the code of a
serialization failure or of a deadlock and attempts are left, and only then; when none is left the
answer is a conflict that counts them. Any other refusal is the end: a broken foreign key tells
which account is missing, and any other error is told in the words of the driver. After a refusal
nothing is committed. A request of the wrong form sends nothing at all. -/
theorem driver_errors_decide (server : Server σ) (isolation : Isolation) (c : Connection σ)
    (r : TransferRequest) (p : RetryPolicy) :
    match r.validate with
    | .error e =>
      ((r.execute p).runOn (store server isolation) c).state = c ∧
        ((r.execute p).runOn (store server isolation) c).settled = .answered (.error e)
    | .ok o =>
      ∃ attempts result,
        server.Says c attempts.flatten ((r.execute p).runOn (store server isolation) c).state ∧
        ((r.execute p).runOn (store server isolation) c).state.received =
          (attempts.flatten.map (·.statement)).reverse ++ c.received ∧
        ((r.execute p).runOn (store server isolation) c).state.received.count (command "BEGIN") =
          attempts.length + c.received.count (command "BEGIN") ∧
        ((r.execute p).runOn (store server isolation) c).settled = .answered result ∧
        Decides r.movement o.currency isolation (max 1 p.maxAttempts) attempts result ∧
        Explains r.movement (max 1 p.maxAttempts) attempts result ∧
        ∀ xs ∈ attempts, Begins xs ∧ Abandons xs := by
  unfold TransferRequest.execute
  cases hvalid : r.validate with
  | error e => exact ⟨rfl, rfl⟩
  | ok o =>
    have hasks := TransferRequest.asks_of_validate hvalid
    have hmovement : r.movement = o.toMovement := by
      rw [TransferRequest.movement, hasks.fromId, hasks.toId, hasks.amount]
    obtain ⟨attempts, result, hsays, hsettled, hdecides⟩ := order_decides o p server isolation c
    rw [← hmovement] at hdecides
    have hbegins : ∀ xs ∈ attempts, Begins xs := by
      intro xs hxs
      obtain ⟨ending, hattempted⟩ := hdecides.each xs hxs
      exact hattempted.begins
    have hreceived := hsays.received
    refine ⟨attempts, result, hsays, hreceived, ?_, hsettled, hdecides, hdecides.explains,
      fun xs hxs => ⟨hbegins xs hxs, ?_⟩⟩
    · rw [hreceived, List.count_append, List.count_reverse, count_begin hbegins]
    · obtain ⟨ending, hattempted⟩ := hdecides.each xs hxs
      exact hattempted.abandons

/-- The rows of the first two accounts, with a balance of 100 cents each. -/
def twoRows : List ScriptedReply :=
  [.rows none [[.number 1, .text "alice", .number 100, .text "USD"]],
    .rows none [[.number 2, .text "bob", .number 100, .text "USD"]]]

/-- A server that gives up one transaction for a deadlock as soon as it is begun, and the next one
for a serialization failure at the first balance, and that no longer has the account of the credit
when the third one records the transfer. -/
def contended : ScriptState :=
  ⟨twoRows ++ [.failure (.database "could not serialize access" (some "40001") none)] ++
      twoRows ++ twoRows ++
      [.rows none [[.number 1, .number 1, .number (-25)]],
        .rows none [[.number 2, .number 2, .number 25]],
        .failure (.database "violates foreign key constraint" (some "23503")
          (some "transfers_to_account_id_fkey"))],
    [("BEGIN", [.database "deadlock detected" (some "40P01") none])]⟩

set_option maxRecDepth 8000 in
/-- On that server the loan is attempted three times: the first two attempts end with conflicts, and
the third one tells which account is missing. With two attempts to make it would end with a
conflict. -/
theorem loan_retried_on_server :
    (∃ attempts : List (List Asked), attempts.length = 3 ∧
      scripted.Says ⟨contended, []⟩ attempts.flatten
        ((loan.execute thrice).runOn (store scripted .usual) ⟨contended, []⟩).state ∧
      ∀ n (h : n < attempts.length),
        (∃ r, Refused attempts[n] r ∧ r.error.IsConflict) ↔ n < 2) ∧
    ((loan.execute thrice).runOn (store scripted .usual) ⟨contended, []⟩).settled =
      .answered (.error (.accountNotFound 2)) ∧
    ((loan.execute (.of 2 .zero .zero)).runOn (store scripted .usual) ⟨contended, []⟩).settled =
      .answered (.error (.conflict 2)) := by
  obtain ⟨attempts, result, hsays, -, hcount, hsettled, hdecides, hexplains, -⟩ :=
    driver_errors_decide scripted .usual ⟨contended, []⟩ loan thrice
  have hthird : ((loan.execute thrice).runOn (store scripted .usual) ⟨contended, []⟩).settled =
      .answered (.error (.accountNotFound 2)) := by rfl
  have hbegun : ((loan.execute thrice).runOn (store scripted .usual)
      ⟨contended, []⟩).state.received.count (command "BEGIN") = 3 := by rfl
  have hlength : attempts.length = 3 := hcount.symm.trans hbegun
  refine ⟨⟨attempts, hlength, hsays, fun n hn => ?_⟩, hthird, by rfl⟩
  constructor
  · -- A conflict in the third attempt would have been the answer.
    rintro ⟨r, hr, hconflict⟩
    by_contra hlast
    obtain rfl : n = 2 := by omega
    obtain ⟨-, rfl⟩ := hexplains.exhausted 2 hn r hr hconflict rfl
    cases hsettled.symm.trans hthird
  · intro hlt
    exact ((hdecides.again n hn).mp (by omega)).1

end FundsLedger.Postgres
