import FundsLedger.Proofs.Timeless

/-!
Operations that do not look at times. Two pieces of work are alike if they make the same calls as
long as they are answered the same but for times, and end the same but for times; two processes are
alike if they also open and end their units of work at the same places. The statement about all
operations is `Operation.process_alike`: each is like itself, whatever times its answers have.
-/

namespace FundsLedger

variable {ε α β γ δ : Type} {f : α → γ} {g : β → δ}

/-- Results that are the same after a change of what they hold are the same failure or two
successes. -/
theorem cases_of_map_eq {r r' : Except ε α} (h : r.map f = r'.map f) :
    (∃ e, r = .error e ∧ r' = .error e) ∨ ∃ a a', r = .ok a ∧ r' = .ok a' ∧ f a = f a' := by
  cases r with
  | error e =>
    cases r' with
    | error e' =>
      cases h
      exact Or.inl ⟨e, rfl, rfl⟩
    | ok a' => cases h
  | ok a =>
    cases r' with
    | error e' => cases h
    | ok a' => exact Or.inr ⟨a, a', rfl, rfl, Except.ok.inj h⟩

/-! ## Work -/

namespace Work

/-- The two pieces of work differ only in what they know of times: `f` takes the times out of what
they end with. -/
inductive Alike (f : α → γ) : Work ε α → Work ε α → Prop
  | done {r r' : Except ε α} (same : r.map f = r'.map f) : Alike f (done r) (done r')
  | call {c : Call} {next next' : c.Result → Work ε α}
      (rest : ∀ r r', r.map c.timeless = r'.map c.timeless → Alike f (next r) (next' r')) :
      Alike f (call c next) (call c next')
  | note {event event' : Event} {w w' : Work ε α} (rest : Alike f w w') :
      Alike f (note event w) (note event' w')
  | panic (message : String) : Alike f (panic message) (panic message)

namespace Alike

theorem pure {a a' : α} (h : f a = f a') : (Pure.pure a : Work ε α).Alike f (Pure.pure a') :=
  .done (congrArg Except.ok h)

theorem fail (f : α → γ) (e : ε) : (Work.fail e : Work ε α).Alike f (Work.fail e) := .done rfl

theorem bind {w w' : Work ε α} {k k' : α → Work ε β} (h : w.Alike f w')
    (hk : ∀ a a', f a = f a' → (k a).Alike g (k' a')) : (w >>= k).Alike g (w' >>= k') := by
  change (w.bind k).Alike g (w'.bind k')
  induction h with
  | done same =>
    rcases cases_of_map_eq same with ⟨e, rfl, rfl⟩ | ⟨a, a', rfl, rfl, ha⟩
    · exact .fail g e
    · exact hk a a' ha
  | call rest ih => exact .call ih
  | note rest ih => exact .note ih
  | panic message => exact .panic message

theorem ask [OfStoreError ε] (c : Call) :
    (Work.ask c : Work ε c.Answer).Alike c.timeless (Work.ask c) := by
  refine .call fun r r' h => .done ?_
  rcases cases_of_map_eq h with ⟨e, rfl, rfl⟩ | ⟨a, a', rfl, rfl, ha⟩
  · rfl
  · exact congrArg Except.ok ha

theorem report (event : Event) :
    (Work.report event : Work ε Unit).Alike (id : Unit → Unit) (Work.report event) :=
  .note (.pure rfl)

theorem require (condition : Prop) [Decidable condition] (e : ε) :
    (Work.require condition e).Alike (id : Unit → Unit) (Work.require condition e) := by
  unfold Work.require
  split
  · exact .pure rfl
  · exact .fail id e

end Alike
end Work

/-! ## Processes -/

namespace Process

/-- The two processes differ only in what they know of times: `f` takes the times out of their
answers. Both have a unit of work open, or neither has. -/
inductive Alike (f : α → γ) : Bool → Process α → Process α → Prop
  | done {a a' : α} (same : f a = f a') : Alike f false (done a) (done a')
  | begin {next next' : Except StoreError Unit → Process α}
      (rest : Alike f true (next (.ok ())) (next' (.ok ()))) :
      Alike f false (ask .begin next) (ask .begin next')
  | call {c : Call} {next next' : c.Result → Process α}
      (rest : ∀ r r', r.map c.timeless = r'.map c.timeless → Alike f true (next r) (next' r')) :
      Alike f true (ask (.call c) next) (ask (.call c) next')
  | commit {next next' : Except StoreError Unit → Process α}
      (rest : ∀ r, Alike f false (next r) (next' r)) :
      Alike f true (ask .commit next) (ask .commit next')
  | rollback {next next' : Except StoreError Unit → Process α}
      (rest : Alike f false (next (.ok ())) (next' (.ok ()))) :
      Alike f true (ask .rollback next) (ask .rollback next')
  | note {isOpen : Bool} {event event' : Event} {p p' : Process α} (rest : Alike f isOpen p p') :
      Alike f isOpen (note event p) (note event' p')
  | sleep {longest : Duration} {p p' : Process α} (rest : Alike f false p p') :
      Alike f false (sleep longest p) (sleep longest p')
  | panic (isOpen : Bool) (message : String) : Alike f isOpen (panic message) (panic message)

namespace Alike

theorem bind {isOpen : Bool} {p p' : Process α} {k k' : α → Process β} (h : p.Alike f isOpen p')
    (hk : ∀ a a', f a = f a' → (k a).Alike g false (k' a')) :
    (p.bind k).Alike g isOpen (p'.bind k') := by
  induction h with
  | done same => exact hk _ _ same
  | begin rest ih => exact .begin ih
  | call rest ih => exact .call ih
  | commit rest ih => exact .commit ih
  | rollback rest ih => exact .rollback ih
  | note rest ih => exact .note ih
  | sleep rest ih => exact .sleep ih
  | panic isOpen message => exact .panic isOpen message

theorem map {p p' : Process α} {k : α → β} (h : p.Alike f false p')
    (hk : ∀ a a', f a = f a' → g (k a) = g (k a')) : (p.map k).Alike g false (p'.map k) :=
  h.bind fun a a' ha => .done (hk a a' ha)

end Alike
end Process

namespace Work.Alike

variable [OfStoreError ε] {w w' : Work ε α}

theorem finishing (h : w.Alike f w') : w.finishing.Alike (Except.map f) true w'.finishing := by
  induction h with
  | done same =>
    rcases cases_of_map_eq same with ⟨e, rfl, rfl⟩ | ⟨a, a', rfl, rfl, ha⟩
    · exact .rollback (.note (.done rfl))
    · refine .commit fun r => ?_
      cases r with
      | ok => exact .done (congrArg Except.ok ha)
      | error e => exact .done rfl
  | call rest ih => exact .call ih
  | note rest ih => exact .note ih
  | panic message => exact .panic true message

theorem atomically (h : w.Alike f w') : w.atomically.Alike (Except.map f) false w'.atomically :=
  .begin h.finishing

end Work.Alike

/-! ## Accounts -/

namespace Accounts

theorem openingWork_alike (owner : String) (currency : Currency) (deposit : Amount) :
    (openingWork owner currency deposit).Alike Account.timeless
      (openingWork owner currency deposit) := by
  refine .bind (.ask _) fun a a' ha => ?_
  obtain ⟨t, rfl⟩ := Account.timeless_eq_iff.mp ha
  dsimp only
  split
  · exact .pure ha
  · refine .bind (.ask _) fun b b' hb => ?_
    obtain ⟨t', rfl⟩ := Account.timeless_eq_iff.mp hb
    exact .bind (.ask _) fun _ _ _ => .pure hb

theorem openAccount_alike (owner currency : String) (deposit : Amount) :
    (openAccount owner currency deposit).Alike (Except.map Account.timeless) false
      (openAccount owner currency deposit) := by
  unfold openAccount
  split
  · exact .done rfl
  · refine .bind (openingWork_alike owner _ deposit).atomically fun r r' hr => ?_
    rcases cases_of_map_eq hr with ⟨e, rfl, rfl⟩ | ⟨a, a', rfl, rfl, ha⟩
    · exact .done rfl
    · exact .note (.done hr)

theorem getAccount_alike (id : AccountId) :
    (getAccount id).Alike (Except.map Account.timeless) false (getAccount id) :=
  Work.Alike.atomically (.ask (.getAccount id))

theorem listAccounts_alike (owner : String) (pageId pageSize : Int) :
    (listAccounts owner pageId pageSize).Alike (Except.map (List.map Account.timeless)) false
      (listAccounts owner pageId pageSize) := by
  unfold listAccounts
  split
  · exact .done rfl
  · exact Work.Alike.atomically (.ask (.listByOwner owner _))

end Accounts

/-! ## Transfers -/

namespace TransferOrder

theorem attempt_alike (o : TransferOrder) : o.attempt.Alike Receipt.timeless o.attempt := by
  unfold attempt
  obtain ⟨first, second⟩ := lockOrder o.fromId o.toId
  dsimp only
  refine .bind (.report _) fun _ _ _ => ?_
  refine .bind (.ask _) fun a a' ha => .bind (.ask _) fun b b' hb => ?_
  obtain ⟨t, rfl⟩ := Account.timeless_eq_iff.mp ha
  obtain ⟨t', rfl⟩ := Account.timeless_eq_iff.mp hb
  -- Whichever of the two rows was locked first, the accounts take the same parts.
  obtain ⟨source, destination, ts, td, hparts, hparts'⟩ : ∃ source destination ts td,
      (if first = o.fromId then (a, b) else (b, a)) = (source, destination) ∧
        (if first = o.fromId then
          (({ a with createdAt := t } : Account), ({ b with createdAt := t' } : Account))
        else ({ b with createdAt := t' }, { a with createdAt := t })) =
          ({ source with createdAt := ts }, { destination with createdAt := td }) := by
    split
    · exact ⟨a, b, t, t', rfl, rfl⟩
    · exact ⟨b, a, t', t, rfl, rfl⟩
  rw [hparts, hparts']
  dsimp only
  refine .bind (.require _ _) fun _ _ _ => .bind (.require _ _) fun _ _ _ => ?_
  refine .bind (.require _ _) fun _ _ _ => .bind (.require _ _) fun _ _ _ => ?_
  refine .bind (.ask _) fun fromAccount fromAccount' hfromAccount => ?_
  refine .bind (.ask _) fun toAccount toAccount' htoAccount => ?_
  refine .bind (.ask _) fun fromEntry fromEntry' hfromEntry => ?_
  refine .bind (.ask _) fun toEntry toEntry' htoEntry => ?_
  refine .bind (.ask _) fun transfer transfer' htransfer => .pure ?_
  simp only [Call.timeless] at hfromAccount htoAccount hfromEntry htoEntry htransfer
  simp only [Receipt.timeless, hfromAccount, htoAccount, hfromEntry, htoEntry, htransfer]

theorem executeFrom_alike (o : TransferOrder) (policy : RetryPolicy) (attempt left : Nat) :
    (o.executeFrom policy attempt left).Alike (Except.map Receipt.timeless) false
      (o.executeFrom policy attempt left) := by
  induction left generalizing attempt with
  | zero =>
    refine .bind o.attempt_alike.atomically fun r r' hr => ?_
    rcases cases_of_map_eq hr with ⟨e, rfl, rfl⟩ | ⟨a, a', rfl, rfl, ha⟩
    · dsimp only
      split <;> exact .note (.done rfl)
    · exact .note (.done hr)
  | succ left ih =>
    refine .bind o.attempt_alike.atomically fun r r' hr => ?_
    rcases cases_of_map_eq hr with ⟨e, rfl, rfl⟩ | ⟨a, a', rfl, rfl, ha⟩
    · dsimp only
      split
      · exact .note (.sleep (ih (attempt + 1)))
      · exact .note (.done rfl)
    · exact .note (.done hr)

end TransferOrder

theorem TransferRequest.execute_alike (r : TransferRequest) (policy : RetryPolicy) :
    (r.execute policy).Alike (Except.map Receipt.timeless) false (r.execute policy) := by
  unfold execute
  split
  · exact TransferOrder.executeFrom_alike _ policy 1 _
  · exact .done rfl

/-! ## Inquiries -/

/-- Trying again does not look at times if no attempt does. -/
theorem RetryPolicy.retryFrom_alike {policy : RetryPolicy}
    {op : Nat → Process (Except TransferError α)}
    (hop : ∀ n, (op n).Alike (Except.map f) false (op n)) (attempt left : Nat) :
    (policy.retryFrom op attempt left).Alike (fun r => r.result.map f) false
      (policy.retryFrom op attempt left) := by
  induction left generalizing attempt with
  | zero =>
    refine .bind (hop attempt) fun r r' hr => ?_
    rcases cases_of_map_eq hr with ⟨e, rfl, rfl⟩ | ⟨a, a', rfl, rfl, ha⟩
    · exact .done rfl
    · exact .done hr
  | succ left ih =>
    refine .bind (hop attempt) fun r r' hr => ?_
    rcases cases_of_map_eq hr with ⟨e, rfl, rfl⟩ | ⟨a, a', rfl, rfl, ha⟩
    · dsimp only
      split
      · exact .note (.sleep (ih (attempt + 1)))
      · exact .done rfl
    · exact .done hr

namespace Inquiries

theorem getTransfer_alike (id : TransferId) :
    (getTransfer id).Alike (Except.map Transfer.timeless) false (getTransfer id) := by
  refine Work.Alike.atomically (.bind (.ask _) fun found found' h => ?_)
  cases found with
  | none =>
    cases found' with
    | none => exact .fail _ _
    | some t' => cases h
  | some t =>
    cases found' with
    | none => cases h
    | some t' => exact .pure (Option.some.inj h)

theorem listTransfers_alike (fromId toId : AccountId) (pageId pageSize : Int) :
    (listTransfers fromId toId pageId pageSize).Alike (Except.map (List.map Transfer.timeless))
      false (listTransfers fromId toId pageId pageSize) := by
  unfold listTransfers
  split
  · exact .done rfl
  · exact Work.Alike.atomically (.ask (.listTransfers fromId toId _))

theorem listEntries_alike (accountId : AccountId) (pageId pageSize : Int) :
    (listEntries accountId pageId pageSize).Alike (Except.map (List.map Entry.timeless)) false
      (listEntries accountId pageId pageSize) := by
  unfold listEntries
  split
  · exact .done rfl
  · exact Work.Alike.atomically (.bind (.ask _) fun _ _ _ => .ask (.listEntries accountId _))

theorem reconcile_alike (policy : RetryPolicy) (accountId : AccountId) :
    (reconcile policy accountId).Alike id false (reconcile policy accountId) := by
  have honce : (reconcileOnce accountId).Alike id (reconcileOnce accountId) := by
    refine .bind (.ask _) fun a a' ha => .bind (.ask _) fun sum sum' hsum => ?_
    obtain ⟨t, rfl⟩ := Account.timeless_eq_iff.mp ha
    obtain rfl : sum = sum' := hsum
    exact .pure rfl
  refine .map (RetryPolicy.retryFrom_alike (fun _ => honce.atomically) 1 _) fun r r' hr => ?_
  simpa using hr

end Inquiries

/-! ## Scripts -/

namespace Script

/-- Which kind of failure a note has is no matter of times. -/
theorem liftNotes_timeless (lift : ε → Failure) (notes : List (Noted ε)) :
    (liftNotes lift notes).map Noted.timeless = liftNotes lift (notes.map Noted.timeless) := by
  rw [liftNotes, liftNotes, List.map_map, List.map_map]
  apply List.map_congr_left
  rintro ⟨c, r⟩ -
  cases r <;> rfl

theorem liftResult_alike (lift : ε → Failure) {r r' : Except ε (List (Noted ε))}
    (h : r.map (List.map Noted.timeless) = r'.map (List.map Noted.timeless)) :
    (liftResult lift r).map (List.map Noted.timeless) =
      (liftResult lift r').map (List.map Noted.timeless) := by
  rcases cases_of_map_eq h with ⟨e, rfl, rfl⟩ | ⟨notes, notes', rfl, rfl, hnotes⟩
  · rfl
  · show Except.ok _ = Except.ok _
    rw [liftNotes_timeless, liftNotes_timeless, hnotes]

variable [OfStoreError ε]

theorem making_alike (keepGoing : Bool) (calls : List Call) :
    (making keepGoing calls : Work ε (List (Noted ε))).Alike (List.map Noted.timeless)
      (making keepGoing calls) := by
  induction calls with
  | nil => exact .pure rfl
  | cons c rest ih =>
    refine .call fun r r' h => ?_
    have hgoes : ∀ n n' : Noted ε, n.timeless = n'.timeless →
        ((making keepGoing rest).bind fun others => pure (n :: others)).Alike
          (List.map Noted.timeless)
          ((making keepGoing rest).bind fun others => pure (n' :: others)) := by
      intro n n' hn
      refine .bind ih fun others others' hothers => .pure ?_
      rw [List.map_cons, List.map_cons, hn, hothers]
    rcases cases_of_map_eq h with ⟨e, rfl, rfl⟩ | ⟨a, a', rfl, rfl, ha⟩
    -- A failed call ends the script, unless that is to go on.
    · cases keepGoing with
      | false => exact .fail _ _
      | true => exact hgoes _ _ rfl
    · have hnoted : (⟨c, .ok a⟩ : Noted ε).timeless = (⟨c, .ok a'⟩ : Noted ε).timeless := by
        simp only [Noted.timeless, Except.map, ha]
      cases keepGoing with
      | false => exact hgoes _ _ hnoted
      | true => exact hgoes _ _ hnoted

theorem work_alike (s : Script) :
    (s.work : Work ε (List (Noted ε))).Alike (List.map Noted.timeless) s.work := by
  refine .bind (making_alike s.keepGoing s.calls) fun noted noted' h => ?_
  cases s.ending with
  | succeed => exact .pure h
  | fail => exact .fail _ _
  | panic => exact .panic _

theorem atomically_alike (s : Script) (kind : FailureKind) :
    (s.atomically kind).Alike (Except.map (List.map Noted.timeless)) false (s.atomically kind) := by
  cases kind with
  | store => exact .map s.work_alike.atomically fun _ _ => liftResult_alike _
  | account => exact .map s.work_alike.atomically fun _ _ => liftResult_alike _
  | transfer => exact .map s.work_alike.atomically fun _ _ => liftResult_alike _

end Script

/-! ## Operations -/

/-- No operation looks at times. -/
theorem Operation.process_alike (op : Operation) (policy : RetryPolicy) :
    (op.process policy).Alike Answer.timeless false (op.process policy) := by
  cases op with
  | openAccount owner currency deposit =>
    exact (Accounts.openAccount_alike owner currency deposit).map fun _ _ =>
      congrArg Answer.account
  | getAccount id => exact (Accounts.getAccount_alike id).map fun _ _ => congrArg Answer.account
  | listAccounts owner pageId pageSize =>
    exact (Accounts.listAccounts_alike owner pageId pageSize).map fun _ _ =>
      congrArg Answer.accounts
  | transfer request limit =>
    exact (request.execute_alike policy).map fun _ _ => congrArg Answer.receipt
  | getTransfer id =>
    exact (Inquiries.getTransfer_alike id).map fun _ _ => congrArg Answer.transfer
  | listTransfers fromId toId pageId pageSize =>
    exact (Inquiries.listTransfers_alike fromId toId pageId pageSize).map fun _ _ =>
      congrArg Answer.transfers
  | listEntries accountId pageId pageSize =>
    exact (Inquiries.listEntries_alike accountId pageId pageSize).map fun _ _ =>
      congrArg Answer.entries
  | reconcile accountId =>
    exact (Inquiries.reconcile_alike policy accountId).map fun _ _ =>
      congrArg Answer.reconciliation
  | script kind s => exact (s.atomically_alike kind).map fun _ _ => congrArg Answer.script

end FundsLedger
