import FundsLedger.Proofs.Transfer.Linearizable

/-!
A transfer happens exactly once or not at all. A call that succeeds has committed once, and what it
has committed is the transfer, its two entries and its two balances; a call that ends in any other
way, wherever it is cut short or dropped, has committed nothing. Either way it is rid of every row
that it has ever asked for, and a call that commits in a poll succeeds in that poll.
-/

namespace FundsLedger

/-- The second books are the first ones with one transfer more, its two entries and the two balances
that it changes. -/
structure TransferRequest.Posted (r : TransferRequest) (receipt : Receipt) (before after : Books) :
    Prop where
  transfers : after.transfers = before.transfers.insert receipt.transfer.id receipt.transfer
  newTransfer : before.transfers.find? receipt.transfer.id = none
  moves : receipt.transfer.fromId = r.fromId ∧ receipt.transfer.toId = r.toId ∧
    receipt.transfer.amount = r.amount
  entries : after.entries = (before.entries.insert receipt.fromEntry.id receipt.fromEntry).insert
    receipt.toEntry.id receipt.toEntry
  newEntries : before.entries.find? receipt.fromEntry.id = none ∧
    before.entries.find? receipt.toEntry.id = none ∧ receipt.fromEntry.id ≠ receipt.toEntry.id
  debit : receipt.fromEntry.accountId = r.fromId ∧ receipt.fromEntry.amount.units = -r.amount.units
  credit : receipt.toEntry.accountId = r.toId ∧ receipt.toEntry.amount.units = r.amount.units
  accounts : after.accounts =
    (before.accounts.insert r.fromId receipt.fromAccount).insert r.toId receipt.toAccount
  source : ∃ a, before.accounts.find? r.fromId = some a ∧ receipt.fromAccount.Same a ∧
    receipt.fromAccount.balance.units = a.balance.units - r.amount.units
  destination : ∃ a, before.accounts.find? r.toId = some a ∧ receipt.toAccount.Same a ∧
    receipt.toAccount.balance.units = a.balance.units + r.amount.units

/-- What the reference writes under new identifiers is one transfer more. -/
theorem TransferRequest.posted_of_serial {r : TransferRequest} {k : Stamps} {b : Books}
    {receipt : Receipt} (h : r.serial k b = (.ok receipt, receipt.post b)) (hnew : k.NewTo b) :
    r.Posted receipt b (receipt.post b) := by
  obtain ⟨-, source, destination, hamount, hfunds, hroom, hsource, hdestination, -, rfl, -⟩ :=
    serial_eq_ok h
  exact ⟨rfl, hnew.transfer, ⟨rfl, rfl, rfl⟩, rfl, ⟨hnew.debit, hnew.credit, hnew.distinct⟩,
    ⟨rfl, rfl⟩, ⟨rfl, rfl⟩, rfl, ⟨source, hsource, ⟨rfl, rfl, rfl, rfl⟩, rfl⟩,
    ⟨destination, hdestination, ⟨rfl, rfl, rfl, rfl⟩, rfl⟩⟩

/-- What a call has committed fits how it has ended: success has committed the transfer once, any
error nothing, and nothing has been committed if the call was dropped. -/
def TransferRequest.Accounted (r : TransferRequest) (published : List (Books × Books)) :
    Option (Settled Answer) → Prop
  | some (.answered (.receipt (.ok receipt))) =>
    ∃ before after, published = [(before, after)] ∧ r.Posted receipt before after
  | some (.answered (.receipt (.error _))) => published = []
  | none => published = []
  | _ => False

namespace Service

open Ledger

variable {s : Service} {t : Service × TaskId} {request : TransferRequest} {limit : Limit}
variable {actions : List Action} {last : Action} {id : TaskId} {h : History}
variable {K : Rules} {post : History → Answer → Prop}

/-- What a transfer has published by its end fits how it ends. -/
theorem Ends.accounted {how : Option (Settled Answer)}
    (he : s.Ends request.Concluded id h last how) :
    request.Accounted h.published.toList how ∧ (how = none → last = .abort id) := by
  cases he with
  | answered answers =>
    obtain ⟨answer, rfl, houtcome⟩ := answers
    refine ⟨?_, nofun⟩
    cases answer with
    | ok receipt =>
      obtain ⟨b, k, hpublished, hnew, hserial⟩ := houtcome
      exact ⟨b, receipt.post b, by rw [hpublished]; rfl, request.posted_of_serial hserial hnew⟩
    | error e =>
      show h.published.toList = []
      rw [houtcome.1]
      rfl
  | interrupted proper unpublished =>
    refine ⟨?_, nofun⟩
    show h.published.toList = []
    rw [unpublished]
    rfl
  | dropped unpublished =>
    refine ⟨?_, fun _ => rfl⟩
    show h.published.toList = []
    rw [unpublished]
    rfl

/-- The end of a transfer that was still there before the last step of a run. -/
theorem Reachable.transfer_end (hs : s.Reachable) (ht : s.submit (.transfer request limit) = t)
    (hlive : ((t.1.run actions).tasks.find? t.2).isSome)
    (hgone : ((t.1.run actions).step last).tasks.find? t.2 = none)
    (hrange : (t.1.run (actions ++ [last])).ledger.drawn.InRange) :
    request.Accounted (t.1.publications t.2 (actions ++ [last]))
        ((t.1.run actions).ended? t.2 last) ∧
      ((t.1.run actions).ended? t.2 last = none → last = .abort t.2) ∧
      ∀ u, t.1.Had t.2 (actions ++ [last]) u → (t.1.run (actions ++ [last])).ledger.Over u := by
  have hlawful := hs.lawful.of_submit ht
  have hrange' := hlawful.inRange_of_append hrange
  obtain ⟨-, hcame⟩ := hs.transfer_came ht hrange'
  cases hcame with
  | past past =>
    rw [past.absent] at hlive
    cases hlive
  | @following h hc hf hfreed =>
    obtain ⟨hends, hstopped⟩ := hf.ends (hlawful.run actions) hrange' hgone
    obtain ⟨haccounted, hdropped⟩ := hends.accounted
    refine ⟨?_, hdropped, fun u hu => ?_⟩
    -- The end itself publishes nothing, so what counts is the history until then.
    · rw [(hc.stopped hstopped).publications]
      exact haccounted
    · have hcame : t.1.Came Rules.accounting request.Concluded t.2 (actions ++ [last]) :=
        .stopped hlawful hlive hfreed hstopped
      exact hcame.released (by rw [run_concat]; exact hgone) hu

/-- If something is committed in turns of a task alone, the task publishes. -/
theorem publications_ne_nil {as : List Action} (has : ∀ a ∈ as, a.turn? = some id)
    (hcommits : s.Commits (s.run as)) : s.publications id as ≠ [] := by
  induction as generalizing s with
  | nil => exact absurd hcommits (not_commits_self s)
  | cons a as ih =>
    intro hnil
    simp only [publications, List.append_eq_nil_iff] at hnil
    obtain ⟨hfirst, hrest⟩ := hnil
    have hquiet : ¬ s.Commits (s.step a) := by
      intro hstep
      rw [if_pos ⟨has a List.mem_cons_self, hstep⟩] at hfirst
      cases hfirst
    refine ih (fun a ha => has a (List.mem_cons_of_mem _ ha)) ?_ hrest
    have hsame : (s.step a).ledger.books = s.ledger.books ∧
        (s.step a).ledger.commits = s.ledger.commits := by
      constructor
      · exact Classical.byContradiction fun hne => hquiet (Or.inl hne)
      · exact Classical.byContradiction fun hne => hquiet (Or.inr hne)
    rcases hcommits with hne | hne
    · left
      rw [hsame.1]
      exact hne
    · right
      rw [hsame.2]
      exact hne

theorem turn?_of_mem_turns {n : Nat} {a : Action} (ha : a ∈ turns id n) : a.turn? = some id := by
  rw [List.eq_of_mem_replicate ha]
  rfl

/-- A task that has published does not pause. -/
theorem Came.publications_eq_nil (hcame : s.Came K post id actions) {t : Task}
    (ht : (s.run actions).tasks.find? id = some t) (hpauses : t.process.Pauses) :
    s.publications id actions = [] := by
  obtain ⟨h, hc, t', view, ht', -, hk⟩ := hcame.live (by rw [ht]; rfl)
  rw [ht] at ht'
  cases ht'
  refine hc.unpublished (hk.unpublished (fun event rest hp => ?_) fun a hp => ?_)
  · rw [hp] at hpauses
    exact hpauses
  · rw [hp] at hpauses
    exact hpauses

/-- If something is committed in the last turns of a transfer, the transfer succeeds. -/
theorem Reachable.transfer_succeeds (hs : s.Reachable)
    (ht : s.submit (.transfer request limit) = t) {n : Nat} {how : Settled Answer}
    (hended : (t.1.run (actions ++ turns t.2 n)).ended? t.2 (.advance t.2) = some how)
    (hrange : (t.1.run (actions ++ turns t.2 n ++ [.advance t.2])).ledger.drawn.InRange)
    (hcommits : (t.1.run actions).Commits
      (t.1.run (actions ++ turns t.2 n ++ [.advance t.2]))) :
    ∃ receipt, how = .answered (.receipt (.ok receipt)) := by
  obtain ⟨hlive, hgone⟩ := gone_of_ended hended
  have haccounted := (hs.transfer_end ht hlive hgone hrange).1
  rw [hended] at haccounted
  have hpublished : t.1.publications t.2 (actions ++ turns t.2 n ++ [.advance t.2]) ≠ [] := by
    rw [List.append_assoc, publications_append]
    rw [List.append_assoc, run_append] at hcommits
    intro hnil
    refine publications_ne_nil (fun a ha => ?_) hcommits (List.append_eq_nil_iff.mp hnil).2
    rcases List.mem_append.mp ha with ha | ha
    · exact turn?_of_mem_turns ha
    · rw [List.mem_singleton.mp ha]
      rfl
  -- Every other end would mean that nothing has been published.
  cases how with
  | panicked message => exact haccounted.elim
  | answered answer =>
    cases answer with
    | receipt result =>
      cases result with
      | ok receipt => exact ⟨receipt, rfl⟩
      | error e => exact absurd haccounted hpublished
    | _ => exact haccounted.elim

/-- A transfer that has to pause has committed nothing in its last turns, and an interrupt commits
nothing. -/
theorem Reachable.transfer_pauses (hs : s.Reachable)
    (ht : s.submit (.transfer request limit) = t) {n : Nat} {task : Task}
    (htask : (t.1.run (actions ++ turns t.2 n)).tasks.find? t.2 = some task)
    (hpauses : task.process.Pauses)
    (hrange : (t.1.run (actions ++ turns t.2 n)).ledger.drawn.InRange) :
    ¬ (t.1.run actions).Commits ((t.1.run (actions ++ turns t.2 n)).interrupt t.2).1 := by
  intro hcommits
  obtain ⟨hlawful, hcame⟩ := hs.transfer_came ht hrange
  have hnil := hcame.publications_eq_nil htask hpauses
  rw [publications_append, List.append_eq_nil_iff] at hnil
  refine absurd hnil.2 (publications_ne_nil (fun a ha => turn?_of_mem_turns ha) ?_)
  rw [← run_append]
  obtain ⟨h, -, hf⟩ := hcame.live (by rw [htask]; rfl)
  rcases hf.interrupt (hlawful.run _) with ⟨heq, -⟩ | ⟨-, hstopped, -⟩
  · rwa [heq] at hcommits
  · rcases hcommits with hne | hne
    · left
      rwa [hstopped.books] at hne
    · right
      rwa [hstopped.commits] at hne

/-- A transfer that commits in a poll succeeds in that poll. -/
theorem Reachable.transfer_poll (hs : s.Reachable) (ht : s.submit (.transfer request limit) = t)
    (hrange : ((t.1.run actions).poll t.2).1.ledger.drawn.InRange)
    (hcommits : (t.1.run actions).Commits ((t.1.run actions).poll t.2).1) :
    ∃ receipt, ((t.1.run actions).poll t.2).2.2 =
      some (.answered (.receipt (.ok receipt))) := by
  have hlawful := hs.lawful.of_submit ht
  cases poll_polls (t.1.run actions) t.2 with
  | absent task same =>
    rw [same] at hcommits
    exact absurd hcommits (not_commits_self _)
  | @ended n how last hhow =>
    have hrun : (((t.1.run actions).run (turns t.2 n)).advance t.2).1 =
        t.1.run (actions ++ turns t.2 n ++ [.advance t.2]) := by
      rw [run_concat, run_append]
      rfl
    rw [last, hrun] at hrange hcommits
    have hended : (t.1.run (actions ++ turns t.2 n)).ended? t.2 (.advance t.2) = some how := by
      rw [run_append, ended?, if_pos rfl]
      exact hhow.2
    obtain ⟨receipt, rfl⟩ := hs.transfer_succeeds ht hended hrange hcommits
    exact ⟨receipt, hhow.1⟩
  | @paused n task found pauses last =>
    rw [last, ← run_append] at hrange hcommits
    rw [← run_append] at found
    have hrange' : (t.1.run (actions ++ turns t.2 n)).ledger.drawn.InRange :=
      hrange.of_upTo ((interrupt_goes _ t.2).ledger_cases (hlawful.run _)).2.1
    exact absurd hcommits (hs.transfer_pauses ht found pauses hrange')

/-- A transfer publishes exactly once if it succeeds and nothing if it does not, however it ends and
whatever goes on around it; no row is locked by it, or asked for, at any time after its end; and if
it commits in a poll, that poll ends with success. -/
theorem transfer_exactly_once (hs : s.Reachable) (ht : s.submit (.transfer request limit) = t)
    (actions : List Action) :
    (∀ last, ((t.1.run actions).tasks.find? t.2).isSome →
      ((t.1.run actions).step last).tasks.find? t.2 = none →
      (t.1.run (actions ++ [last])).ledger.drawn.InRange →
      request.Accounted (t.1.publications t.2 (actions ++ [last]))
          ((t.1.run actions).ended? t.2 last) ∧
        ((t.1.run actions).ended? t.2 last = none → last = .abort t.2) ∧
        ∀ u, t.1.Had t.2 (actions ++ [last]) u → ∀ later row,
          (⟨u, row⟩ : LockRequest) ∉ (t.1.run (actions ++ [last] ++ later)).ledger.requests) ∧
    (((t.1.run actions).poll t.2).1.ledger.drawn.InRange →
      (t.1.run actions).Commits ((t.1.run actions).poll t.2).1 →
      ∃ receipt, ((t.1.run actions).poll t.2).2.2 =
        some (.answered (.receipt (.ok receipt)))) := by
  have hlawful : t.1.Lawful := by
    rw [← ht]
    exact hs.lawful.submit (.transfer request limit)
  refine ⟨fun last hlive hgone hrange => ?_, hs.transfer_poll ht⟩
  obtain ⟨haccounted, hdropped, hover⟩ := hs.transfer_end ht hlive hgone hrange
  refine ⟨haccounted, hdropped, fun u hu later row => ?_⟩
  have hlawful' := hlawful.run (actions ++ [last])
  rw [run_append]
  exact (hlawful'.over_run (hover u hu) later).not_mem (hlawful'.run later).ledger.orderly row

set_option maxRecDepth 8000 in
/-- The payment in the sample is published once, its unit of work asks for no row afterwards, and a
poll would have carried it out at once. -/
theorem payment_exactly_once :
    (∃ receipt before after,
      (sample.submit (.transfer payment .usual)).1.publications 3 (turns 3 11 ++ [.advance 3]) =
        [(before, after)] ∧ payment.Posted receipt before after) ∧
    (∀ row, (⟨3, row⟩ : LockRequest) ∉
      ((sample.submit (.transfer payment .usual)).1.run
        (turns 3 11 ++ [.advance 3] ++ [])).ledger.requests) ∧
    ∃ receipt, (((sample.submit (.transfer payment .usual)).1.run []).poll 3).2.2 =
      some (.answered (.receipt (.ok receipt))) := by
  have hreachable : sample.Reachable := ⟨_, _, rfl⟩
  have hended : ∃ receipt,
      ((sample.submit (.transfer payment .usual)).1.run (turns 3 11)).ended? 3 (.advance 3) =
        some (.answered (.receipt (.ok receipt))) := ⟨_, rfl⟩
  obtain ⟨receipt, hended⟩ := hended
  obtain ⟨hends, -⟩ := transfer_exactly_once (t := sample.submit (.transfer payment .usual))
    hreachable rfl (turns 3 11)
  have hid : (sample.submit (.transfer payment .usual)).2 = 3 := rfl
  rw [hid] at hends
  obtain ⟨haccounted, -, hfree⟩ := hends (.advance 3) (by decide) rfl (by decide)
  rw [hended] at haccounted
  obtain ⟨-, hpoll⟩ := transfer_exactly_once (t := sample.submit (.transfer payment .usual))
    hreachable rfl []
  rw [hid] at hpoll
  exact ⟨⟨receipt, haccounted⟩, hfree 3 ⟨[.advance 3], _, _, rfl, rfl, rfl⟩ [],
    hpoll (by decide +kernel) (Or.inr (by decide +kernel))⟩

end Service
end FundsLedger
