import FundsLedger.Backend
import FundsLedger.Proofs.Path
import FundsLedger.Proofs.Transfer.Attempt

/-!
The protocol of a transfer on an arbitrary store. The store may give any reply to any request, and
another one the next time; what a transfer asks of it is all the same a sequence of attempts of one
form. So nothing here depends on what accounts there are, on locks or on other clients.
-/

namespace FundsLedger

/-- A request to a store and the reply to it. -/
structure Exchange where
  request : Request
  reply : request.Reply

/-- A call that has been answered, as an exchange. -/
def Answered.exchange (a : Answered) : Exchange := ⟨.call a.call, a.result⟩

/-- The call has succeeded. -/
def Answered.Succeeded (a : Answered) : Prop := a.result.isOk = true

variable {σ ε α β : Type} {b : Backend σ} {s : σ}

/-! ## Processes on a store -/

namespace Process

/-- All that a process asks of the store until it ends, with the replies. -/
def exchanges (b : Backend σ) (s : σ) : Process α → List Exchange
  | done _ => []
  | ask r next => ⟨r, (b.reply s r).2⟩ :: exchanges b (b.reply s r).1 (next (b.reply s r).2)
  | note _ rest => exchanges b s rest
  | sleep _ rest => exchanges b s rest
  | panic _ => []

/-- A process goes on from where its first part has left the store. -/
theorem runOn_bind {p : Process α} {f : α → Process β} {a : α}
    (h : (p.runOn b s).settled = .answered a) :
    (p.bind f).exchanges b s = p.exchanges b s ++ (f a).exchanges b (p.runOn b s).state ∧
      ((p.bind f).runOn b s).settled = ((f a).runOn b (p.runOn b s).state).settled := by
  induction p generalizing s with
  | done a' =>
    cases h
    exact ⟨rfl, rfl⟩
  | ask r next ih =>
    obtain ⟨hexchanges, hsettled⟩ := ih _ h
    exact ⟨congrArg (List.cons _) hexchanges, hsettled⟩
  | note event rest ih => exact ih h
  | sleep longest rest ih => exact ih h
  | panic message => cases h

end Process

namespace Work

variable [OfStoreError ε] {w : Work ε α}

/-- What work asks of a store once its unit of work is open, and how it ends: it makes the calls
along a path to its end, and one commit or one rollback unless it panics. -/
inductive Finished (w : Work ε α) : List Exchange → Settled (Except ε α) → Prop
  | committed {calls : List Answered} {a : α} (path : w.Path calls (.done (.ok a))) :
      Finished w (calls.map (·.exchange) ++ [⟨.commit, .ok ()⟩]) (.answered (.ok a))
  | uncommitted {calls : List Answered} {a : α} (path : w.Path calls (.done (.ok a)))
      (e : StoreError) :
      Finished w (calls.map (·.exchange) ++ [⟨.commit, .error e⟩])
        (.answered (.error (ofStoreError e)))
  | rolledBack {calls : List Answered} {e : ε} (path : w.Path calls (.done (.error e)))
      (reply : Except StoreError Unit) :
      Finished w (calls.map (·.exchange) ++ [⟨.rollback, reply⟩]) (.answered (.error e))
  | panicked {calls : List Answered} {message : String} (path : w.Path calls (.panic message)) :
      Finished w (calls.map (·.exchange)) (.panicked message)

/-- What work in a unit of work of its own asks of a store, and how it ends. -/
inductive Tried (w : Work ε α) : List Exchange → Settled (Except ε α) → Prop
  | unopened (e : StoreError) : Tried w [⟨.begin, .error e⟩] (.answered (.error (ofStoreError e)))
  | opened {xs : List Exchange} {how : Settled (Except ε α)} (finished : w.Finished xs how) :
      Tried w (⟨.begin, .ok ()⟩ :: xs) how

theorem Finished.call {c : Call} {next : c.Result → Work ε α} {r : c.Result} {xs : List Exchange}
    {how : Settled (Except ε α)} (h : (next r).Finished xs how) :
    (Work.call c next).Finished (Answered.exchange ⟨c, r⟩ :: xs) how := by
  cases h with
  | committed path => exact .committed (.call path)
  | uncommitted path e => exact .uncommitted (.call path) e
  | rolledBack path reply => exact .rolledBack (.call path) reply
  | panicked path => exact .panicked (.call path)

theorem Finished.note {event : Event} {xs : List Exchange} {how : Settled (Except ε α)}
    (h : w.Finished xs how) : (Work.note event w).Finished xs how := by
  cases h with
  | committed path => exact .committed (.note path)
  | uncommitted path e => exact .uncommitted (.note path) e
  | rolledBack path reply => exact .rolledBack (.note path) reply
  | panicked path => exact .panicked (.note path)

theorem finishing_finished (w : Work ε α) (b : Backend σ) (s : σ) :
    w.Finished (w.finishing.exchanges b s) (w.finishing.runOn b s).settled := by
  induction w generalizing s with
  | done result =>
    cases result with
    | ok a =>
      simp only [finishing, Process.exchanges, Process.runOn]
      cases (b.reply s .commit).2 with
      | ok => exact .committed (.refl _)
      | error e => exact .uncommitted (.refl (.done (.ok a))) e
    | error e =>
      simp only [finishing, Process.exchanges, Process.runOn]
      cases (b.reply s .rollback).2 with
      | ok => exact .rolledBack (.refl _) (.ok ())
      | error e' => exact .rolledBack (.refl _) (.error e')
  | call c next ih => exact .call (ih _ _)
  | note event rest ih => exact .note (ih _)
  | panic message => exact .panicked (.refl _)

theorem atomically_tried (w : Work ε α) (b : Backend σ) (s : σ) :
    w.Tried (w.atomically.exchanges b s) (w.atomically.runOn b s).settled := by
  simp only [atomically, Process.exchanges, Process.runOn]
  cases (b.reply s .begin).2 with
  | ok => exact .opened (w.finishing_finished b _)
  | error e => exact .unopened e

/-! ## Paths to the end of work -/

/-- Nothing is left to do. -/
def Ended : Work ε α → Prop
  | done _ | panic _ => True
  | call .. | note .. => False

variable {rest : Work ε β} {calls : List Answered}

/-- Work that makes a call first ends there if it fails. -/
theorem Path.ask {c : Call} {f : c.Answer → Work ε β} (h : (Work.ask c >>= f).Path calls rest)
    (hend : rest.Ended) :
    (∃ e, calls = [⟨c, .error e⟩] ∧ rest = .done (.error (ofStoreError e))) ∨
      ∃ a more, calls = ⟨c, .ok a⟩ :: more ∧ (f a).Path more rest := by
  change (Work.call c fun r => (Work.done (r.mapError ofStoreError)).bind f).Path calls rest at h
  cases h with
  | refl => exact hend.elim
  | @call _ _ r more _ path =>
    cases r with
    | error e =>
      cases path with
      | refl => exact Or.inl ⟨e, rfl, rfl⟩
    | ok a => exact Or.inr ⟨a, more, rfl, path⟩

omit [OfStoreError ε] in
theorem Path.require {condition : Prop} [Decidable condition] {e : ε} {f : Unit → Work ε β}
    (h : (Work.require condition e >>= f).Path calls rest) :
    (¬ condition ∧ calls = [] ∧ rest = .done (.error e)) ∨
      (condition ∧ (f ()).Path calls rest) := by
  unfold Work.require at h
  split at h
  · rename_i hcondition
    exact Or.inr ⟨hcondition, h⟩
  · rename_i hfails
    change (Work.done (.error e) : Work ε β).Path calls rest at h
    cases h with
    | refl => exact Or.inl ⟨hfails, rfl, rfl⟩

omit [OfStoreError ε] in
theorem Path.reported {event : Event} {f : Unit → Work ε β}
    (h : (Work.report event >>= f).Path calls rest) (hend : rest.Ended) :
    (f ()).Path calls rest := by
  change (Work.note event (f ())).Path calls rest at h
  cases h with
  | refl => exact hend.elim
  | note path => exact path

end Work

/-! ## Attempts -/

/-- The calls of a transfer, in order. -/
def Movement.calls (m : Movement) : List Call :=
  [.getForUpdate (min m.fromId m.toId), .getForUpdate (max m.fromId m.toId),
    .addBalance m.fromId m.amount.neg, .addBalance m.toId m.amount,
    .appendEntry m.fromId m.amount.neg, .appendEntry m.toId m.amount,
    .appendTransfer m.fromId m.toId m.amount]

/-- Both rows have been read, and the accounts are in the currency of that code, one with the funds
for the movement and the other with room for it. -/
def Cleared (m : Movement) (code : String) (calls : List Answered) : Prop :=
  ∃ source destination : Account,
    (⟨.getForUpdate m.fromId, .ok source⟩ : Answered) ∈ calls ∧
    (⟨.getForUpdate m.toId, .ok destination⟩ : Answered) ∈ calls ∧
    source.currency.code = code ∧ destination.currency.code = code ∧
    m.amount.units ≤ source.balance.units ∧
    destination.balance.units + m.amount.units ≤ 9223372036854775807

/-- The calls of one attempt: a first part of those of the transfer, up to one that fails if one
does, and nothing is written unless it may be. -/
structure Obeys (m : Movement) (code : String) (calls : List Answered) : Prop where
  order : calls.map (·.call) <+: m.calls
  nonempty : calls ≠ []
  stops : ∀ a ∈ calls.dropLast, a.Succeeded
  cleared : ∀ a ∈ calls, a.call.IsWrite → Cleared m code calls

/-- All calls of the transfer have been made, and they have succeeded. -/
structure Whole (m : Movement) (calls : List Answered) : Prop where
  order : calls.map (·.call) = m.calls
  succeeded : ∀ a ∈ calls, a.Succeeded

/-- Calls made in this order, up to one that fails if one does. -/
inductive InOrder : List Call → List Answered → Option StoreError → Prop
  | nil : InOrder [] [] none
  | failed (c : Call) (rest : List Call) (e : StoreError) :
      InOrder (c :: rest) [⟨c, .error e⟩] (some e)
  | next (c : Call) (a : c.Answer) {rest : List Call} {calls : List Answered}
      {failure : Option StoreError} (later : InOrder rest calls failure) :
      InOrder (c :: rest) (⟨c, .ok a⟩ :: calls) failure

namespace InOrder

variable {cs : List Call} {calls : List Answered} {failure : Option StoreError}

theorem order (h : InOrder cs calls failure) : calls.map (·.call) <+: cs := by
  induction h with
  | nil => exact List.prefix_refl _
  | failed c rest e => exact ⟨rest, rfl⟩
  | next c a later ih => exact List.cons_prefix_cons.mpr ⟨rfl, ih⟩

theorem stops (h : InOrder cs calls failure) : ∀ a ∈ calls.dropLast, a.Succeeded := by
  induction h with
  | nil => simp
  | failed c rest e => simp
  | @next c a rest calls failure later ih =>
    intro a' ha'
    cases calls with
    | nil => simp at ha'
    | cons first more =>
      rw [List.dropLast_cons_cons, List.mem_cons] at ha'
      rcases ha' with rfl | ha'
      · rfl
      · exact ih a' ha'

theorem whole (h : InOrder cs calls none) :
    calls.map (·.call) = cs ∧ ∀ a ∈ calls, a.Succeeded := by
  generalize hnone : (none : Option StoreError) = failure at h
  induction h with
  | nil => exact ⟨rfl, by simp⟩
  | failed c rest e => cases hnone
  | next c a later ih =>
    obtain ⟨hcalls, hsucceeded⟩ := ih hnone
    exact ⟨congrArg (List.cons c) hcalls, fun a' ha' =>
      (List.mem_cons.mp ha').elim (fun heq => heq ▸ rfl) (hsucceeded a')⟩

theorem last {e : StoreError} (h : InOrder cs calls (some e)) :
    ∃ before c, calls = before ++ [⟨c, .error e⟩] := by
  generalize hsome : some e = failure at h
  induction h with
  | nil => cases hsome
  | failed c rest e' =>
    cases hsome
    exact ⟨[], c, rfl⟩
  | next c a later ih =>
    obtain ⟨before, c', rfl⟩ := ih hsome
    exact ⟨⟨c, .ok a⟩ :: before, c', rfl⟩

end InOrder

/-- What work that only makes calls ends with: a receipt, or the failure of a call. -/
def Tells (rest : Work TransferError Receipt) : Option StoreError → Prop
  | none => ∃ receipt, rest = .done (.ok receipt)
  | some e => rest = .done (.error (ofStoreError e))

/-- One call before others. -/
theorem Work.Path.inOrder {c : Call} {cs : List Call} {calls : List Answered}
    {f : c.Answer → Work TransferError Receipt} {rest : Work TransferError Receipt}
    (h : (Work.ask c >>= f).Path calls rest) (hend : rest.Ended)
    (hnext : ∀ a more, (f a).Path more rest → ∃ failure, InOrder cs more failure ∧ Tells rest failure) :
    ∃ failure, InOrder (c :: cs) calls failure ∧ Tells rest failure := by
  rcases h.ask hend with ⟨e, rfl, hrest⟩ | ⟨a, more, rfl, hpath⟩
  · exact ⟨some e, .failed c cs e, hrest⟩
  · obtain ⟨failure, hlater, htells⟩ := hnext a more hpath
    exact ⟨failure, .next c a hlater, htells⟩

/-- Why a transfer between two accounts is declined: the first of four checks that fails. -/
inductive Movement.Declines (m : Movement) (currency : Currency) (source destination : Account) :
    TransferError → Prop
  | sourceCurrency (other : source.currency ≠ currency) :
      Declines m currency source destination
        (.currencyMismatch source.id currency source.currency)
  | destinationCurrency (same : source.currency = currency)
      (other : destination.currency ≠ currency) :
      Declines m currency source destination
        (.currencyMismatch destination.id currency destination.currency)
  | funds (same : source.currency = currency) (same' : destination.currency = currency)
      (short : source.balance.units < m.amount.units) :
      Declines m currency source destination
        (.insufficientFunds m.fromId source.balance m.amount)
  | room (same : source.currency = currency) (same' : destination.currency = currency)
      (covered : m.amount.units ≤ source.balance.units)
      (full : 9223372036854775807 < destination.balance.units + m.amount.units) :
      Declines m currency source destination
        (.invalidRequest s!"credit would overflow balance of account {m.toId}")

/-- What has been declined once will be again. -/
theorem Movement.Declines.final {m : Movement} {currency : Currency} {source destination : Account}
    {e : TransferError} (h : m.Declines currency source destination e) : e.retryable = false := by
  cases h <;> rfl

namespace TransferOrder

variable {o : TransferOrder} {calls : List Answered} {rest : Work TransferError Receipt}

/-- The writes of an attempt are made in order. -/
theorem writing_inOrder (h : o.writing.Path calls rest) (hend : rest.Ended) :
    ∃ failure, InOrder (o.calls.drop 2) calls failure ∧ Tells rest failure := by
  refine h.inOrder hend fun fromAccount more h => ?_
  refine h.inOrder hend fun toAccount more h => ?_
  refine h.inOrder hend fun fromEntry more h => ?_
  refine h.inOrder hend fun toEntry more h => ?_
  refine h.inOrder hend fun transfer more h => ?_
  cases h with
  | refl => exact ⟨none, .nil, _, rfl⟩

/-- Either a check fails before anything is written, or all of them pass and the writes are
made. -/
theorem moving_path {source destination : Account}
    (h : (o.moving source destination).Path calls rest) :
    (calls = [] ∧ ∃ e, o.Declines o.currency source destination e ∧ rest = .done (.error e)) ∨
      (source.currency = o.currency ∧ destination.currency = o.currency ∧
        o.amount.units ≤ source.balance.units ∧
        destination.balance.units + o.amount.units ≤ 9223372036854775807 ∧
        o.writing.Path calls rest) := by
  unfold moving requireCurrency at h
  rcases h.require with ⟨hother, rfl, hrest⟩ | ⟨hsource, h⟩
  · exact Or.inl ⟨rfl, _, .sourceCurrency hother, hrest⟩
  rcases h.require with ⟨hother, rfl, hrest⟩ | ⟨hdestination, h⟩
  · exact Or.inl ⟨rfl, _, .destinationCurrency hsource hother, hrest⟩
  rcases h.require with ⟨hshort, rfl, hrest⟩ | ⟨hfunds, h⟩
  · exact Or.inl ⟨rfl, _, .funds hsource hdestination (Int.not_le.mp hshort), hrest⟩
  rcases h.require with ⟨hfull, rfl, hrest⟩ | ⟨hfits, h⟩
  · rw [Bool.not_eq_true, Option.isSome_eq_false_iff, Option.isNone_iff_eq_none,
      Amount.add?_eq_none_iff] at hfull
    have hlower := destination.balance.lower
    have hpos := o.amount_pos
    exact Or.inl ⟨rfl, _, .room hsource hdestination hfunds (by omega), hrest⟩
  · obtain ⟨sum, hsum⟩ := Option.isSome_iff_exists.mp hfits
    have hupper := sum.upper
    rw [Amount.add?_eq_some_iff.mp hsum] at hupper
    exact Or.inr ⟨hsource, hdestination, hfunds, hupper, h⟩

/-- How an attempt ends: with all its calls made, with the failure of its last call, or declined
after both rows have been read. -/
inductive Concludes (m : Movement) (currency : Currency) (calls : List Answered) :
    Work TransferError Receipt → Prop
  | succeeded (whole : Whole m calls) (receipt : Receipt) :
      Concludes m currency calls (.done (.ok receipt))
  | failed {before : List Answered} {c : Call} {e : StoreError}
      (last : calls = before ++ [⟨c, .error e⟩]) :
      Concludes m currency calls (.done (.error (ofStoreError e)))
  | declined {source destination : Account} {e : TransferError}
      (order : calls.map (·.call) = m.calls.take 2)
      (sourceRead : (⟨.getForUpdate m.fromId, .ok source⟩ : Answered) ∈ calls)
      (destinationRead : (⟨.getForUpdate m.toId, .ok destination⟩ : Answered) ∈ calls)
      (succeeded : ∀ a ∈ calls, a.Succeeded)
      (declines : m.Declines currency source destination e) :
      Concludes m currency calls (.done (.error e))

theorem Concludes.of_inOrder {m : Movement} {currency : Currency} {failure : Option StoreError}
    (h : InOrder m.calls calls failure) (htells : Tells rest failure) :
    Concludes m currency calls rest := by
  cases failure with
  | none =>
    obtain ⟨receipt, rfl⟩ := htells
    exact .succeeded ⟨h.whole.1, h.whole.2⟩ receipt
  | some e =>
    obtain ⟨before, c, hlast⟩ := h.last
    cases htells
    exact .failed hlast

/-- An attempt that locks its rows in this order obeys the protocol to its end. -/
theorem locking_obeys {first second : AccountId}
    {next : Account → Account → Work TransferError Receipt}
    (hcalls : o.calls = .getForUpdate first :: .getForUpdate second :: o.calls.drop 2)
    (hnext : ∀ x y more, (next x y).Path more rest → ∃ source destination : Account,
      (⟨.getForUpdate o.fromId, .ok source⟩ : Answered) ∈
        [(⟨.getForUpdate first, .ok x⟩ : Answered), ⟨.getForUpdate second, .ok y⟩] ∧
      (⟨.getForUpdate o.toId, .ok destination⟩ : Answered) ∈
        [(⟨.getForUpdate first, .ok x⟩ : Answered), ⟨.getForUpdate second, .ok y⟩] ∧
      (o.moving source destination).Path more rest)
    (h : (locking first second next).Path calls rest) (hend : rest.Ended) :
    Obeys o.toMovement o.currency.code calls ∧
      Concludes o.toMovement o.currency calls rest := by
  have hfirst := h.reported hend
  -- The first lock may fail, the second one may fail, or both accounts are known.
  rcases hfirst.ask hend with ⟨e, rfl, hrest⟩ | ⟨x, more, rfl, hsecond⟩
  · have hmade : InOrder o.calls [⟨.getForUpdate first, .error e⟩] (some e) := by
      rw [hcalls]
      exact .failed ..
    exact ⟨⟨hmade.order, by simp, hmade.stops, by simp [Call.IsWrite]⟩, .of_inOrder hmade hrest⟩
  rcases hsecond.ask hend with ⟨e, rfl, hrest⟩ | ⟨y, more, rfl, hboth⟩
  · have hmade : InOrder o.calls
        [⟨.getForUpdate first, .ok x⟩, ⟨.getForUpdate second, .error e⟩] (some e) := by
      rw [hcalls]
      exact .next _ x (.failed ..)
    exact ⟨⟨hmade.order, by simp, hmade.stops, by simp [Call.IsWrite]⟩, .of_inOrder hmade hrest⟩
  obtain ⟨source, destination, hsource, hdestination, hmoving⟩ := hnext x y more hboth
  rcases moving_path hmoving with ⟨rfl, e, hdeclines, rfl⟩ | ⟨hfrom, hto, hfunds, hroom, hwriting⟩
  · refine ⟨⟨?_, by simp, ?_, by simp [Call.IsWrite]⟩,
      .declined ?_ hsource hdestination ?_ hdeclines⟩
    · rw [hcalls]
      exact ⟨_, rfl⟩
    · simp [Answered.Succeeded, Except.isOk, Except.toBool]
    · rw [hcalls]
      rfl
    · simp [Answered.Succeeded, Except.isOk, Except.toBool]
  · obtain ⟨failure, hlater, htells⟩ := writing_inOrder hwriting hend
    have hmade : InOrder o.calls
        (⟨.getForUpdate first, .ok x⟩ :: ⟨.getForUpdate second, .ok y⟩ :: more) failure := by
      rw [hcalls]
      exact .next _ x (.next _ y hlater)
    have hreads : ∀ a, a ∈ [(⟨.getForUpdate first, .ok x⟩ : Answered),
        ⟨.getForUpdate second, .ok y⟩] →
        a ∈ (⟨.getForUpdate first, .ok x⟩ : Answered) :: ⟨.getForUpdate second, .ok y⟩ :: more :=
      fun a ha => List.mem_append_left more ha
    exact ⟨⟨hmade.order, by simp, hmade.stops, fun _ _ _ => ⟨source, destination,
      hreads _ hsource, hreads _ hdestination, congrArg Currency.code hfrom,
      congrArg Currency.code hto, hfunds, hroom⟩⟩, .of_inOrder hmade htells⟩

/-- Every attempt obeys the protocol to its end, whatever its calls are answered. -/
theorem attempt_obeys (h : o.attempt.Path calls rest) (hend : rest.Ended) :
    Obeys o.toMovement o.currency.code calls ∧
      Concludes o.toMovement o.currency calls rest := by
  rw [attempt_eq] at h
  split at h
  · rename_i hle
    refine locking_obeys ?_ (fun x y more hpath => ⟨x, y, ?_, ?_, hpath⟩) h hend
    · simp [Movement.calls, min_eq_left hle, max_eq_right hle]
    · simp
    · simp
  · rename_i hlt
    have hle : o.toId ≤ o.fromId := Int.le_of_lt (Int.not_le.mp hlt)
    refine locking_obeys ?_ (fun x y more hpath => ⟨y, x, ?_, ?_, hpath⟩) h hend
    · simp [Movement.calls, min_eq_right hle, max_eq_left hle]
    · simp
    · simp

end TransferOrder

/-! ## Attempts as the store sees them -/

/-- One attempt: the store has not opened a unit of work, or the calls of the attempt are made in
it, and it is committed if all calls of the transfer have succeeded, and rolled back otherwise. -/
inductive IsAttempt (m : Movement) (code : String) : List Exchange → Prop
  | unopened (e : StoreError) : IsAttempt m code [⟨.begin, .error e⟩]
  | committed {calls : List Answered} (obeys : Obeys m code calls) (whole : Whole m calls)
      (reply : Except StoreError Unit) :
      IsAttempt m code (⟨.begin, .ok ()⟩ :: (calls.map (·.exchange) ++ [⟨.commit, reply⟩]))
  | rolledBack {calls : List Answered} (obeys : Obeys m code calls) (partly : ¬ Whole m calls)
      (reply : Except StoreError Unit) :
      IsAttempt m code (⟨.begin, .ok ()⟩ :: (calls.map (·.exchange) ++ [⟨.rollback, reply⟩]))

/-- The failure of the store for which an attempt has ended, seen from its end: that of the commit,
that of the call before the rollback, or that of the beginning. -/
def endingFailure : List Exchange → Option StoreError
  | ⟨.commit, .error e⟩ :: _ => some e
  | ⟨.rollback, _⟩ :: ⟨.call _, .error e⟩ :: _ => some e
  | ⟨.begin, .error e⟩ :: _ => some e
  | _ => none

/-- The failure of the store for which an attempt has ended, if it is that. -/
def failureOf (xs : List Exchange) : Option StoreError := endingFailure xs.reverse

/-- The attempt has ended with a commit, and that has succeeded. -/
def Commits (xs : List Exchange) : Prop := xs.getLast? = some ⟨.commit, .ok ()⟩

/-- What an attempt answers. -/
inductive Judges (xs : List Exchange) : Except TransferError Receipt → Prop
  | succeeded (receipt : Receipt) (commits : Commits xs) (unfailed : failureOf xs = none) :
      Judges xs (.ok receipt)
  | failed {e : StoreError} (failure : failureOf xs = some e) (uncommitted : ¬ Commits xs) :
      Judges xs (.error (ofStoreError e))
  | declined {e : TransferError} (final : e.retryable = false) (unfailed : failureOf xs = none)
      (uncommitted : ¬ Commits xs) : Judges xs (.error e)

theorem commits_concat (xs : List Exchange) (x : Exchange) :
    Commits (xs ++ [x]) ↔ x = ⟨.commit, .ok ()⟩ := by
  simp [Commits]

theorem failureOf_concat (xs : List Exchange) (x : Exchange) :
    failureOf (xs ++ [x]) = endingFailure (x :: xs.reverse) := by
  simp [failureOf]

/-- A rollback after a call that has failed. -/
theorem failureOf_rollback (xs : List Exchange) (c : Call) (e : StoreError)
    (reply : Except StoreError Unit) :
    failureOf (xs ++ [⟨.call c, .error e⟩, ⟨.rollback, reply⟩]) = some e := by
  have hsplit : xs ++ [⟨.call c, .error e⟩, ⟨.rollback, reply⟩] =
      (xs ++ [⟨.call c, .error e⟩]) ++ [⟨.rollback, reply⟩] := by simp
  rw [hsplit, failureOf_concat, List.reverse_concat]
  rfl

/-- A rollback after a call that has succeeded. -/
theorem failureOf_declined (xs : List Exchange) {last : Answered} (h : last.Succeeded)
    (reply : Except StoreError Unit) :
    failureOf (xs ++ [last.exchange, ⟨.rollback, reply⟩]) = none := by
  obtain ⟨c, r⟩ := last
  have hsplit : xs ++ [Answered.exchange ⟨c, r⟩, ⟨.rollback, reply⟩] =
      (xs ++ [Answered.exchange ⟨c, r⟩]) ++ [⟨.rollback, reply⟩] := by simp
  rw [hsplit, failureOf_concat, List.reverse_concat]
  cases r with
  | ok a => rfl
  | error e => cases h

theorem TransferOrder.attempt_tried {o : TransferOrder} {xs : List Exchange}
    {how : Settled (Except TransferError Receipt)} (h : o.attempt.Tried xs how) :
    IsAttempt o.toMovement o.currency.code xs ∧
      ∃ result, how = .answered result ∧ Judges xs result := by
  cases h with
  | unopened e => exact ⟨.unopened e, _, rfl, .failed (by rfl) (by simp [Commits])⟩
  | opened finished =>
    cases finished with
    | @committed calls receipt path =>
      obtain ⟨hobeys, hconcludes⟩ := attempt_obeys path trivial
      cases hconcludes with
      | succeeded whole _ =>
        refine ⟨.committed hobeys whole (.ok ()), _, rfl, .succeeded receipt ?_ ?_⟩
        · rw [← List.cons_append, commits_concat]
        · rw [← List.cons_append, failureOf_concat]
          rfl
    | @uncommitted calls receipt path e =>
      obtain ⟨hobeys, hconcludes⟩ := attempt_obeys path trivial
      cases hconcludes with
      | succeeded whole _ =>
        refine ⟨.committed hobeys whole (.error e), _, rfl, .failed ?_ ?_⟩
        · rw [← List.cons_append, failureOf_concat]
          rfl
        · rw [← List.cons_append, commits_concat]
          simp
    | @rolledBack calls e path reply =>
      obtain ⟨hobeys, hconcludes⟩ := attempt_obeys path trivial
      have huncommitted : ¬ Commits
          (⟨.begin, .ok ()⟩ :: (calls.map (·.exchange) ++ [⟨.rollback, reply⟩])) := by
        rw [← List.cons_append, commits_concat]
        simp
      cases hconcludes with
      | @failed before c e last =>
        subst last
        refine ⟨.rolledBack hobeys (fun whole => ?_) reply, _, rfl, .failed ?_ huncommitted⟩
        · have := whole.succeeded ⟨c, .error e⟩ (by simp)
          cases this
        · simpa [Answered.exchange] using
            failureOf_rollback (⟨.begin, .ok ()⟩ :: before.map (·.exchange)) c e reply
      | declined order sourceRead destinationRead succeeded declines =>
        have hpartly : ¬ Whole o.toMovement calls := by
          intro whole
          have hlengths := congrArg List.length (whole.order.symm.trans order)
          exact absurd hlengths (by simp [Movement.calls])
        refine ⟨.rolledBack hobeys hpartly reply, _, rfl, .declined declines.final ?_ huncommitted⟩
        obtain ⟨before, last, rfl⟩ := (List.eq_nil_or_concat calls).resolve_left hobeys.nonempty
        rw [List.concat_eq_append] at succeeded ⊢
        simpa using failureOf_declined (⟨.begin, .ok ()⟩ :: before.map (·.exchange))
          (succeeded last (by simp)) reply
    | @panicked calls message path =>
      obtain ⟨-, hconcludes⟩ := attempt_obeys path trivial
      cases hconcludes

/-! ## Transfers -/

/-- What a transfer asks of the store: attempts, each after one that has ended with a conflict, and
up to the limit if all of them do; and the transfer succeeds if the commit of the last one does. -/
structure Attempts (m : Movement) (code : String) (limit : Nat) (attempts : List (List Exchange))
    (how : Settled (Except TransferError Receipt)) : Prop where
  nonempty : attempts ≠ []
  few : attempts.length ≤ limit
  each : ∀ xs ∈ attempts, IsAttempt m code xs
  again : ∀ xs ∈ attempts.dropLast, failureOf xs = some .conflict
  spent : ∀ xs ∈ attempts.getLast?, failureOf xs = some .conflict → attempts.length = limit
  commits : (∃ receipt, how = .answered (.ok receipt)) ↔ ∃ xs ∈ attempts.getLast?, Commits xs

namespace Attempts

variable {m : Movement} {code : String} {limit : Nat} {xs : List Exchange}
variable {attempts : List (List Exchange)} {how : Settled (Except TransferError Receipt)}

/-- An attempt that ends with a conflict before others. -/
theorem cons (h : Attempts m code limit attempts how) (hattempt : IsAttempt m code xs)
    (hconflict : failureOf xs = some .conflict) :
    Attempts m code (limit + 1) (xs :: attempts) how := by
  obtain ⟨first, more, rfl⟩ := List.exists_cons_of_ne_nil h.nonempty
  constructor
  case nonempty => simp
  case few => exact Nat.succ_le_succ h.few
  case each => exact List.forall_mem_cons.mpr ⟨hattempt, h.each⟩
  case again =>
    rw [List.dropLast_cons_cons]
    exact List.forall_mem_cons.mpr ⟨hconflict, h.again⟩
  case spent =>
    rw [List.getLast?_cons_cons]
    exact fun ys hys hfailure => congrArg Nat.succ (h.spent ys hys hfailure)
  case commits =>
    rw [List.getLast?_cons_cons]
    exact h.commits

end Attempts

/-- Of the failures of the store only a conflict is worth another attempt. -/
theorem retryable_ofStoreError {e : StoreError} :
    (ofStoreError e : TransferError).retryable = true ↔ e = .conflict := by
  cases e <;> simp [ofStoreError, TransferError.ofStore, TransferError.retryable]

/-- An attempt that has answered something worth another attempt has ended with a conflict. -/
theorem Judges.conflict {xs : List Exchange} {e : TransferError} (h : Judges xs (.error e))
    (hretry : e.retryable = true) : failureOf xs = some .conflict := by
  cases h with
  | failed failure uncommitted => rw [failure, retryable_ofStoreError.mp hretry]
  | declined final unfailed uncommitted =>
    rw [final] at hretry
    cases hretry

theorem Judges.retryable {xs : List Exchange} {result : Except TransferError Receipt}
    (h : Judges xs result) (hconflict : failureOf xs = some .conflict) :
    ∃ e, result = .error e ∧ e.retryable = true := by
  cases h with
  | @failed e failure uncommitted =>
    rw [failure] at hconflict
    exact ⟨_, rfl, retryable_ofStoreError.mpr (Option.some.inj hconflict)⟩
  | succeeded _ _ unfailed | declined _ unfailed _ =>
    rw [unfailed] at hconflict
    cases hconflict

theorem Judges.commits_iff {xs : List Exchange} {result : Except TransferError Receipt}
    (h : Judges xs result) : (∃ receipt, result = .ok receipt) ↔ Commits xs := by
  cases h with
  | succeeded receipt commits unfailed => exact iff_of_true ⟨receipt, rfl⟩ commits
  | failed failure uncommitted => exact iff_of_false (by simp) uncommitted
  | declined final unfailed uncommitted => exact iff_of_false (by simp) uncommitted

/-- An attempt that is not made again. -/
theorem Attempts.single {m : Movement} {code : String} {limit : Nat} {xs : List Exchange}
    {result : Except TransferError Receipt} {how : Settled (Except TransferError Receipt)}
    (hattempt : IsAttempt m code xs) (hjudges : Judges xs result) (hlimit : 1 ≤ limit)
    (hspent : ∀ e, result = .error e → e.retryable = true → limit = 1)
    (hhow : (∃ receipt, how = .answered (.ok receipt)) ↔ ∃ receipt, result = .ok receipt) :
    Attempts m code limit [xs] how where
  nonempty := by simp
  few := hlimit
  each := by simpa using hattempt
  again := by simp
  spent := by
    simp only [List.getLast?_singleton, Option.mem_some_iff, List.length_singleton, forall_eq']
    intro hconflict
    obtain ⟨e, he, hretry⟩ := hjudges.retryable hconflict
    exact (hspent e he hretry).symm
  commits := by simpa using hhow.trans hjudges.commits_iff

theorem TransferOrder.executeFrom_attempts (o : TransferOrder) (policy : RetryPolicy)
    (n left : Nat) (b : Backend σ) (s : σ) :
    ∃ attempts, (o.executeFrom policy n left).exchanges b s = attempts.flatten ∧
      Attempts o.toMovement o.currency.code (left + 1) attempts
        ((o.executeFrom policy n left).runOn b s).settled := by
  induction left generalizing n s with
  | zero =>
    obtain ⟨hattempt, result, hsettled, hjudges⟩ := attempt_tried (o.attempt.atomically_tried b s)
    have hbind (f : Except TransferError Receipt → Process (Except TransferError Receipt)) :=
      Process.runOn_bind (f := f) hsettled
    refine ⟨[o.attempt.atomically.exchanges b s], ?_⟩
    simp only [executeFrom, (hbind _).1, (hbind _).2]
    cases result with
    | ok receipt =>
      exact ⟨by simp [Process.exchanges],
        .single hattempt hjudges (Nat.le_refl _) (by simp) (by simp [Process.runOn])⟩
    | error e =>
      by_cases hretry : e.retryable = true <;> simp only [hretry]
      all_goals exact ⟨by simp [Process.exchanges],
        .single hattempt hjudges (Nat.le_refl _) (fun _ _ _ => rfl) (by simp [Process.runOn])⟩
  | succ left ih =>
    obtain ⟨hattempt, result, hsettled, hjudges⟩ := attempt_tried (o.attempt.atomically_tried b s)
    have hbind (f : Except TransferError Receipt → Process (Except TransferError Receipt)) :=
      Process.runOn_bind (f := f) hsettled
    simp only [executeFrom, (hbind _).1, (hbind _).2]
    cases result with
    | ok receipt =>
      exact ⟨[o.attempt.atomically.exchanges b s], by simp [Process.exchanges],
        .single hattempt hjudges (by omega) (by simp) (by simp [Process.runOn])⟩
    | error e =>
      by_cases hretry : e.retryable = true
      · simp only [hretry, if_true]
        obtain ⟨attempts, hflatten, hattempts⟩ := ih (n + 1) (o.attempt.atomically.runOn b s).state
        refine ⟨o.attempt.atomically.exchanges b s :: attempts, ?_,
          hattempts.cons hattempt (hjudges.conflict hretry)⟩
        rw [List.flatten_cons, ← hflatten]
        rfl
      · simp only [hretry]
        refine ⟨[o.attempt.atomically.exchanges b s], by simp [Process.exchanges],
          .single hattempt hjudges (by omega) (fun e' he' hretry' => ?_) (by simp [Process.runOn])⟩
        cases he'
        exact absurd hretry' hretry

/-- The protocol of a transfer: on a store that may answer anything, a request of the wrong form asks
nothing of it, and any other one makes at most as many attempts as the policy allows. -/
theorem TransferRequest.execute_protocol (r : TransferRequest) (policy : RetryPolicy)
    (b : Backend σ) (s : σ) :
    match r.validate with
    | .error e =>
      (r.execute policy).exchanges b s = [] ∧
        ((r.execute policy).runOn b s).settled = .answered (.error e)
    | .ok _ =>
      ∃ attempts, (r.execute policy).exchanges b s = attempts.flatten ∧
        Attempts r.movement r.currency (max 1 policy.maxAttempts) attempts
          ((r.execute policy).runOn b s).settled := by
  unfold execute
  cases hvalid : r.validate with
  | error e => exact ⟨rfl, rfl⟩
  | ok o =>
    have hasks := asks_of_validate hvalid
    have hmovement : r.movement = o.toMovement := by
      rw [movement, hasks.fromId, hasks.toId, hasks.amount]
    have hlimit : max 1 policy.maxAttempts = policy.maxAttempts - 1 + 1 := by omega
    rw [hmovement, hasks.currency, hlimit]
    exact o.executeFrom_attempts policy 1 (policy.maxAttempts - 1) b s

end FundsLedger
