import FundsLedger.Proofs.Ledger.Runs
import FundsLedger.Proofs.Transfer.Protocol

/-!
Trying again after a conflict. The retry policy has a loop for any operation, and a transfer has its
own, which also reports how each attempt has ended. Both are one loop with different reports: it
makes one attempt after the other up to the first that ends otherwise than with a conflict, and no
more than the policy allows. The loop with a counter in a machine word, which could overflow, is that
loop as well.
-/

namespace FundsLedger

variable {σ α β : Type} {b : Backend σ} {s s' s'' : σ}

/-! ## What a process does -/

/-- One thing that a process does on its way: it asks the store, reports, or sleeps. -/
inductive Deed where
  | asks (x : Exchange)
  | reports (event : Event)
  | sleeps (longest : Duration)

namespace Process

/-- All that a process does until it ends, in order. -/
def deeds (b : Backend σ) (s : σ) : Process α → List Deed
  | done _ => []
  | ask r next => .asks ⟨r, (b.reply s r).2⟩ :: deeds b (b.reply s r).1 (next (b.reply s r).2)
  | note event rest => .reports event :: deeds b s rest
  | sleep longest rest => .sleeps longest :: deeds b s rest
  | panic _ => []

/-- On the store in the state `s` the process does this, leaves the store in the state `s'` and ends
with the answer. -/
structure Does (b : Backend σ) (s : σ) (p : Process α) (deeds : List Deed) (s' : σ) (a : α) :
    Prop where
  deeds : p.deeds b s = deeds
  state : (p.runOn b s).state = s'
  settled : (p.runOn b s).settled = .answered a

variable {p : Process α} {f : α → Process β} {a : α} {a' : β} {ds ds' : List Deed}

theorem Does.of_settled (h : (p.runOn b s).settled = .answered a) :
    Does b s p (p.deeds b s) (p.runOn b s).state a :=
  ⟨rfl, rfl, h⟩

theorem Does.done (b : Backend σ) (s : σ) (a : α) : Does b s (.done a) [] s a := ⟨rfl, rfl, rfl⟩

theorem Does.note (h : Does b s p ds s' a) (event : Event) :
    Does b s (.note event p) (.reports event :: ds) s' a :=
  ⟨congrArg (List.cons _) h.deeds, h.state, h.settled⟩

theorem Does.sleep (h : Does b s p ds s' a) (longest : Duration) :
    Does b s (.sleep longest p) (.sleeps longest :: ds) s' a :=
  ⟨congrArg (List.cons _) h.deeds, h.state, h.settled⟩

/-- A process goes on from where its first part has left the store. -/
theorem Does.bind (h : Does b s p ds s' a) (h' : Does b s' (f a) ds' s'' a') :
    Does b s (p.bind f) (ds ++ ds') s'' a' := by
  obtain ⟨rfl, rfl, hsettled⟩ := h
  induction p generalizing s with
  | done answer =>
    cases hsettled
    exact h'
  | ask r next ih =>
    obtain ⟨hdeeds, hstate, hend⟩ := ih _ hsettled h'
    exact ⟨congrArg (List.cons _) hdeeds, hstate, hend⟩
  | note event rest ih => exact (ih hsettled h').note event
  | sleep longest rest ih => exact (ih hsettled h').sleep longest
  | panic message => cases hsettled

theorem Does.map (h : Does b s p ds s' a) (g : α → β) : Does b s (p.map g) ds s' (g a) := by
  have hbind := h.bind (f := fun a => .done (g a)) (.done b s' (g a))
  rwa [List.append_nil] at hbind

/-- Reports some events first. -/
def telling (events : List Event) (p : Process α) : Process α := events.foldr .note p

theorem Does.telling (h : Does b s p ds s' a) (events : List Event) :
    Does b s (p.telling events) (events.map .reports ++ ds) s' a := by
  induction events with
  | nil => exact h
  | cons event rest ih => exact ih.note event

/-- Changing the answer of what comes last. -/
theorem bind_map {γ : Type} (p : Process α) (f : α → Process β) (g : β → γ) :
    (p.bind f).map g = p.bind fun a => (f a).map g := by
  induction p with
  | done a => rfl
  | ask r next ih => exact congrArg (Process.ask r) (funext fun reply => ih reply)
  | note event rest ih => exact congrArg (Process.note event) ih
  | sleep longest rest ih => exact congrArg (Process.sleep longest) ih
  | panic message => rfl

end Process

/-! ## Outcomes -/

/-- The outcome of an attempt is a conflict, after however many attempts. -/
def Conflicts (outcome : Except TransferError α) : Prop := ∃ n, outcome = .error (.conflict n)

theorem conflicts_error_iff {e : TransferError} :
    Conflicts (.error e : Except TransferError α) ↔ e.retryable = true := by
  unfold Conflicts
  cases e <;> simp [TransferError.retryable]

theorem not_conflicts_ok (a : α) : ¬ Conflicts (.ok a : Except TransferError α) := by
  rintro ⟨n, ⟨⟩⟩

/-- What is answered when attempt number `attempt` is the last one: a conflict counts the attempts,
and any other outcome is the answer. -/
def lastWord (attempt : Nat) : Except TransferError α → Except TransferError α
  | .ok a => .ok a
  | .error e => .error (if e.retryable then .conflict attempt else e)

theorem lastWord_of_conflicts {outcome : Except TransferError α} (h : Conflicts outcome)
    (attempt : Nat) : lastWord attempt outcome = .error (.conflict attempt) := by
  obtain ⟨n, rfl⟩ := h
  rfl

theorem lastWord_of_not_conflicts {outcome : Except TransferError α} (h : ¬ Conflicts outcome)
    (attempt : Nat) : lastWord attempt outcome = outcome := by
  cases outcome with
  | ok a => rfl
  | error e => rw [lastWord, if_neg fun hretry => h (conflicts_error_iff.mpr hretry)]

/-- The positions, counted from 1, of the outcomes that are not conflicts. -/
def others (outcomes : Nat → Except TransferError α) : Set Nat :=
  {n | 1 ≤ n ∧ ¬ Conflicts (outcomes n)}

/-- How many attempts are to be made of at most `limit`, and what is to be answered, if attempt
number `n` would have the outcome `outcomes n`. -/
structure Prescribes (limit : Nat) (outcomes : Nat → Except TransferError α) (attempts : Nat)
    (result : Except TransferError α) : Prop where
  least : ∀ n, IsLeast (others outcomes) n → attempts = min n limit ∧
    result = if n ≤ limit then outcomes n else .error (.conflict limit)
  none : others outcomes = ∅ → attempts = limit ∧ result = .error (.conflict limit)

/-- It is right to stop after a first outcome that is no conflict, and at the limit. -/
theorem Prescribes.of_stop {limit k : Nat} {outcomes : Nat → Except TransferError α} (hk : 1 ≤ k)
    (hlimit : k ≤ limit) (hbefore : ∀ m, 1 ≤ m → m < k → Conflicts (outcomes m))
    (hstop : k < limit → ¬ Conflicts (outcomes k)) :
    Prescribes limit outcomes k (lastWord k (outcomes k)) where
  least n hn := by
    obtain ⟨⟨hpos, hother⟩, hleast⟩ := hn
    have hle : k ≤ n := Nat.le_of_not_lt fun hlt => hother (hbefore n hpos hlt)
    by_cases hconflict : Conflicts (outcomes k)
    · -- The limit has been reached before any other outcome.
      have hk : k = limit := Nat.le_antisymm hlimit
        (Nat.le_of_not_lt fun hlt => hstop hlt hconflict)
      have hne : n ≠ k := fun heq => hother (heq ▸ hconflict)
      have hlt : ¬ n ≤ limit := by omega
      rw [if_neg hlt, lastWord_of_conflicts hconflict, hk]
      exact ⟨by omega, rfl⟩
    · obtain rfl : n = k := Nat.le_antisymm (hleast ⟨hk, hconflict⟩) hle
      rw [if_pos hlimit, lastWord_of_not_conflicts hconflict]
      exact ⟨by omega, rfl⟩
  none hempty := by
    have hconflict : Conflicts (outcomes k) := by
      by_contra hother
      have hmem : k ∈ others outcomes := ⟨hk, hother⟩
      rw [hempty] at hmem
      exact hmem
    obtain rfl : k = limit := Nat.le_antisymm hlimit
      (Nat.le_of_not_lt fun hlt => hstop hlt hconflict)
    exact ⟨rfl, lastWord_of_conflicts hconflict k⟩

/-- The first outcome that is no conflict decides, and there is one or there is none. -/
theorem Prescribes.unique {limit k k' : Nat} {outcomes : Nat → Except TransferError α}
    {result result' : Except TransferError α} (h : Prescribes limit outcomes k result)
    (h' : Prescribes limit outcomes k' result') : k = k' ∧ result = result' := by
  rcases (others outcomes).eq_empty_or_nonempty with hempty | hsome
  · obtain ⟨rfl, rfl⟩ := h.none hempty
    obtain ⟨rfl, rfl⟩ := h'.none hempty
    exact ⟨rfl, rfl⟩
  · have hleast : IsLeast (others outcomes) (sInf (others outcomes)) :=
      ⟨Nat.sInf_mem hsome, fun n hn => Nat.sInf_le hn⟩
    obtain ⟨rfl, rfl⟩ := h.least _ hleast
    obtain ⟨rfl, rfl⟩ := h'.least _ hleast
    exact ⟨rfl, rfl⟩

/-! ## Attempts on a store -/

/-- The state of the store after so many attempts. -/
def stateAfter (b : Backend σ) (s : σ) (op : Nat → Process α) : Nat → σ
  | 0 => s
  | n + 1 => ((op (n + 1)).runOn b (stateAfter b s op n)).state

/-- The attempts that are made, up to the limit, each after a conflict, have these outcomes. -/
def Yields (b : Backend σ) (s : σ) (op : Nat → Process (Except TransferError α)) (limit : Nat)
    (outcomes : Nat → Except TransferError α) : Prop :=
  ∀ n < limit, (∀ m, 1 ≤ m → m ≤ n → Conflicts (outcomes m)) →
    ((op (n + 1)).runOn b (stateAfter b s op n)).settled = .answered (outcomes (n + 1))

namespace RetryPolicy

/-- What is done between an attempt and the next one, and nothing before the first. -/
def pause (p : RetryPolicy) (again : Nat → Event) : Nat → List Deed
  | 0 => []
  | n + 1 => [.reports (again (n + 1)), .sleeps (p.ceiling (n + 1))]

/-- All that is done in so many attempts, with the pauses between them. -/
def tries (p : RetryPolicy) (again : Nat → Event) (b : Backend σ) (s : σ) (op : Nat → Process α) :
    Nat → List Deed
  | 0 => []
  | n + 1 =>
    p.tries again b s op n ++ p.pause again n ++ (op (n + 1)).deeds b (stateAfter b s op n)

end RetryPolicy

/-! ## The loop -/

/-- What a loop of attempts reports: that it tries again after an attempt, and how the last attempt
has ended. -/
structure Reports (α : Type) where
  again : Nat → Event
  ended : Nat → Except TransferError α → List Event

namespace RetryPolicy

variable {p : RetryPolicy} {told : Reports α} {op : Nat → Process (Except TransferError α)}
variable {outcomes : Nat → Except TransferError α} {limit : Nat}

/-- Ends a loop of attempts. -/
def conclude (told : Reports α) (attempt : Nat) (outcome : Except TransferError α) :
    Process (Retried α) :=
  .telling (told.ended attempt outcome) (.done ⟨lastWord attempt outcome, attempt⟩)

/-- Attempt number `attempt` and, after a conflict, up to `left` further ones, with reports. -/
def loopFrom (p : RetryPolicy) (told : Reports α) (op : Nat → Process (Except TransferError α))
    (attempt : Nat) : (left : Nat) → Process (Retried α)
  | 0 => (op attempt).bind (conclude told attempt)
  | left + 1 =>
    (op attempt).bind fun
      | .ok a => conclude told attempt (.ok a)
      | .error e =>
        if e.retryable then
          .note (told.again attempt)
            (.sleep (p.ceiling attempt) (loopFrom p told op (attempt + 1) left))
        else conclude told attempt (.error e)

/-- The loop with a counter in a word: it goes on while the counter is below the limit of the
policy, and to count past the greatest number of the word is a panic. -/
def countingFrom (w : Word) (p : RetryPolicy) (told : Reports α)
    (op : Nat → Process (Except TransferError α)) (attempt : Nat) : Process (Retried α) :=
  (op attempt).bind fun
    | .ok a => conclude told attempt (.ok a)
    | .error e =>
      if e.retryable then
        if attempt < p.maxAttempts then
          .note (told.again attempt)
            (.sleep (p.ceiling attempt)
              (if w.Holds (attempt + 1) then countingFrom w p told op (attempt + 1)
              else .panic "attempt to add with overflow"))
        else conclude told attempt (.error e)
      else conclude told attempt (.error e)
termination_by p.maxAttempts - attempt

theorem conclude_does (told : Reports α) (attempt : Nat) (outcome : Except TransferError α)
    (b : Backend σ) (s : σ) :
    Process.Does b s (conclude told attempt outcome)
      ((told.ended attempt outcome).map .reports) s ⟨lastWord attempt outcome, attempt⟩ := by
  have h := (Process.Does.done b s (⟨lastWord attempt outcome, attempt⟩ : Retried α)).telling
    (told.ended attempt outcome)
  rwa [List.append_nil] at h

/-- From any attempt on, the loop goes on to the first attempt that is no conflict, or to the last
one that is allowed. -/
theorem loopFrom_does (told : Reports α) (hyields : Yields b s op limit outcomes) (left n : Nat)
    (hlimit : n + left + 1 = limit) (hbefore : ∀ m, 1 ≤ m → m ≤ n → Conflicts (outcomes m)) :
    ∃ k ds, n < k ∧ k ≤ limit ∧ (∀ m, 1 ≤ m → m < k → Conflicts (outcomes m)) ∧
      (k < limit → ¬ Conflicts (outcomes k)) ∧
      p.tries told.again b s op n ++ p.pause told.again n ++ ds =
        p.tries told.again b s op k ++ (told.ended k (outcomes k)).map .reports ∧
      Process.Does b (stateAfter b s op n) (p.loopFrom told op (n + 1) left) ds
        (stateAfter b s op k) ⟨lastWord k (outcomes k), k⟩ := by
  induction left generalizing n with
  | zero =>
    have hop := Process.Does.of_settled (hyields n (by omega) hbefore)
    refine ⟨n + 1, _, by omega, by omega, fun m hm hlt => hbefore m hm (by omega),
      fun hlt => absurd hlt (by omega), ?_, hop.bind (conclude_does told _ _ b _)⟩
    rw [tries, List.append_assoc, List.append_assoc, List.append_assoc]
  | succ left ih =>
    have hop := Process.Does.of_settled (hyields n (by omega) hbefore)
    by_cases hconflict : Conflicts (outcomes (n + 1))
    · -- Another attempt follows; what the loop does until then is one attempt and one pause more.
      obtain ⟨k, ds, hlt, hle, hall, hstop, hdeeds, hdoes⟩ := ih (n + 1) (by omega)
        fun m hm hle => (Nat.lt_or_eq_of_le hle).elim (fun hlt => hbefore m hm (by omega))
          fun heq => heq ▸ hconflict
      have hdoes : Process.Does b (stateAfter b s op n) (p.loopFrom told op (n + 1) (left + 1))
          ((op (n + 1)).deeds b (stateAfter b s op n) ++ (p.pause told.again (n + 1) ++ ds))
          (stateAfter b s op k) ⟨lastWord k (outcomes k), k⟩ := by
        rw [loopFrom]
        refine hop.bind ?_
        obtain ⟨c, hc⟩ := hconflict
        rw [hc]
        exact (hdoes.sleep (p.ceiling (n + 1))).note (told.again (n + 1))
      refine ⟨k, _, by omega, hle, hall, hstop, ?_, hdoes⟩
      rw [← hdeeds, tries, List.append_assoc, List.append_assoc, List.append_assoc,
        List.append_assoc]
    · have hdoes : Process.Does b (stateAfter b s op n) (p.loopFrom told op (n + 1) (left + 1))
          ((op (n + 1)).deeds b (stateAfter b s op n) ++
            (told.ended (n + 1) (outcomes (n + 1))).map .reports)
          (stateAfter b s op (n + 1)) ⟨lastWord (n + 1) (outcomes (n + 1)), n + 1⟩ := by
        rw [loopFrom]
        refine hop.bind ?_
        cases houtcome : outcomes (n + 1) with
        | ok a => exact conclude_does told _ _ b _
        | error e =>
          rw [houtcome, conflicts_error_iff] at hconflict
          simp only [if_neg hconflict]
          exact conclude_does told _ _ b _
      refine ⟨n + 1, _, by omega, by omega, fun m hm hlt => hbefore m hm (by omega),
        fun _ => hconflict, ?_, hdoes⟩
      rw [tries, List.append_assoc, List.append_assoc, List.append_assoc]

/-- The loop makes the attempts that are prescribed, with what they do, and gives the answer that is
prescribed. -/
theorem loopFrom_exact (told : Reports α) (hlimit : 1 ≤ p.maxAttempts)
    (hyields : Yields b s op p.maxAttempts outcomes) :
    ∃ k result, Prescribes p.maxAttempts outcomes k result ∧
      Process.Does b s (p.loopFrom told op 1 (p.maxAttempts - 1))
        (p.tries told.again b s op k ++ (told.ended k (outcomes k)).map .reports)
        (stateAfter b s op k) ⟨result, k⟩ := by
  obtain ⟨k, ds, hlt, hle, hall, hstop, hdeeds, hdoes⟩ := loopFrom_does (p := p) told
    hyields (p.maxAttempts - 1) 0 (by omega) fun m hm hle => absurd hm (by omega)
  refine ⟨k, _, .of_stop hlt hle hall hstop, ?_⟩
  rw [← hdeeds]
  exact hdoes

/-- As long as the limit fits the word, the counter never passes the greatest number of it. -/
theorem countingFrom_eq {w : Word} (hw : w.Holds p.maxAttempts) (left attempt : Nat)
    (h : attempt + left = p.maxAttempts) :
    p.countingFrom w told op attempt = p.loopFrom told op attempt left := by
  induction left generalizing attempt with
  | zero =>
    have hlast : ¬ attempt < p.maxAttempts := by omega
    rw [countingFrom, loopFrom]
    congr 1
    funext outcome
    cases outcome with
    | ok a => rfl
    | error e => simp only [if_neg hlast, ite_self]
  | succ left ih =>
    have hmore : attempt < p.maxAttempts := by omega
    have hholds : w.Holds (attempt + 1) := by
      have hleast := w.least_nonpos
      have hgreatest := hw.2
      exact ⟨by omega, by omega⟩
    rw [countingFrom, loopFrom]
    congr 1
    funext outcome
    cases outcome with
    | ok a => rfl
    | error e => simp only [if_pos hmore, if_pos hholds, ih (attempt + 1) (by omega)]

/-! ## The two loops -/

/-- The loop for any operation reports only that it tries again. -/
def reports : Reports α := ⟨.conflictRetried, fun _ _ => []⟩

theorem retryFrom_eq (p : RetryPolicy) (op : Nat → Process (Except TransferError α))
    (attempt left : Nat) : p.retryFrom op attempt left = p.loopFrom reports op attempt left := by
  induction left generalizing attempt with
  | zero =>
    rw [retryFrom, loopFrom]
    congr 1
    funext outcome
    cases outcome <;> rfl
  | succ left ih =>
    rw [retryFrom, loopFrom]
    congr 1
    funext outcome
    cases outcome with
    | ok a => rfl
    | error e =>
      simp only [ih]
      split
      · rfl
      · rename_i hfinal
        simp [conclude, reports, lastWord, hfinal, Process.telling]

end RetryPolicy

/-- A transfer reports how its last attempt has ended as well. -/
def TransferOrder.reports (o : TransferOrder) : Reports Receipt where
  again := .transferConflict o.toMovement
  ended attempt
    | .ok receipt => [.transferCommitted receipt.transfer.id o.toMovement attempt]
    | .error e =>
      [if e.retryable then .retriesExhausted o.toMovement attempt
      else .transferRejected o.toMovement attempt e.message]

theorem TransferOrder.executeFrom_eq (o : TransferOrder) (p : RetryPolicy) (attempt left : Nat) :
    o.executeFrom p attempt left =
      (p.loopFrom o.reports (fun _ => o.attempt.atomically) attempt left).map (·.result) := by
  induction left generalizing attempt with
  | zero =>
    rw [executeFrom, RetryPolicy.loopFrom, Process.bind_map]
    congr 1
    funext outcome
    cases outcome with
    | ok receipt => rfl
    | error e => by_cases hretry : e.retryable = true <;>
        simp [hretry, RetryPolicy.conclude, reports, lastWord, Process.telling, Process.map,
          Process.bind]
  | succ left ih =>
    rw [executeFrom, RetryPolicy.loopFrom, Process.bind_map]
    congr 1
    funext outcome
    cases outcome with
    | ok receipt => rfl
    | error e =>
      by_cases hretry : e.retryable = true
      · simp only [hretry, if_true, ih]
        rfl
      · simp [hretry, RetryPolicy.conclude, reports, lastWord, Process.telling, Process.map,
          Process.bind]

/-- An attempt at a transfer never panics, so attempts have outcomes on every store. -/
theorem TransferOrder.exists_yields (o : TransferOrder) (b : Backend σ) (s : σ) (limit : Nat) :
    ∃ outcomes, Yields b s (fun _ => o.attempt.atomically) limit outcomes := by
  have hanswers : ∀ n, ∃ outcome, (o.attempt.atomically.runOn b
      (stateAfter b s (fun _ => o.attempt.atomically) n)).settled = .answered outcome := fun n => by
    obtain ⟨-, outcome, hsettled, -⟩ := o.attempt_tried (o.attempt.atomically_tried b
      (stateAfter b s (fun _ => o.attempt.atomically) n))
    exact ⟨outcome, hsettled⟩
  choose outcome houtcome using hanswers
  exact ⟨fun n => outcome (n - 1), fun n _ _ => houtcome n⟩

theorem TransferRequest.execute_eq {r : TransferRequest} {o : TransferOrder}
    (hvalid : r.validate = .ok o) (p : RetryPolicy) :
    r.execute p = (p.loopFrom o.reports (fun _ => o.attempt.atomically) 1
      (p.maxAttempts - 1)).map (·.result) := by
  rw [execute, hvalid]
  exact o.executeFrom_eq p 1 (p.maxAttempts - 1)

/-- The two loops are exact and agree: they make one attempt after the other, with the pauses of the
policy in between and nothing else, up to the first that is no conflict and no more than the policy
allows, and answer its outcome, or a conflict that counts the attempts. Neither overflows a 32-bit
counter of attempts. -/
theorem RetryPolicy.loops_exact (p : RetryPolicy) (hlimit : 1 ≤ p.maxAttempts) :
    (∀ (σ α : Type) (b : Backend σ) (s : σ) (op : Nat → Process (Except TransferError α))
      (outcomes : Nat → Except TransferError α), Yields b s op p.maxAttempts outcomes →
      ∃ k result, Prescribes p.maxAttempts outcomes k result ∧
        (p.retry op).Does b s (p.tries .conflictRetried b s op k) (stateAfter b s op k)
          ⟨result, k⟩) ∧
    (∀ (σ : Type) (b : Backend σ) (s : σ) (r : TransferRequest) (o : TransferOrder),
      r.validate = .ok o →
      (∃ outcomes, Yields b s (fun _ => o.attempt.atomically) p.maxAttempts outcomes) ∧
      ∀ outcomes, Yields b s (fun _ => o.attempt.atomically) p.maxAttempts outcomes →
        ∃ k result, Prescribes p.maxAttempts outcomes k result ∧
          (r.execute p).Does b s
            (p.tries (.transferConflict o.toMovement) b s (fun _ => o.attempt.atomically) k ++
              (o.reports.ended k (outcomes k)).map .reports)
            (stateAfter b s (fun _ => o.attempt.atomically) k) result ∧
          (p.retry fun _ => o.attempt.atomically).Does b s
            (p.tries .conflictRetried b s (fun _ => o.attempt.atomically) k)
            (stateAfter b s (fun _ => o.attempt.atomically) k) ⟨result, k⟩) ∧
    (Word.nat32.Holds p.maxAttempts →
      (∀ (α : Type) (op : Nat → Process (Except TransferError α)),
        p.retry op = p.countingFrom .nat32 reports op 1) ∧
      ∀ (r : TransferRequest) (o : TransferOrder), r.validate = .ok o →
        r.execute p = (p.countingFrom .nat32 o.reports (fun _ => o.attempt.atomically) 1).map
          (·.result)) := by
  have hretry : ∀ {α : Type} (op : Nat → Process (Except TransferError α)),
      p.retry op = p.loopFrom reports op 1 (p.maxAttempts - 1) := fun op => p.retryFrom_eq op 1 _
  have hexact : ∀ {σ α : Type} {b : Backend σ} {s : σ}
      {op : Nat → Process (Except TransferError α)} {outcomes : Nat → Except TransferError α},
      Yields b s op p.maxAttempts outcomes →
      ∃ k result, Prescribes p.maxAttempts outcomes k result ∧
        (p.retry op).Does b s (p.tries .conflictRetried b s op k) (stateAfter b s op k)
          ⟨result, k⟩ := by
    intro σ α b s op outcomes hyields
    obtain ⟨k, result, hprescribes, hdoes⟩ :=
      loopFrom_exact reports hlimit hyields
    rw [← hretry op, show (reports.ended k (outcomes k)).map Deed.reports = [] from rfl,
      List.append_nil] at hdoes
    exact ⟨k, result, hprescribes, hdoes⟩
  refine ⟨fun σ α b s op outcomes hyields => hexact hyields, fun σ b s r o hvalid =>
    ⟨o.exists_yields b s _, fun outcomes hyields => ?_⟩, fun hword => ?_⟩
  · obtain ⟨k, result, hprescribes, hdoes⟩ := hexact hyields
    obtain ⟨k', result', hprescribes', hdoes'⟩ :=
      loopFrom_exact o.reports hlimit hyields
    obtain ⟨rfl, rfl⟩ := hprescribes.unique hprescribes'
    refine ⟨k, result, hprescribes, ?_, hdoes⟩
    rw [TransferRequest.execute_eq hvalid]
    exact hdoes'.map (·.result)
  · have hcount : 1 + (p.maxAttempts - 1) = p.maxAttempts := by omega
    refine ⟨fun α op => ?_, fun r o hvalid => ?_⟩
    · rw [hretry, countingFrom_eq hword _ 1 hcount]
    · rw [TransferRequest.execute_eq hvalid, countingFrom_eq hword _ 1 hcount]

/-- A store that is busy when a unit of work is first begun, and knows no account. -/
def busyStore : Backend Nat where
  reply
    | n, .begin => (n + 1, if n = 0 then .error .conflict else .ok ())
    | n, .call _ => (n, .error (.accountNotFound 1))
    | n, .commit => (n, .ok ())
    | n, .rollback => (n, .ok ())
  abandon n := n

/-- Up to three attempts, without delay. -/
def thrice : RetryPolicy := .of 3 .zero .zero

/-- The first owner is to lend the second one 25 cents. -/
def loan : TransferRequest := ⟨1, 2, cents 25, "USD"⟩

/-- The loan, once its form has been checked. -/
def loanOrder : TransferOrder :=
  ⟨loan.movement, dollar, by decide, by decide, by decide, by decide⟩

/-- A conflict, and then an account that is not there. -/
def busyOutcomes : Nat → Except TransferError Receipt
  | 1 => .error (.conflict 1)
  | _ => .error (.accountNotFound 1)

/-- On the busy store the loan takes two attempts of three, in either loop. -/
theorem loan_retried :
    1 ≤ thrice.maxAttempts ∧ loan.validate = .ok loanOrder ∧
    Yields busyStore 0 (fun _ => loanOrder.attempt.atomically) 3 busyOutcomes ∧
    ((loan.execute thrice).runOn busyStore 0).settled =
      .answered (.error (.accountNotFound 1)) ∧
    ((thrice.retry fun _ => loanOrder.attempt.atomically).runOn busyStore 0).settled =
      .answered ⟨.error (.accountNotFound 1), 2⟩ ∧
    thrice.retry (fun _ => loanOrder.attempt.atomically) =
      thrice.countingFrom .nat32 RetryPolicy.reports (fun _ => loanOrder.attempt.atomically) 1 := by
  have hlimit : 1 ≤ thrice.maxAttempts := by decide
  have hvalid : loan.validate = .ok loanOrder := by rfl
  obtain ⟨-, hloan, hcounted⟩ := thrice.loops_exact hlimit
  have hother : ¬ Conflicts (busyOutcomes 2) := by
    rintro ⟨n, ⟨⟩⟩
  have hyields : Yields busyStore 0 (fun _ => loanOrder.attempt.atomically) 3 busyOutcomes := by
    intro n hn hbefore
    obtain rfl | rfl | rfl : n = 0 ∨ n = 1 ∨ n = 2 := by omega
    · rfl
    · rfl
    · exact absurd (hbefore 2 (by decide) (by decide)) hother
  have hleast : IsLeast (others busyOutcomes) 2 := by
    refine ⟨⟨by decide, hother⟩, fun n ⟨hpos, hn⟩ => ?_⟩
    by_contra hlt
    obtain rfl : n = 1 := by omega
    exact hn ⟨1, rfl⟩
  obtain ⟨k, result, hprescribes, hexecute, hretry⟩ :=
    (hloan Nat busyStore 0 loan loanOrder hvalid).2 busyOutcomes hyields
  obtain ⟨rfl, rfl⟩ := hprescribes.least 2 hleast
  exact ⟨hlimit, hvalid, hyields, hexecute.settled, hretry.settled,
    (hcounted (by decide)).1 _ _⟩

end FundsLedger
