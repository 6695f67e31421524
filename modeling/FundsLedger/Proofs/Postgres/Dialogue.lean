import FundsLedger.Postgres.Store
import FundsLedger.Proofs.Transfer.Protocol

/-!
Talking to a server. What a process asks of the store comes to the server as statements, and the
server may answer each of them in any way. Everything that is said on a connection until a process
ends is put together from what its requests take.
-/

namespace FundsLedger.Postgres

variable {σ α : Type} {server : Server σ} {isolation : Isolation} {c c' c'' : Connection σ}

/-- A statement and what the server has answered to it. -/
structure Asked where
  statement : Statement
  answer : Except DriverError (List Row)

/-! ## Dialogues -/

/-- On this connection the server is sent these statements, gives these answers, and leaves the
connection like that. -/
inductive Server.Says (server : Server σ) : Connection σ → List Asked → Connection σ → Prop
  | nil (c : Connection σ) : Says server c [] c
  | cons (st : Statement) {c c' : Connection σ} {xs : List Asked}
      (rest : Says server (server.send c st).1 xs c') :
      Says server c (⟨st, (server.send c st).2⟩ :: xs) c'

namespace Server.Says

variable {xs ys : List Asked}

theorem append (h : server.Says c xs c') (h' : server.Says c' ys c'') :
    server.Says c (xs ++ ys) c'' := by
  induction h with
  | nil => exact h'
  | cons st rest ih => exact .cons st (ih h')

/-- One statement. -/
theorem single (server : Server σ) (c : Connection σ) (st : Statement) :
    server.Says c [⟨st, (server.send c st).2⟩] (server.send c st).1 :=
  .cons st (.nil _)

/-- The connection has received the statements of the dialogue, and nothing else. -/
theorem received (h : server.Says c xs c') :
    c'.received = (xs.map (·.statement)).reverse ++ c.received := by
  induction h with
  | nil => rfl
  | cons st rest ih =>
    rw [ih, List.map_cons, List.reverse_cons, List.append_assoc]
    rfl

end Server.Says

/-! ## Requests -/

/-- The statement that rolls a transaction back. -/
def rollback : Statement := command "ROLLBACK"

/-- What a command that ends a transaction or sets it up takes at the server. If it is refused the
transaction is rolled back on the way out, whatever that is answered. -/
inductive Controlled (st : Statement) : Except StoreError Unit → List Asked → Prop
  | done (rows : List Row) : Controlled st (.ok ()) [⟨st, .ok rows⟩]
  | left (e : DriverError) (answer : Except DriverError (List Row)) :
      Controlled st (.error e.toStoreError) [⟨st, .error e⟩, ⟨rollback, answer⟩]

/-- What a request with its reply takes at the server. -/
inductive Sent (isolation : Isolation) : Exchange → List Asked → Prop
  | unbegun (e : DriverError) :
      Sent isolation ⟨.begin, .error e.toStoreError⟩ [⟨command "BEGIN", .error e⟩]
  | begun (rows : List Row) {reply : Except StoreError Unit} {xs : List Asked}
      (controlled : Controlled (command isolation.sql) reply xs) :
      Sent isolation ⟨.begin, reply⟩ (⟨command "BEGIN", .ok rows⟩ :: xs)
  | called (call : Call) (answer : Except DriverError (List Row)) :
      Sent isolation ⟨.call call, interpret call answer⟩ [⟨statement call, answer⟩]
  | committed {reply : Except StoreError Unit} {xs : List Asked}
      (controlled : Controlled (command "COMMIT") reply xs) : Sent isolation ⟨.commit, reply⟩ xs
  | rolledBack {reply : Except StoreError Unit} {xs : List Asked}
      (controlled : Controlled rollback reply xs) : Sent isolation ⟨.rollback, reply⟩ xs

theorem Server.control_says (server : Server σ) (c : Connection σ) (sql : String) :
    ∃ xs, Controlled (command sql) (server.control c sql).2 xs ∧
      server.Says c xs (server.control c sql).1 := by
  have hfirst := Says.single server c (command sql)
  unfold control
  rcases hsend : server.send c (command sql) with ⟨c', e | rows⟩ <;> rw [hsend] at hfirst
  · have hleft := Says.single server c' rollback
    exact ⟨_, .left e (server.send c' rollback).2, hfirst.append hleft⟩
  · exact ⟨_, .done rows, hfirst⟩

/-- What the server is sent for a request, with its answers. -/
theorem Server.reply_says (server : Server σ) (isolation : Isolation) (c : Connection σ)
    (r : Request) :
    ∃ xs, Sent isolation ⟨r, ((store server isolation).reply c r).2⟩ xs ∧
      server.Says c xs ((store server isolation).reply c r).1 := by
  cases r with
  | begin =>
    have hbegin := Says.single server c (command "BEGIN")
    simp only [store, Server.begin]
    rcases hsend : server.send c (command "BEGIN") with ⟨c', e | rows⟩ <;> rw [hsend] at hbegin
    · exact ⟨_, .unbegun e, hbegin⟩
    · obtain ⟨xs, hcontrolled, hsays⟩ := server.control_says c' isolation.sql
      exact ⟨_, .begun rows hcontrolled, hbegin.append hsays⟩
  | call call => exact ⟨_, .called call (server.send c (statement call)).2, .single server c _⟩
  | commit =>
    obtain ⟨xs, hcontrolled, hsays⟩ := server.control_says c "COMMIT"
    exact ⟨xs, .committed hcontrolled, hsays⟩
  | rollback =>
    obtain ⟨xs, hcontrolled, hsays⟩ := server.control_says c "ROLLBACK"
    exact ⟨xs, .rolledBack hcontrolled, hsays⟩

/-- What is said on a connection until a process has answered: for each of its requests what that
takes, and nothing in between. -/
theorem Server.process_says (server : Server σ) (isolation : Isolation) (c : Connection σ)
    {p : Process α} {a : α} (h : (p.runOn (store server isolation) c).settled = .answered a) :
    ∃ xss, List.Forall₂ (Sent isolation) (p.exchanges (store server isolation) c) xss ∧
      server.Says c xss.flatten (p.runOn (store server isolation) c).state := by
  induction p generalizing c with
  | done a' => exact ⟨[], .nil, .nil c⟩
  | ask r next ih =>
    obtain ⟨xs, hsent, hsays⟩ := server.reply_says isolation c r
    obtain ⟨xss, hall, hrest⟩ := ih _ _ h
    exact ⟨xs :: xss, .cons hsent hall, hsays.append hrest⟩
  | note event rest ih => exact ih c h
  | sleep longest rest ih => exact ih c h
  | panic message => cases h

end FundsLedger.Postgres
