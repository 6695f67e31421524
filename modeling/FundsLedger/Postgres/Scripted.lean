import FundsLedger.Postgres.Store

/-!
A server that answers from a script. The commands around transactions succeed as long as no fault is
left for them; every other statement takes the next reply, and returns no rows when none is left.
-/

namespace FundsLedger.Postgres

/-- A reply of the script: a failure, or rows, which may come with columns of their own. -/
inductive ScriptedReply where
  | failure (e : DriverError)
  | rows (columns : Option (List Column)) (values : List (List SqlValue))

/-- What is left of a script: the replies, and the faults by the first word of the command. -/
structure ScriptState where
  replies : List ScriptedReply
  faults : List (String × List DriverError)

/-- Puts the values of a row under its columns. The time of creation is supplied; a value that is
not there is null. -/
def fillRow : List Column → List SqlValue → Row
  | [], _ => []
  | c :: columns, values =>
    if c.name = createdAt.name then (c, .time Timestamp.epoch) :: fillRow columns values
    else
      match values with
      | [] => (c, .null) :: fillRow columns []
      | v :: rest => (c, v) :: fillRow columns rest

/-- The words of the commands around transactions. -/
def commandWords : List String := ["BEGIN", "SET", "COMMIT", "ROLLBACK"]

/-- The first word of a statement, if it is a command around transactions. -/
def commandWord? (st : Statement) : Option String :=
  commandWords.find? fun word => word.toList.isPrefixOf st.sql.toList

/-- Takes the next fault for a command, if one is left. -/
def takeFault (word : String) :
    List (String × List DriverError) → Option DriverError × List (String × List DriverError)
  | [] => (none, [])
  | (w, faults) :: rest =>
    if w = word then
      match faults with
      | [] => (none, (w, []) :: rest)
      | e :: others => (some e, (w, others) :: rest)
    else
      let (fault, rest') := takeFault word rest
      (fault, (w, faults) :: rest')

/-- The server that answers from a script. -/
def scripted : Server ScriptState where
  answer s st :=
    match commandWord? st with
    | some word =>
      match takeFault word s.faults with
      | (some e, faults) => ({ s with faults }, .error e)
      | (none, faults) => ({ s with faults }, .ok [])
    | none =>
      match s.replies with
      | [] => (s, .ok [])
      | .failure e :: rest => ({ s with replies := rest }, .error e)
      | .rows columns values :: rest =>
        ({ s with replies := rest }, .ok (values.map (fillRow (columns.getD st.columns))))

end FundsLedger.Postgres
