import AccessControl.Database.Statement

/-! # Transactions

A program on the database executes statements, alone or between the beginning and the end
of a transaction.  A transaction that has begun is committed once its statements have
succeeded; if one fails, or if the commit fails, it is rolled back.
-/
namespace AccessControl

namespace Database

/-- What the database reports when something fails. -/
structure Report where
  code : String
  /-- The wording of the database. -/
  message : String
  deriving DecidableEq, Repr

/-- What a statement gives: rows, and how many rows it concerned. -/
structure Reply (α : Type) where
  rows : List α
  affected : Nat
  deriving DecidableEq, Repr

/-- What is sent to the database. -/
inductive Request where
  | begin
  | commit
  | rollback
  | execute (s : Statement)
  deriving DecidableEq

/-- What comes back. -/
@[reducible] def Answer : Request → Type
  | .begin => Except Report Unit
  | .commit => Except Report Unit
  | .rollback => Unit
  | .execute s => Except Report (Reply s.Row)

end Database

/-- The requests to the database and their answers. -/
@[reducible] def Database : Interface := ⟨Database.Request, Database.Answer⟩

namespace Database

/-- A program on the database that ends in a result or in a failure. -/
abbrev Action (α : Type) : Type := ExceptT Failure (Program Database) α

/-- The program that makes one request. -/
def request (r : Request) : Program Database (Answer r) := Program.request (I := Database) r

/-- Why a query has no result. -/
inductive QueryFault where
  /-- The database reports a failure. -/
  | reported (report : Report)
  /-- A row is needed and there is none. -/
  | noRow
  deriving DecidableEq, Repr

/-- The wording of a fault. -/
def QueryFault.message : QueryFault → String
  | .reported report => "error returned from database: " ++ report.message
  | .noRow => "no rows returned by a query that expected to return at least one row"

/-- An internal failure that says what could not be done. -/
def couldNot (what : String) (fault : QueryFault) : Failure :=
  .internal ("failed to " ++ what ++ ": " ++ fault.message)

/-- A part of an action whose failures the action itself handles. -/
def attempt {α : Type} (p : Program Database (Except Report α))
    (explain : QueryFault → Failure) : Action α :=
  ExceptT.mk do
    match ← p with
    | .ok a => return .ok a
    | .error report => return .error (explain (.reported report))

/-- Executes a statement; a failure is told as `explain` says. -/
def execute (s : Statement) (explain : QueryFault → Failure) : Action (Reply s.Row) :=
  attempt (request (.execute s)) explain

/-- The rows of a statement. -/
def fetchAll (s : Statement) (explain : QueryFault → Failure) : Action (List s.Row) := do
  return (← execute s explain).rows

/-- The first row of a statement, if there is one. -/
def fetchOptional (s : Statement) (explain : QueryFault → Failure) : Action (Option s.Row) := do
  return (← execute s explain).rows.head?

/-- The first row of a statement, which must give one. -/
def fetchOne (s : Statement) (explain : QueryFault → Failure) : Action s.Row := do
  match ← fetchOptional s explain with
  | some row => return row
  | none => throw (explain .noRow)

/-- Executes a statement and tells how many rows it concerned. -/
def affecting (s : Statement) (explain : QueryFault → Failure) : Action Nat := do
  return (← execute s explain).affected

/-- Runs statements in a transaction. -/
def transaction {α : Type} (body : Action α) : Action α :=
  ExceptT.mk do
    match ← request .begin with
    | .error report => return .error (couldNot "begin transaction" (.reported report))
    | .ok () =>
      match ← body.run with
      | .error failure =>
        let () ← request .rollback
        return .error failure
      | .ok a =>
        match ← request .commit with
        | .ok () => return .ok a
        | .error report =>
          let () ← request .rollback
          return .error (couldNot "commit transaction" (.reported report))

end Database
end AccessControl
