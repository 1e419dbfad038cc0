import NestedJoin.Fault
import NestedJoin.Row
set_option autoImplicit false

/-!
# Connections

What executes statements.  A connection or a session executes a statement at once; an
engine opens a connection for it and closes it afterwards, whether or not the execution
went well.  Every step is recorded as an event.

Main statement: `execute_engine`, what an engine opens it closes.
-/

namespace NestedJoin

/-- What kind of thing executes statements. -/
inductive ConnectionKind where
  | connection
  | session
  /-- opens a connection for every statement -/
  | engine
  deriving DecidableEq, Repr, Inhabited

/-- Something that executes statements: every statement yields the same rows, or fails. -/
structure Connection where
  kind : ConnectionKind
  rows : List Row
  /-- why every execution fails, if it does -/
  failure : Option String

/-- What happened on a connection. -/
inductive Event where
  | opened
  | executed (statement : String)
  | closed
  deriving DecidableEq, Repr, Inhabited

namespace Connection

/-- Executes a statement without opening anything; a statement without a text is not executed. -/
def executeDirectly (c : Connection) (statement : Except Fault String) :
    List Event × Except Fault (List Row) :=
  match statement with
  | .error f => ([], .error f)
  | .ok sql =>
    ([.executed sql],
      match c.failure with
      | some message => .error (.executionFailed message)
      | none => .ok c.rows)

/-- Executes a statement. -/
def execute (c : Connection) (statement : Except Fault String) :
    List Event × Except Fault (List Row) :=
  match c.kind with
  | .engine =>
    let (events, outcome) := c.executeDirectly statement
    (.opened :: events ++ [.closed], outcome)
  | _ => c.executeDirectly statement

/-- Executes a statement that is written beforehand: one without a text opens nothing. -/
def executeWritten (c : Connection) (statement : Except Fault String) :
    List Event × Except Fault (List Row) :=
  match statement with
  | .error f => ([], .error f)
  | .ok sql => c.execute (.ok sql)

/-- What an engine opens it closes. -/
theorem execute_engine {c : Connection} (h : c.kind = .engine) (statement : Except Fault String) :
    ∃ events, (c.execute statement).1 = .opened :: events ++ [.closed] ∧
      .opened ∉ events ∧ .closed ∉ events := by
  refine ⟨(c.executeDirectly statement).1, by simp [execute, h], ?_⟩
  cases statement <;> simp [executeDirectly]

end Connection

end NestedJoin
