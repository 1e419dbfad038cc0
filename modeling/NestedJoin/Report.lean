import NestedJoin.Compile
import NestedJoin.Modifier
set_option autoImplicit false

/-!
# Reports

What the parts of the library say about a piece of work that went well: a graph was
compiled, a statement is about to be executed, rows were folded into entities.  Work that
fails is not reported.
-/

namespace NestedJoin

/-- What a piece of work says about itself. -/
inductive Report where
  /-- a graph was compiled -/
  | compiled (aliases : List String) (columns joins filters : Nat)
  /-- a statement is about to be executed -/
  | executing (statement : String)
  /-- rows were folded into root entities; the counts are nodes by alias -/
  | materialized (rows roots : Nat) (counts : List (String × Nat))
  deriving DecidableEq, Repr, Inhabited

namespace Report

/-- The wording of a report. -/
def text : Report → String
  | .compiled aliases columns joins filters =>
    "Compiled join graph " ++ Text.quotedTuple aliases ++ ": " ++ toString columns ++
      " columns, " ++ toString joins ++ " joins, " ++ toString filters ++ " filters"
  | .executing statement => "Executing " ++ statement
  | .materialized rows roots counts =>
    "Materialized " ++ toString rows ++ " rows into " ++ toString roots ++ " root entities (" ++
      ", ".intercalate (counts.map fun c => c.1 ++ "=" ++ toString c.2) ++ ")"

end Report

namespace Graph

/-- What compiling a graph reports. -/
def compileReports (g : Graph) (filters : List Filter) (run : CompileRun) : List Report :=
  match run.outcome with
  | .error _ => []
  | .ok c => [.compiled g.aliases c.columns.length g.edges.length filters.length]

end Graph

namespace MaterializeRun

/-- What folding some rows reports. -/
def reports (run : MaterializeRun) (rows : List Row) : List Report :=
  match run.outcome with
  | .error _ => []
  | .ok (f, root) =>
    [.materialized rows.length (f.refsOf root).length
      (f.nodes.entries.map fun e => (e.1, e.2.size))]

end MaterializeRun

end NestedJoin
