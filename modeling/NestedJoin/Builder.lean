import NestedJoin.Connection
import NestedJoin.Report
import NestedJoin.Schema
set_option autoImplicit false

/-!
# Builders

A builder grows a join graph from subjects that a schema describes, collects filters and
modifiers, and runs the whole: compile, execute, fold the rows into entities.

Main statement: `modify_eq_ok_iff`, modifiers are taken for known aliases only.
-/

namespace NestedJoin

namespace Schema

/-- The table of a subject under an alias.  Its name is asked for first, then its columns, then
its primary key; only then is it looked at whether they fit together. -/
def table (s : Schema) (subject : Subject) (aliasName : String) (container : Option String) :
    Except Fault Table × Schema :=
  match s.tableName subject with
  | .error f => (.error f, s)
  | .ok name =>
    match s.fields subject with
    | (.error f, s') => (.error f, s')
    | (.ok fields, s') =>
      match s'.primaryKey subject with
      | (.error f, s'') => (.error f, s'')
      | (.ok primaryKey, s'') =>
        (Table.make aliasName name fields primaryKey container subject, s'')

end Schema

/-- A join graph in the making, with what is to be done to its statement and its entities. -/
structure Builder where
  graph : Graph
  /-- in the order of registration -/
  filters : List Filter
  modifiers : Modifiers

namespace Builder

/-- A builder of one table. -/
def ofRoot (root : Vertex) : Builder := ⟨.ofRoot root, [], .empty⟩

instance : Inhabited Builder := ⟨⟨.empty, [], .empty⟩⟩

/-! ## Growing -/

/-- Joins a described table to the table of an alias. -/
def join (b : Builder) (serial : Nat) (child : Vertex) (parentAlias : String) (spec : JoinSpec) :
    Except Fault Builder := do
  let parent ← b.graph.byAlias parentAlias
  let edge ← Edge.make serial child parent spec
  let graph ← b.graph.addEdge edge
  return { b with graph }

/-- What a join that went well did: it found the parent, made the edge and added it. -/
theorem join_eq_ok {b b' : Builder} {serial : Nat} {child : Vertex} {parentAlias : String}
    {spec : JoinSpec} (h : b.join serial child parentAlias spec = .ok b') :
    ∃ parent edge graph, b.graph.byAlias parentAlias = .ok parent ∧
      Edge.make serial child parent spec = .ok edge ∧ b.graph.addEdge edge = .ok graph ∧
      b' = { b with graph } := by
  simp only [join, bind, Except.bind] at h
  split at h
  · cases h
  · next parent hp =>
    split at h
    · cases h
    · next edge he =>
      split at h
      · cases h
      · next graph hg =>
        cases h
        exact ⟨parent, edge, graph, hp, he, hg, rfl⟩

/-- Registers a filter. -/
def filter (b : Builder) (f : Filter) : Builder := { b with filters := b.filters ++ [f] }

/-- Registers the modifier of an alias; it replaces an earlier one, in the earlier one's place. -/
def modify (b : Builder) (aliasName : String) (actions : List Action) : Except Fault Builder :=
  (b.graph.byAlias aliasName).map fun _ =>
    { b with modifiers := b.modifiers.insert aliasName actions }

/-- Modifiers are taken exactly for the aliases of the graph, and change nothing else. -/
theorem modify_eq_ok_iff {b b' : Builder} {aliasName : String} {actions : List Action} :
    b.modify aliasName actions = .ok b' ↔ b.graph.contains aliasName = true ∧
      b' = { b with modifiers := b.modifiers.insert aliasName actions } := by
  rw [modify, Graph.byAlias, Graph.contains, OrderedMap.contains]
  cases h : b.graph.find? aliasName with
  | none => simp [show b.graph.tables.get? aliasName = none from h, Except.map]
  | some v => simp [show b.graph.tables.get? aliasName = some v from h, Except.map, eq_comm]

/-! ## Running -/

/-- Compiles the graph with the filters. -/
def compile (b : Builder) (chains : KeyChains) : CompileRun := b.graph.compile b.filters chains

/-- Folds rows into entities; the key chains are worked out anew before. -/
def materialize (b : Builder) (chains : KeyChains) (rows : List Row) :
    MaterializeRun × KeyChains :=
  match b.graph.prepare chains with
  | .error f => (⟨[], .error f⟩, chains)
  | .ok chains' => (b.graph.materialize chains' b.modifiers rows, chains')

/-- What a run of a builder did. -/
structure Run where
  chains : KeyChains
  /-- what modifiers recorded -/
  calls : List Call
  /-- what happened on the connection -/
  events : List Event
  reports : List Report
  /-- the root entities -/
  outcome : Except Fault (List Value)

/-- The report that a statement is about to be executed. -/
def executingReports (statement : Except Fault String) : List Report :=
  match statement with
  | .ok sql => [.executing sql]
  | .error _ => []

/-- Compiles the statement, executes it on a connection and folds the rows into entities.  In a
run that is observed the statement is reported, and so written, before the connection sees it;
otherwise the connection writes it. -/
def run (b : Builder) (chains : KeyChains) (connection : Option Connection) (observed : Bool) :
    Run :=
  match connection with
  | none => ⟨chains, [], [], [], .error .noConnection⟩
  | some connection =>
    let compiled := b.compile chains
    let compiling := b.graph.compileReports b.filters compiled
    match compiled.outcome with
    | .error f => ⟨compiled.chains, [], [], compiling, .error f⟩
    | .ok c =>
      let sql := c.statement.text
      let reports := compiling ++ executingReports sql
      match if observed then connection.executeWritten sql else connection.execute sql with
      | (events, .error f) => ⟨compiled.chains, [], events, reports, .error f⟩
      | (events, .ok rows) =>
        let (folded, chains') := b.materialize compiled.chains rows
        ⟨chains', folded.calls, events, reports ++ folded.reports rows, folded.entities⟩

end Builder

end NestedJoin
