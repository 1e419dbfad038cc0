import NestedJoin.Graph
import NestedJoin.Filter
set_option autoImplicit false

/-!
# Compiling a join graph

A join graph becomes one flat statement.  Every field of every table is selected under its
flat column name, in graph order; the root is what the statement reads from, and each edge
adds one join.  A right join keeps every row of the joined table, so it is an outer join
with the joined table on the left and everything so far on its right.

The extra conditions of the edges share one set of parameters.  An edge that gives a name
another value than an earlier edge wins, and a warning says so.

Main statements: `columns_compile`, the compiled columns are the flat columns of the
tables, and `chains_compile`, compiling leaves behind the key chains that preparing does.
-/

namespace NestedJoin

open Sql

/-! ## Parameters -/

/-- Two edges bind one parameter name with different values; the later value counts. -/
structure ParameterCollision where
  name : String
  /-- the alias of the later edge -/
  aliasName : String
  earlier : Value
  later : Value
  deriving Repr, Inhabited

namespace ParameterCollision

/-- The wording of a warning. -/
def message (w : ParameterCollision) : String :=
  "Join parameter " ++ Text.quoted w.name ++ " of " ++ Text.quoted w.aliasName ++
    " overrides the value " ++ w.earlier.text ++ " bound by an earlier join with " ++ w.later.text

end ParameterCollision

/-- Parameters merged so far, and the warnings on the way. -/
structure Parameters where
  values : OrderedMap String Value
  warnings : List ParameterCollision

namespace Parameters

/-- No parameters. -/
def empty : Parameters := ⟨.empty, []⟩

/-- Adds one parameter of an edge. -/
def add (aliasName : String) (ps : Parameters) (p : String × Value) : Parameters :=
  { values := ps.values.insert p.1 p.2
    warnings := match ps.values.get? p.1 with
      | none => ps.warnings
      | some old =>
        if old.same p.2 then ps.warnings else ps.warnings ++ [⟨p.1, aliasName, old, p.2⟩] }

/-- Adds the parameters of an edge. -/
def addEdge (ps : Parameters) (e : Edge) : Parameters := e.params.entries.foldl (add e.aliasName) ps

/-- The parameters of some edges; a later edge wins. -/
def ofEdges (es : List Edge) : Parameters := es.foldl addEdge empty

end Parameters

/-! ## Extra conditions -/

/-- A condition without the connector AND in front of it: blanks, the word in any letter case,
and at least one blank. -/
def dropLeadingAnd (cs : List Char) : List Char :=
  match Text.dropBlanks cs with
  | a :: n :: d :: b :: rest =>
    if a.toLower = 'a' ∧ n.toLower = 'n' ∧ d.toLower = 'd' ∧ Text.isBlank b = true then
      Text.dropBlanks rest
    else cs
  | _ => cs

/-- The text of an extra condition that goes into a join, if there is one. -/
def extraText? (condition : Option String) : Option String :=
  match condition with
  | none => none
  | some c =>
    match Text.strip (dropLeadingAnd c.toList) with
    | [] => none
    | cs => some (String.ofList cs)

/-! ## The statement -/

namespace Graph

/-- The source that stands for a vertex. -/
def leaf (v : Vertex) : Source OnClause := .aliased v.aliasName (.table v.table.name v.table.fields)

/-- The result columns of a graph. -/
def outputColumns (g : Graph) : List OutputColumn :=
  g.vertices.flatMap fun v => v.table.fields.map fun f => ⟨⟨v.aliasName, f⟩, v.table.column f⟩

/-- The condition of an edge's join.  Parent columns are looked up in the graph's own table of
the parent's alias. -/
def onClause (g : Graph) (params : OrderedMap String Value) (e : Edge) : Except Fault OnClause :=
  let known := ((g.find? e.parentAlias).map fun v => v.table.fields).getD []
  match e.on.entries.find? (fun p => decide (p.2 ∉ known)) with
  | some p => .error (.missingKey (.str p.2))
  | none => .ok
    { pairs := e.on.entries.map fun p => (⟨e.aliasName, p.1⟩, ⟨e.parentAlias, p.2⟩)
      extra := (extraText? e.condition).map (BoundText.bind params) }

/-- A source joined with one more leaf. -/
def joinLeaf {γ : Type} (acc joined : Source γ) (type : JoinType) (on : γ) : Source γ :=
  match type with
  | .inner => .join acc joined false on
  | .left => .join acc joined true on
  | .right => .join joined acc.bracketed true on

/-- What the statement of a graph with a given root reads from. -/
def source (g : Graph) (params : OrderedMap String Value) (root : Vertex) :
    Except Fault (Source OnClause) :=
  g.edges.foldlM (fun acc e => do
    let on ← g.onClause params e
    return joinLeaf acc (leaf e.child) e.joinType on) (leaf root)

end Graph

/-- A compiled graph. -/
structure Compiled where
  statement : Statement
  /-- the merged parameters of the extra conditions -/
  params : OrderedMap String Value
  /-- the flat result columns -/
  columns : List String

/-- What compiling did: the key chains it stored, the warnings it gave, and how it ended. -/
structure CompileRun where
  chains : KeyChains
  warnings : List ParameterCollision
  outcome : Except Fault Compiled

namespace Graph

/-- The statement of a graph with filters, for parameters merged already. -/
def statement (g : Graph) (root : Vertex) (params : OrderedMap String Value)
    (filters : List Filter) : Except Fault Statement := do
  let source ← g.source params root
  Filter.applyAll { columns := g.outputColumns, source } filters

/-- Compiles a graph with filters.  The key chains are worked out on the way. -/
def compile (g : Graph) (filters : List Filter) (chains : KeyChains) : CompileRun :=
  match g.root, g.prepare chains with
  | some root, .ok prepared =>
    let params := Parameters.ofEdges g.edges
    { chains := prepared
      warnings := params.warnings
      outcome := (g.statement root params.values filters).map fun s =>
        { statement := s, params := params.values, columns := g.outputColumns.map (·.label) } }
  | _, _ => { chains, warnings := [], outcome := .error .noRoot }

/-- The key chains after preparing; a graph without a root leaves them as they are. -/
def prepared (g : Graph) (chains : KeyChains) : KeyChains :=
  (g.prepare chains).toOption.getD chains

/-- Compiling leaves behind the key chains that preparing does. -/
theorem chains_compile (g : Graph) (filters : List Filter) (chains : KeyChains) :
    (g.compile filters chains).chains = g.prepared chains := by
  unfold compile prepared
  split
  · next hp =>
    rw [hp]
    rfl
  · next hnot =>
    cases hp : g.prepare chains with
    | error f => rfl
    | ok chains' =>
      cases hr : g.root with
      | none => simp [prepare, hr] at hp
      | some r => exact absurd hp (hnot r chains' hr)

/-- The result columns of a graph are the flat columns of its tables, in graph order. -/
theorem outputColumns_labels (g : Graph) :
    g.outputColumns.map (·.label) = g.vertices.flatMap fun v => v.table.columns := by
  simp [outputColumns, List.map_flatMap, List.map_map, Function.comp_def, Table.columns]

/-- The columns of a compiled graph are the flat columns of its tables, in graph order. -/
theorem columns_compile {g : Graph} {filters : List Filter} {chains : KeyChains} {c : Compiled}
    (h : (g.compile filters chains).outcome = .ok c) :
    c.columns = g.vertices.flatMap fun v => v.table.columns := by
  simp only [compile] at h
  split at h
  · next root prepared _ _ =>
    cases hs : g.statement root (Parameters.ofEdges g.edges).values filters with
    | error f => rw [hs] at h; cases h
    | ok s => rw [hs] at h; cases h; exact outputColumns_labels g
  · cases h

end Graph

end NestedJoin
