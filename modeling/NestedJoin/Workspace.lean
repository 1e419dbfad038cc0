import NestedJoin.Report
set_option autoImplicit false

/-!
# Workspaces

A workspace holds join graphs under names.  The graphs share vertices, and with them the
key chains: what one graph works out for a vertex is seen by every other graph that holds
the vertex.  Every edge made in a workspace has a serial number of its own, and a copy of
a graph shares its edges.

Nothing can be done with a name that holds no graph but to start one.

Main statements: `graph_put`, which says what storing a graph changes, and
`chains_compile`, compiling leaves behind the key chains that preparing does.
-/

namespace NestedJoin

/-- Join graphs under names, and the key chains of their vertices. -/
structure Workspace where
  graphs : OrderedMap String Graph
  chains : KeyChains
  /-- the serial number of the next edge -/
  nextEdge : Nat

namespace Workspace

/-- A workspace without graphs. -/
def empty : Workspace := ⟨.empty, .empty, 0⟩

instance : Inhabited Workspace := ⟨empty⟩

/-- The graph of a name, or the fault of there being none. -/
def graph (w : Workspace) (name : String) : Except Fault Graph :=
  match w.graphs.get? name with
  | some g => .ok g
  | none => .error (.missingKey (.str name))

/-- Stores a graph under a name. -/
def put (w : Workspace) (name : String) (g : Graph) : Workspace :=
  { w with graphs := w.graphs.insert name g }

/-- What storing a graph changes. -/
theorem graph_put (w : Workspace) (name name' : String) (g : Graph) :
    (w.put name g).graph name' = if name' = name then .ok g else w.graph name' := by
  simp only [graph, put, OrderedMap.get?_insert]
  by_cases h : name' = name <;> simp [h]

/-! ## Changes -/

/-- Starts a graph anew, with a root or without one. -/
def start (w : Workspace) (name : String) (root : Option Vertex) : Workspace :=
  w.put name ((root.map Graph.ofRoot).getD .empty)

/-- Gives a graph a root, unless it has one. -/
def addRoot (w : Workspace) (name : String) (root : Vertex) : Except Fault Workspace := do
  let g ← w.graph name
  let g' ← g.addRoot root
  return w.put name g'

/-- Adds an edge to a graph. -/
def insertEdge (w : Workspace) (name : String) (edge : Edge) : Except Fault Workspace := do
  let g ← w.graph name
  let g' ← g.addEdge edge
  return w.put name g'

/-- Makes an edge between two vertices and adds it to a graph. -/
def addEdge (w : Workspace) (name : String) (child parent : Vertex) (spec : JoinSpec) :
    Except Fault Workspace := do
  let _ ← w.graph name
  let edge ← Edge.make w.nextEdge child parent spec
  let w' ← w.insertEdge name edge
  return { w' with nextEdge := w.nextEdge + 1 }

/-- Stores a copy of a graph under another name. -/
def clone (w : Workspace) (source target : String) : Except Fault Workspace :=
  (w.graph source).map (w.put target)

/-- Works out the key chains of a graph. -/
def prepare (w : Workspace) (name : String) : Except Fault Workspace := do
  let g ← w.graph name
  let chains ← g.prepare w.chains
  return { w with chains }

/-- Puts a raw kind in the place of the kind of the edge that joins an alias. -/
def forceKind (w : Workspace) (name aliasName : String) (kind : Kind) :
    Except Fault Workspace := do
  let g ← w.graph name
  let edge ← g.edgeFor aliasName
  return { w with graphs := w.graphs.mapValues fun _ g => g.withKind edge.serial kind }

/-! ## Runs -/

/-- Compiles a graph; the workspace keeps the key chains. -/
def compile (w : Workspace) (g : Graph) (filters : List Filter) : CompileRun × Workspace :=
  let run := g.compile filters w.chains
  (run, { w with chains := run.chains })

/-- Compiling leaves behind the key chains that preparing does. -/
theorem chains_compile {w : Workspace} {g : Graph} {filters : List Filter} {chains : KeyChains}
    (h : g.prepare w.chains = .ok chains) : (w.compile g filters).2.chains = chains := by
  show (g.compile filters w.chains).chains = chains
  rw [g.chains_compile, Graph.prepared, h]
  rfl

/-- Folds batches of rows of a graph one after the other. -/
def materialize (w : Workspace) (g : Graph) (modifiers : Modifiers)
    (batches : List (List Row)) : List MaterializeRun :=
  batches.map fun rows => g.materialize w.chains modifiers rows

end Workspace

end NestedJoin
