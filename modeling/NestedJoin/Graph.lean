import NestedJoin.Edge
set_option autoImplicit false

/-!
# Join graphs

A join graph is a root vertex and the edges joined to it so far.  It keeps its vertices and
its edges by alias, in the order in which they were added, and beside them, for every alias,
the edges that join other tables onto it.  The order of the vertices fixes the order of
result columns, the order of the edges that of joins.  An edge is accepted only if its alias
is new, its parent is known and its columns are produced by no other table.

Main statement: `addEdge_eq_ok_iff`, which says exactly which edges are accepted.
-/

namespace NestedJoin

/-- Tables joined to one root table. -/
structure Graph where
  root : Option Vertex
  /-- the vertices by their aliases -/
  tables : OrderedMap String Vertex
  /-- the edges by the aliases they join -/
  joins : OrderedMap String Edge
  /-- the edges by the aliases they join onto -/
  inbound : OrderedMap String (List Edge)

namespace Graph

/-! ## Views -/

/-- The graph without tables. -/
def empty : Graph := ⟨none, .empty, .empty, .empty⟩

instance : Inhabited Graph := ⟨empty⟩

/-- The vertices in the order in which they were added. -/
def vertices (g : Graph) : List Vertex := g.tables.values

/-- The edges in the order in which they were added. -/
def edges (g : Graph) : List Edge := g.joins.values

/-- The aliases of the vertices. -/
def aliases (g : Graph) : List String := g.tables.keys

/-- Whether an alias belongs to the graph. -/
def contains (g : Graph) (aliasName : String) : Bool := g.tables.contains aliasName

/-- The vertex of an alias. -/
def find? (g : Graph) (aliasName : String) : Option Vertex := g.tables.get? aliasName

/-- The vertex of an alias, or the fault of not knowing it. -/
def byAlias (g : Graph) (aliasName : String) : Except Fault Vertex :=
  match g.find? aliasName with
  | some v => .ok v
  | none => .error (.unknownAlias aliasName g.aliases)

theorem byAlias_eq_ok_iff {g : Graph} {aliasName : String} {v : Vertex} :
    g.byAlias aliasName = .ok v ↔ g.find? aliasName = some v := by
  cases h : g.find? aliasName <;> simp [byAlias, h]

/-- Whether a vertex answers to a subject: it was asked for by it, or it is the table's name. -/
def answersTo (v : Vertex) (s : Subject) : Bool :=
  v.table.subject.same s || (Subject.named v.table.name).same s

/-- The first vertex that answers to a subject. -/
def bySubject (g : Graph) (s : Subject) : Except Fault Vertex :=
  match g.vertices.find? (answersTo · s) with
  | some v => .ok v
  | none => .error (.unknownSubject s)

/-- The root, or the fault of having none. -/
def rootOrFault (g : Graph) : Except Fault Vertex :=
  match g.root with
  | some r => .ok r
  | none => .error .noRoot

/-- The edge through which an alias is joined. -/
def edge? (g : Graph) (aliasName : String) : Option Edge := g.joins.get? aliasName

/-- The edge through which an alias is joined, or the fault of there being none. -/
def edgeFor (g : Graph) (aliasName : String) : Except Fault Edge :=
  match g.edge? aliasName with
  | some e => .ok e
  | none => .error (.unknownAlias aliasName g.joins.keys)

/-- The edges that join other tables onto an alias. -/
def edgesInto (g : Graph) (aliasName : String) : List Edge := (g.inbound.get? aliasName).getD []

/-- The alias of the table that produces a column. -/
def columnOwner? (g : Graph) (column : String) : Option String :=
  (g.vertices.find? fun v => v.table.columns.contains column).map Vertex.aliasName

/-- The written form of a graph. -/
def text (g : Graph) : String := "<JoinGraph " ++ Text.quotedList g.aliases ++ ">"

/-! ## Growing -/

/-- The graph with a root; a graph that has one keeps it. -/
def addRoot (g : Graph) (root : Vertex) : Except Fault Graph :=
  match g.root with
  | some _ => .ok g
  | none =>
    if g.contains root.aliasName then .error (.duplicateAlias root.aliasName)
    else .ok { g with root := some root, tables := g.tables.insert root.aliasName root }

/-- The graph of one table. -/
def ofRoot (root : Vertex) : Graph :=
  { empty with root := some root, tables := OrderedMap.empty.insert root.aliasName root }

/-- The first column of a table that the graph produces already, and its owner. -/
def columnClash? (g : Graph) (t : Table) : Option (String × String) :=
  t.columns.findSome? fun c => (g.columnOwner? c).map fun o => (c, o)

/-- The graph with an edge and its table filed. -/
def fileEdge (g : Graph) (e : Edge) : Graph :=
  { g with
    tables := g.tables.insert e.aliasName e.child
    joins := g.joins.insert e.aliasName e
    inbound := g.inbound.insert e.parentAlias (g.edgesInto e.parentAlias ++ [e]) }

/-- The graph with one more edge, or the first reason against it. -/
def addEdge (g : Graph) (e : Edge) : Except Fault Graph :=
  if g.root.isNone then .error .noRoot
  else if g.contains e.aliasName then .error (.duplicateAlias e.aliasName)
  else if !g.contains e.parentAlias then .error (.unknownAlias e.parentAlias g.aliases)
  else match g.columnClash? e.child.table with
    | some (c, o) => .error (.columnClash c e.aliasName o)
    | none => .ok (g.fileEdge e)

/-- An edge is accepted exactly if there is a root, its alias is new, its parent is known and
no column of its table is produced already; it is then filed. -/
theorem addEdge_eq_ok_iff {g g' : Graph} {e : Edge} :
    g.addEdge e = .ok g' ↔
      g.root.isSome = true ∧ g.contains e.aliasName = false ∧ g.contains e.parentAlias = true ∧
        g.columnClash? e.child.table = none ∧ g' = g.fileEdge e := by
  simp only [addEdge]
  cases hr : g.root with
  | none => simp
  | some r =>
    cases ha : g.contains e.aliasName <;> cases hp : g.contains e.parentAlias <;>
      cases hc : g.columnClash? e.child.table <;> simp [eq_comm]

/-- The graph with another kind in the place of an edge's kind, wherever the edge occurs. -/
def withKind (g : Graph) (serial : Nat) (kind : Kind) : Graph :=
  let change (e : Edge) : Edge := if e.serial = serial then { e with kind } else e
  { g with
    joins := g.joins.mapValues fun _ e => change e
    inbound := g.inbound.mapValues fun _ es => es.map change }

/-! ## Paths and key chains -/

/-- The aliases from the root down to one, along edges given latest first.  A parent is older
than its children, so the path up never leaves the edges that are still ahead. -/
def climb : List Edge → String → List String
  | [], a => [a]
  | e :: es, a => if e.aliasName = a then climb es e.parentAlias ++ [a] else climb es a

/-- The aliases from the root down to one, both included. -/
def aliasChain (g : Graph) (aliasName : String) : Except Fault (List String) :=
  (g.byAlias aliasName).map fun v => climb g.edges.reverse v.aliasName

/-- The primary-key columns of the table of an alias. -/
def keyColumnsOf (g : Graph) (aliasName : String) : List String :=
  ((g.find? aliasName).map fun v => v.table.keyColumns).getD []

/-- The primary-key columns of every table from the root down to an alias. -/
def keyChain (g : Graph) (aliasName : String) : Except Fault (List String) :=
  (g.aliasChain aliasName).map fun chain => chain.flatMap g.keyColumnsOf

/-- The key chain of a vertex of the graph. -/
def chainOf (g : Graph) (v : Vertex) : List String :=
  (climb g.edges.reverse v.aliasName).flatMap g.keyColumnsOf

/-- Works out the key chain of every vertex and stores it. -/
def prepare (g : Graph) (chains : KeyChains) : Except Fault KeyChains :=
  if g.root.isNone then .error .noRoot
  else .ok (g.vertices.foldl (fun cs v => cs.store v (g.chainOf v)) chains)

/-- The path down to an alias ends with it. -/
theorem climb_getLast? (es : List Edge) (a : String) : (climb es a).getLast? = some a := by
  induction es generalizing a with
  | nil => rfl
  | cons e es ih =>
    by_cases h : e.aliasName = a
    · simp [climb, h]
    · simpa [climb, h] using ih a

end Graph

end NestedJoin
