import NestedJoin.Forest
set_option autoImplicit false

/-!
# Folding rows into a forest

Each row is looked at once for every table of the graph, root first.  A table that is
present in the row files a node under its key, unless the node is filed already, and the
node is attached to its parent's, if that exists.  A node is attached to one container of
one parent at most once, however often the join repeats the pair.

Main statement: `consume_of_absent`, a table that is absent from a row changes nothing.
-/

namespace NestedJoin

namespace Edge

/-- What a container holds before anything is attached. -/
def emptyContent (e : Edge) : Content :=
  match e.kind with
  | .multiple => .many []
  | _ => .data .null

end Edge

namespace Content

/-- The content with one more attached node; only a list takes another item. -/
def append (c : Content) (child : NodeRef) : Except Fault Content :=
  match c with
  | .many rs => .ok (.many (rs ++ [child]))
  | _ => .error .notAppendable

end Content

namespace Graph

/-- The fragment that a row makes for a vertex: its fields, and an empty container for every
edge into it. -/
def fragmentOf (g : Graph) (v : Vertex) (row : Row) : Fragment :=
  (g.edgesInto v.aliasName).foldl (fun acc e => acc.insert e.container e.emptyContent)
    ((v.table.extract row).mapValues fun _ x => .data x)

theorem fragmentOf_eq_insertAll (g : Graph) (v : Vertex) (row : Row) :
    g.fragmentOf v row = ((v.table.extract row).mapValues fun _ x => Content.data x).insertAll
      ((g.edgesInto v.aliasName).map fun e => (e.container, e.emptyContent)) := by
  rw [fragmentOf, OrderedMap.insertAll, List.foldl_map]

/-- A parent's fragment with a child attached through an edge. -/
def attach (e : Edge) (parent : Fragment) (child : NodeRef) : Except Fault Fragment :=
  match e.kind with
  | .single => .ok (parent.insert e.container (.one child))
  | .multiple =>
    match parent.get? e.container with
    | none => .error (.missingKey (.str e.container))
    | some c => (c.append child).map fun c' => parent.insert e.container c'
  | .other raw => .error (.unattachable raw)

/-- Attaches a node to the node of a parent's key, if that node exists and the link is new. -/
def link (e : Edge) (f : Forest) (parent child : NodeRef) : Except Fault Forest :=
  match f.fragment? parent with
  | none => .ok f
  | some fragment =>
    let token : Link := ⟨parent, e.container, child.key⟩
    if token ∈ f.links then .ok f
    else (attach e fragment child).map fun fragment' =>
      { f.write parent fragment' with links := f.links ++ [token] }

/-- Looks at a row for one vertex. -/
def consume (g : Graph) (chains : KeyChains) (row : Row) (f : Forest) (v : Vertex) :
    Except Fault Forest :=
  if v.table.isPresent row then do
    let key ← chains.filingKey v row
    let node : NodeRef := ⟨v.aliasName, key⟩
    let filed := f.file node (g.fragmentOf v row)
    match g.edge? v.aliasName with
    | none => return filed
    | some e =>
      let parentKey ← chains.filingKey e.parent row
      link e filed ⟨e.parentAlias, parentKey⟩ node
  else .ok f

/-- Looks at a row for every vertex, root first. -/
def consumeRow (g : Graph) (chains : KeyChains) (f : Forest) (row : Row) : Except Fault Forest :=
  g.vertices.foldlM (g.consume chains row) f

/-- The forest that some rows make, or the first fault in the order of rows and vertices. -/
def forestOf (g : Graph) (chains : KeyChains) (rows : List Row) : Except Fault Forest :=
  rows.foldlM (g.consumeRow chains) (Forest.ofAliases g.aliases)

/-- A table that is absent from a row changes nothing. -/
theorem consume_of_absent {g : Graph} {chains : KeyChains} {row : Row} {f : Forest} {v : Vertex}
    (h : v.table.isPresent row = false) : g.consume chains row f v = .ok f := by
  simp [consume, h]

end Graph

end NestedJoin
