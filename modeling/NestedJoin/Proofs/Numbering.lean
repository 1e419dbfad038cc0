import NestedJoin.Proofs.FoldingAlike
import NestedJoin.Proofs.KeyChains
set_option autoImplicit false

/-!
# Numbers of vertices and edges

A session numbers the vertices and edges that it makes.  The numbers tell key chains apart and
nothing else: growing and compiling a graph commute with forgetting them, and two prepared graphs
that are the same without them materialize rows alike.

Main statements: `Builder.join_unnumbered`, `Graph.compile_unnumbered` and
`Builder.materialize_eq_of_unnumbered_eq`.
-/

namespace NestedJoin

/-! ## Forgetting numbers -/

/-- The vertex without its number. -/
def Vertex.unnumbered (v : Vertex) : Vertex := { v with serial := 0 }

@[simp] theorem Vertex.aliasName_unnumbered (v : Vertex) :
    v.unnumbered.aliasName = v.aliasName := rfl

/-- The edge without its number and those of its vertices. -/
def Edge.unnumbered (e : Edge) : Edge :=
  { e with serial := 0, child := e.child.unnumbered, parent := e.parent.unnumbered }

@[simp] theorem Edge.aliasName_unnumbered (e : Edge) : e.unnumbered.aliasName = e.aliasName := rfl

@[simp] theorem Edge.parentAlias_unnumbered (e : Edge) :
    e.unnumbered.parentAlias = e.parentAlias := rfl

/-- The graph without numbers. -/
def Graph.unnumbered (g : Graph) : Graph where
  root := g.root.map Vertex.unnumbered
  tables := g.tables.mapValues fun _ => Vertex.unnumbered
  joins := g.joins.mapValues fun _ => Edge.unnumbered
  inbound := g.inbound.mapValues fun _ => List.map Edge.unnumbered

/-- The builder without numbers. -/
def Builder.unnumbered (b : Builder) : Builder := { b with graph := b.graph.unnumbered }

namespace Graph

section Views

variable (g : Graph) (a : String)

theorem vertices_unnumbered : g.unnumbered.vertices = g.vertices.map Vertex.unnumbered :=
  OrderedMap.values_mapValues _ _

theorem edges_unnumbered : g.unnumbered.edges = g.edges.map Edge.unnumbered :=
  OrderedMap.values_mapValues _ _

theorem aliases_unnumbered : g.unnumbered.aliases = g.aliases := OrderedMap.keys_mapValues _ _

theorem find?_unnumbered : g.unnumbered.find? a = (g.find? a).map Vertex.unnumbered :=
  OrderedMap.get?_mapValues _ _ _

theorem edge?_unnumbered : g.unnumbered.edge? a = (g.edge? a).map Edge.unnumbered :=
  OrderedMap.get?_mapValues _ _ _

theorem edgesInto_unnumbered : g.unnumbered.edgesInto a = (g.edgesInto a).map Edge.unnumbered := by
  unfold edgesInto
  rw [show g.unnumbered.inbound.get? a = _ from OrderedMap.get?_mapValues _ _ _]
  cases g.inbound.get? a <;> rfl

theorem contains_unnumbered : g.unnumbered.contains a = g.contains a := by
  unfold contains OrderedMap.contains
  rw [show g.unnumbered.tables.get? a = _ from OrderedMap.get?_mapValues _ _ _, Option.isSome_map]

theorem byAlias_unnumbered : g.unnumbered.byAlias a = (g.byAlias a).map Vertex.unnumbered := by
  unfold byAlias
  rw [find?_unnumbered, aliases_unnumbered]
  cases g.find? a <;> rfl

theorem columnClash?_unnumbered (t : Table) :
    g.unnumbered.columnClash? t = g.columnClash? t := by
  have howner : ∀ c, g.unnumbered.columnOwner? c = g.columnOwner? c := by
    intro c
    unfold columnOwner?
    rw [vertices_unnumbered, List.find?_map, Option.map_map]
    rfl
  simp only [columnClash?, howner]

end Views

/-! ## Growing -/

theorem fileEdge_unnumbered (g : Graph) (e : Edge) :
    (g.fileEdge e).unnumbered = g.unnumbered.fileEdge e.unnumbered := by
  simp only [fileEdge, unnumbered, OrderedMap.mapValues_insert, List.map_append, List.map_cons,
    List.map_nil]
  rw [← edgesInto_unnumbered]
  rfl

/-- An edge is accepted whatever the numbers. -/
theorem addEdge_unnumbered (g : Graph) (e : Edge) :
    g.unnumbered.addEdge e.unnumbered = (g.addEdge e).map unnumbered := by
  have hroot : g.unnumbered.root.isNone = g.root.isNone := Option.isNone_map
  unfold addEdge
  rw [hroot, contains_unnumbered, contains_unnumbered, aliases_unnumbered,
    show e.unnumbered.child.table = e.child.table from rfl, columnClash?_unnumbered,
    ← fileEdge_unnumbered, Edge.aliasName_unnumbered, Edge.parentAlias_unnumbered]
  cases g.root.isNone with
  | true => rfl
  | false =>
    cases g.contains e.aliasName with
    | true => rfl
    | false =>
      cases g.contains e.parentAlias with
      | false => rfl
      | true => cases g.columnClash? e.child.table <;> rfl

end Graph

/-- An edge is made whatever the numbers. -/
theorem Edge.make_unnumbered (serial : Nat) (child parent : Vertex) (spec : JoinSpec) :
    make 0 child.unnumbered parent.unnumbered spec =
      (make serial child parent spec).map Edge.unnumbered := by
  obtain ⟨n, t⟩ := child
  obtain ⟨m, u⟩ := parent
  unfold make
  dsimp only [Vertex.unnumbered, Vertex.aliasName]
  cases kindOf spec.kind with
  | error f => rfl
  | ok kind =>
    dsimp only
    split
    · rfl
    · cases JoinType.ofName? spec.joinType.display with
      | none => rfl
      | some joinType =>
        dsimp only
        split
        · rfl
        · split
          · rfl
          · cases (spec.params.map namedParams).getD (.error .noParameters) <;> rfl

/-! ## Builders -/

namespace Builder

/-- A join goes well or fails whatever the numbers. -/
theorem join_unnumbered (b : Builder) (serial : Nat) (child : Vertex) (parentAlias : String)
    (spec : JoinSpec) :
    b.unnumbered.join 0 child.unnumbered parentAlias spec =
      (b.join serial child parentAlias spec).map unnumbered := by
  simp only [join, bind, Except.bind]
  rw [show b.unnumbered.graph = b.graph.unnumbered from rfl, Graph.byAlias_unnumbered]
  cases b.graph.byAlias parentAlias with
  | error f => rfl
  | ok parent =>
    dsimp only [Except.map]
    rw [Edge.make_unnumbered serial]
    cases Edge.make serial child parent spec with
    | error f => rfl
    | ok edge =>
      dsimp only [Except.map]
      rw [Graph.addEdge_unnumbered]
      cases b.graph.addEdge edge <;> rfl

/-- A modifier is taken whatever the numbers. -/
theorem modify_unnumbered (b : Builder) (aliasName : String) (actions : List Action) :
    b.unnumbered.modify aliasName actions = (b.modify aliasName actions).map unnumbered := by
  unfold modify
  rw [show b.unnumbered.graph = b.graph.unnumbered from rfl, Graph.byAlias_unnumbered]
  cases b.graph.byAlias aliasName <;> rfl

end Builder

/-! ## Compiling -/

namespace Graph

theorem outputColumns_unnumbered (g : Graph) : g.unnumbered.outputColumns = g.outputColumns := by
  unfold outputColumns
  rw [vertices_unnumbered, List.flatMap_map]
  rfl

theorem onClause_unnumbered (g : Graph) (params : OrderedMap String Value) (e : Edge) :
    g.unnumbered.onClause params e.unnumbered = g.onClause params e := by
  unfold onClause
  rw [Edge.parentAlias_unnumbered, find?_unnumbered, Option.map_map]
  rfl

theorem source_unnumbered (g : Graph) (params : OrderedMap String Value) (root : Vertex) :
    g.unnumbered.source params root.unnumbered = g.source params root := by
  unfold source
  rw [edges_unnumbered, List.foldlM_map]
  simp only [onClause_unnumbered]
  rfl

theorem parameters_unnumbered (g : Graph) :
    Parameters.ofEdges g.unnumbered.edges = Parameters.ofEdges g.edges := by
  unfold Parameters.ofEdges
  rw [edges_unnumbered, List.foldl_map]
  rfl

/-- Graphs that are the same without numbers compile alike, whatever the key chains. -/
theorem compile_unnumbered (g : Graph) (filters : List Filter) (chains chains' : KeyChains) :
    (g.unnumbered.compile filters chains').outcome = (g.compile filters chains).outcome ∧
      (g.unnumbered.compile filters chains').warnings = (g.compile filters chains).warnings := by
  have hroot : g.unnumbered.root = g.root.map Vertex.unnumbered := rfl
  unfold compile prepare
  rw [hroot]
  cases g.root with
  | none => exact ⟨rfl, rfl⟩
  | some root =>
    simp only [Option.map_some, Option.isNone_some, Bool.false_eq_true, if_false, statement,
      parameters_unnumbered, source_unnumbered, outputColumns_unnumbered, and_self]

/-! ## Folding -/

theorem climb_unnumbered (es : List Edge) (a : String) :
    climb (es.map Edge.unnumbered) a = climb es a := by
  induction es generalizing a with
  | nil => rfl
  | cons e es ih =>
    rw [List.map_cons, climb, climb, Edge.aliasName_unnumbered, Edge.parentAlias_unnumbered, ih, ih]

/-- Numbers have no part in the key chain of a vertex. -/
theorem chainOf_unnumbered (g : Graph) (v : Vertex) :
    g.unnumbered.chainOf v.unnumbered = g.chainOf v := by
  have hcolumns : g.unnumbered.keyColumnsOf = g.keyColumnsOf := by
    funext a
    unfold keyColumnsOf
    rw [find?_unnumbered, Option.map_map]
    rfl
  unfold chainOf
  rw [edges_unnumbered, ← List.map_reverse, climb_unnumbered, hcolumns, Vertex.aliasName_unnumbered]

/-- What folding reads of the vertices of a prepared graph, read off the graph without numbers. -/
theorem IsPrepared.vertices_unnumbered {g : Graph} {chains : KeyChains} (h : g.IsPrepared chains) :
    g.vertices.map (fun v => (v.table, chains.chainOf v)) =
      g.unnumbered.vertices.map fun v => (v.table, g.unnumbered.chainOf v) := by
  rw [Graph.vertices_unnumbered, List.map_map]
  refine List.map_congr_left fun v hv => ?_
  rw [h v hv, ← chainOf_unnumbered]
  rfl

/-- What folding reads of an edge of a prepared graph, read off the graph without numbers. -/
theorem IsPrepared.attachment_unnumbered {g : Graph} {chains : KeyChains}
    (h : g.IsPrepared chains) (hg : g.Grown) (a : String) :
    g.attachment chains a = (g.unnumbered.edge? a).map fun e =>
      (e.kind, e.container, e.parentAlias, g.unnumbered.chainOf e.parent) := by
  unfold attachment
  rw [edge?_unnumbered, Option.map_map]
  refine Option.map_congr fun e he => ?_
  have hmem : e ∈ g.edges := OrderedMap.mem_values_of_get? he
  rw [h e.parent (hg.parent_mem hmem), ← chainOf_unnumbered]
  rfl

/-- Grown graphs that are the same without numbers fold rows alike once they are prepared. -/
theorem foldsAlike_of_unnumbered_eq {g g' : Graph} {chains chains' : KeyChains}
    (hg : g.Grown) (hg' : g'.Grown) (h : g.unnumbered = g'.unnumbered)
    (hp : g.IsPrepared chains) (hp' : g'.IsPrepared chains') : g.FoldsAlike g' chains chains' where
  vertices := by
    have hmap : g.vertices.map (fun v => (v.table, chains.chainOf v)) =
        g'.vertices.map fun v => (v.table, chains'.chainOf v) := by
      rw [hp.vertices_unnumbered, hp'.vertices_unnumbered, h]
    rw [← List.forall₂_eq_eq_eq, List.forall₂_map_left_iff, List.forall₂_map_right_iff] at hmap
    exact hmap.imp fun v v' heq => Prod.mk.inj heq
  aliases_eq := by rw [← aliases_unnumbered, h, aliases_unnumbered]
  root_eq := by
    have hroot : g.root.map Vertex.unnumbered = g'.root.map Vertex.unnumbered :=
      congrArg Graph.root h
    have halias := congrArg (Option.map Vertex.aliasName) hroot
    rwa [Option.map_map, Option.map_map] at halias
  containers_eq := fun a => by
    have hedges : (g.edgesInto a).map Edge.unnumbered = (g'.edgesInto a).map Edge.unnumbered := by
      rw [← edgesInto_unnumbered, h, edgesInto_unnumbered]
    have hcontainers := congrArg (List.map fun e : Edge => (e.container, e.emptyContent)) hedges
    rwa [List.map_map, List.map_map] at hcontainers
  attachment_eq := fun a => by
    rw [hp.attachment_unnumbered hg, hp'.attachment_unnumbered hg', h]

end Graph

namespace Builder

variable {b b' : Builder}

/-- Builders that are the same without numbers compile alike. -/
theorem compile_eq_of_unnumbered_eq (h : b.unnumbered = b'.unnumbered)
    (chains chains' : KeyChains) :
    (b.compile chains).outcome = (b'.compile chains').outcome ∧
      (b.compile chains).warnings = (b'.compile chains').warnings := by
  have hgraph : b.graph.unnumbered = b'.graph.unnumbered := congrArg Builder.graph h
  have hfilters : b.filters = b'.filters := by
    change b.unnumbered.filters = b'.unnumbered.filters
    rw [h]
  obtain ⟨ho, hw⟩ := b.graph.compile_unnumbered b.filters chains chains
  obtain ⟨ho', hw'⟩ := b'.graph.compile_unnumbered b'.filters chains' chains
  unfold compile
  rw [← ho, ← hw, ← ho', ← hw', hgraph, hfilters]
  exact ⟨rfl, rfl⟩

/-- Builders that are the same without numbers fold rows alike. -/
theorem materialize_eq_of_unnumbered_eq (h : b.unnumbered = b'.unnumbered) (hg : b.graph.Grown)
    (hg' : b'.graph.Grown) (chains chains' : KeyChains) (rows : List Row) :
    (b.materialize chains rows).1 = (b'.materialize chains' rows).1 := by
  have hgraph : b.graph.unnumbered = b'.graph.unnumbered := congrArg Builder.graph h
  have hmodifiers : b.modifiers = b'.modifiers := by
    change b.unnumbered.modifiers = b'.unnumbered.modifiers
    rw [h]
  obtain ⟨stored, hstored⟩ := hg.exists_prepare chains
  obtain ⟨stored', hstored'⟩ := hg'.exists_prepare chains'
  have halike := Graph.foldsAlike_of_unnumbered_eq hg hg' hgraph (hg.isPrepared_prepare hstored)
    (hg'.isPrepared_prepare hstored')
  unfold materialize
  rw [hstored, hstored']
  exact (halike.materialize_eq b.modifiers rows).trans (by rw [hmodifiers])

end Builder

end NestedJoin
