import NestedJoin.Proofs.KeyChains
import NestedJoin.Proofs.Linking
set_option autoImplicit false

/-!
# Edges joined to equal tables

An edge may be joined to a vertex that is not the graph's own one of that alias but whose table
is described alike.  Accepting and compiling the edge go by the alias, while folding takes the
parent's key chain from the edge's own vertex.  If that vertex has the chain of the graph's own
one, the two are interchangeable.  A vertex that no graph has worked out a chain for has an empty
one; then nothing is ever attached through the edge.

Main statement: `Workspace.materialize_rejoined`.
-/

namespace NestedJoin

theorem Table.same_eq_true_iff {t u : Table} :
    t.same u = true ↔ t.aliasName = u.aliasName ∧ t.name = u.name ∧ t.fields = u.fields ∧
      t.primaryKey = u.primaryKey ∧ t.container = u.container := by
  simp only [same, Bool.and_eq_true, beq_iff_eq, and_assoc]

namespace Edge

/-- The edge joined to another vertex with a table like its parent's. -/
def onto (e : Edge) (v : Vertex) (h : e.parent.table.same v.table = true) : Edge :=
  { e with
    parent := v
    parent_mem := fun p hp => (Table.same_eq_true_iff.1 h).2.2.1 ▸ e.parent_mem p hp }

/-- The edge itself, or if it joins a given alias and its parent's table is like that of a vertex,
the edge joined to this vertex. -/
def rejoined (aliasName : String) (v : Vertex) (e : Edge) : Edge :=
  if h : e.aliasName = aliasName ∧ e.parent.table.same v.table = true then e.onto v h.2 else e

variable (aliasName : String) (v : Vertex) (e : Edge)

@[simp] theorem aliasName_rejoined : (e.rejoined aliasName v).aliasName = e.aliasName := by
  unfold rejoined
  split <;> rfl

@[simp] theorem parentAlias_rejoined : (e.rejoined aliasName v).parentAlias = e.parentAlias := by
  unfold rejoined
  split
  · next h => exact (Table.same_eq_true_iff.1 h.2).1.symm
  · rfl

@[simp] theorem kind_rejoined : (e.rejoined aliasName v).kind = e.kind := by
  unfold rejoined
  split <;> rfl

@[simp] theorem container_rejoined : (e.rejoined aliasName v).container = e.container := by
  unfold rejoined
  split <;> rfl

theorem emptyContent_rejoined : (e.rejoined aliasName v).emptyContent = e.emptyContent := by
  rw [emptyContent, kind_rejoined, emptyContent]

end Edge

namespace Graph

/-- The graph with the edge that joins an alias joined to another vertex, if the vertex has a table
like that of the edge's parent. -/
def rejoined (g : Graph) (aliasName : String) (v : Vertex) : Graph :=
  { g with
    joins := g.joins.mapValues fun _ => Edge.rejoined aliasName v
    inbound := g.inbound.mapValues fun _ es => es.map (Edge.rejoined aliasName v) }

section Rejoined

variable (g : Graph) (aliasName : String) (v : Vertex)

theorem edges_rejoined :
    (g.rejoined aliasName v).edges = g.edges.map (Edge.rejoined aliasName v) :=
  OrderedMap.values_mapValues _ _

theorem edge?_rejoined (a : String) :
    (g.rejoined aliasName v).edge? a = (g.edge? a).map (Edge.rejoined aliasName v) :=
  OrderedMap.get?_mapValues _ _ _

theorem edgesInto_rejoined (a : String) :
    (g.rejoined aliasName v).edgesInto a = (g.edgesInto a).map (Edge.rejoined aliasName v) := by
  unfold edgesInto
  rw [show (g.rejoined aliasName v).inbound.get? a = _ from OrderedMap.get?_mapValues _ _ _]
  cases g.inbound.get? a <;> rfl

/-- The way up from an alias depends on the aliases of the edges alone. -/
theorem climb_rejoined (es : List Edge) (a : String) :
    climb (es.map (Edge.rejoined aliasName v)) a = climb es a := by
  induction es generalizing a with
  | nil => rfl
  | cons e es ih =>
    rw [List.map_cons, climb, climb, Edge.aliasName_rejoined, Edge.parentAlias_rejoined, ih, ih]

/-- The same key chains are worked out. -/
theorem prepare_rejoined (chains : KeyChains) :
    (g.rejoined aliasName v).prepare chains = g.prepare chains := by
  have hchain : (g.rejoined aliasName v).chainOf = g.chainOf := by
    funext w
    unfold chainOf
    rw [edges_rejoined, ← List.map_reverse, climb_rejoined]
    rfl
  unfold prepare
  rw [hchain]
  rfl

end Rejoined

variable {g : Graph} {chains chains' : KeyChains} {e : Edge} {own : Vertex}

/-- Rows are folded alike if the edge's vertex has the chain of the one it is exchanged for. -/
theorem Coherent.foldsAlike_rejoined (hg : g.Coherent) (he : e ∈ g.edges)
    (hchain : chains.chainOf e.parent = chains.chainOf own) :
    g.FoldsAlike (g.rejoined e.aliasName own) chains chains where
  vertices := List.forall₂_same.2 fun v _ => ⟨rfl, rfl⟩
  aliases_eq := rfl
  root_eq := rfl
  containers_eq a := by
    rw [edgesInto_rejoined, List.map_map]
    refine List.map_congr_left fun e' _ => ?_
    rw [Function.comp_apply, Edge.container_rejoined, Edge.emptyContent_rejoined]
  attachment_eq a := by
    unfold attachment
    rw [edge?_rejoined, Option.map_map]
    cases he' : g.edge? a with
    | none => rfl
    | some e' =>
      have hchain' : chains.chainOf e'.parent =
          chains.chainOf (e'.rejoined e.aliasName own).parent := by
        unfold Edge.rejoined
        split
        · next h =>
          have hmem : e' ∈ g.edges := OrderedMap.mem_values_of_get? he'
          obtain rfl := hg.edge_unique hmem he h.1
          exact hchain
        · rfl
      simp only [Option.map_some, Function.comp_apply, Edge.kind_rejoined, Edge.container_rejoined,
        Edge.parentAlias_rejoined, hchain']

/-! ## Chains that were worked out -/

/-- What is stored for a vertex among others is the chain of one of them. -/
theorem exists_chainOf_foldl_store (chain : Vertex → List String) {vs : List Vertex} {w : Vertex}
    (hw : w ∈ vs) (chains : KeyChains) :
    ∃ v ∈ vs, (vs.foldl (fun cs v => cs.store v (chain v)) chains).chainOf w = chain v := by
  induction vs using List.reverseRecOn generalizing w with
  | nil => cases hw
  | append_singleton vs v ih =>
    rw [List.foldl_append, List.foldl_cons, List.foldl_nil, KeyChains.chainOf_store]
    split
    · exact ⟨v, List.mem_append_right _ List.mem_cons_self, rfl⟩
    · next hne =>
      rcases List.mem_append.1 hw with hw | hw
      · obtain ⟨u, hu, hchain⟩ := ih hw
        exact ⟨u, List.mem_append_left _ hu, hchain⟩
      · rw [List.mem_singleton.1 hw] at hne
        exact absurd rfl hne

/-- The chain of a vertex ends with its own key columns, so that it is not empty. -/
theorem Coherent.chainOf_ne_nil (hg : g.Coherent) {v : Vertex} (hv : v ∈ g.vertices) :
    g.chainOf v ≠ [] := by
  have hlast : v.aliasName ∈ climb g.edges.reverse v.aliasName :=
    List.mem_of_getLast? (climb_getLast? _ _)
  obtain ⟨f, hf⟩ := List.exists_mem_of_ne_nil _ v.table.primaryKey_ne_nil
  have hcolumn : v.table.column f ∈ g.chainOf v := by
    refine List.mem_flatMap.2 ⟨v.aliasName, hlast, ?_⟩
    rw [hg.keyColumnsOf_eq hv]
    exact List.mem_map_of_mem hf
  exact List.ne_nil_of_mem hcolumn

theorem Coherent.chainOf_prepared_ne_nil (hg : g.Coherent) (hp : g.prepare chains = .ok chains')
    {v : Vertex} (hv : v ∈ g.vertices) : chains'.chainOf v ≠ [] := by
  unfold prepare at hp
  split at hp
  · cases hp
  · cases hp
    obtain ⟨w, hw, hchain⟩ := exists_chainOf_foldl_store g.chainOf hv chains
    rw [hchain]
    exact hg.chainOf_ne_nil hw

/-- Working out the chains of a graph leaves those of other vertices alone. -/
theorem chainOf_prepared_of_notMem (hp : g.prepare chains = .ok chains') {w : Vertex}
    (hw : w.serial ∉ g.vertices.map Vertex.serial) : chains'.chainOf w = chains.chainOf w := by
  unfold prepare at hp
  split at hp
  · cases hp
  · cases hp
    exact chainOf_foldl_store_of_not_mem g.chainOf hw

/-- A key is as long as the chain that it is read along. -/
theorem length_filingKey {v : Vertex} {row : Row} {key : NodeKey}
    (h : chains.filingKey v row = .ok key) : key.length = (chains.chainOf v).length := by
  have hlength := congrArg List.length (KeyChains.filingKey_eq_ok_iff.1 h)
  rw [List.length_map, List.length_map] at hlength
  exact hlength.symm

/-! ## Chains that were not worked out -/

/-- Nothing is attached through an edge whose vertex has no chain: no node has the empty key. -/
theorem Coherent.not_refersTo_of_chain_eq_nil (hg : g.Coherent)
    (hp : g.prepare chains = .ok chains') (he : e ∈ g.edges) (hnil : chains'.chainOf e.parent = [])
    {rows : List Row} {f : Forest} (hf : g.forestOf chains' rows = .ok f) (p : NodeRef)
    (k : NodeKey) : ¬f.RefersTo p ⟨e.aliasName, k⟩ := by
  have hconfined : f.Confined (fun r => r.key ≠ []) (fun _ r => r.aliasName ≠ e.aliasName) := by
    refine confined_forestOf ?_ ?_ hf
    · intro row _ v hv _ key hkey hempty
      have hlength := length_filingKey hkey
      rw [show key = [] from hempty, List.length_nil] at hlength
      exact hg.chainOf_prepared_ne_nil hp hv (List.length_eq_zero_iff.1 hlength.symm)
    · intro row _ v hv _ key e' k' _ he' hk' hnode halias
      obtain ⟨hmem, rfl⟩ := (hg.edge?_eq_some_iff hv).1 he'
      obtain rfl := hg.edge_unique hmem he halias
      have hlength := length_filingKey hk'
      rw [hnil, List.length_nil] at hlength
      exact hnode (List.length_eq_zero_iff.1 hlength)
  exact fun hrefers => hconfined.link p _ hrefers rfl

end Graph

namespace Workspace

open NestedJoin.Graph

/-- For an edge of any graph that calls have made, whose parent's table is described like that of
the graph's own vertex of this alias.  If the parent has the chain of this vertex once the graph is
prepared, as it has if it is this vertex, then exchanging the one for the other changes neither what
is worked out nor what rows are materialized to, and every child that is present in a row in which
its parent is present is linked to it.  If the parent is none of the graph's vertices and no chain
was worked out for it, then whatever the rows, nothing refers to a node of the edge's alias. -/
theorem materialize_rejoined (cs : List Command) {name : String} {g : Graph}
    (hg : (Workspace.empty.run cs).graphs.get? name = some g) {chains chains' : KeyChains}
    (hp : g.prepare chains = .ok chains') {e : Edge} (he : e ∈ g.edges) {own : Vertex}
    (hown : g.find? e.parentAlias = some own) (hsame : e.parent.table.same own.table = true) :
    ((g.rejoined e.aliasName own).edge? e.aliasName).map Edge.parent = some own ∧
    (e.parent.serial = own.serial → chains'.chainOf e.parent = chains'.chainOf own) ∧
    (chains'.chainOf e.parent = chains'.chainOf own →
      (g.rejoined e.aliasName own).prepare chains = .ok chains' ∧
      (∀ modifiers rows, g.materialize chains' modifiers rows =
        (g.rejoined e.aliasName own).materialize chains' modifiers rows) ∧
      ∀ rows f, g.forestOf chains' rows = .ok f → ∀ row ∈ rows,
        own.table.isPresent row = true → e.child.table.isPresent row = true →
          ∃ k key, chains'.filingKey own row = .ok k ∧ chains'.filingKey e.child row = .ok key ∧
            ⟨⟨e.parentAlias, k⟩, e.container, key⟩ ∈ f.links) ∧
    (e.parent.serial ∉ g.vertices.map Vertex.serial → chains.chainOf e.parent = [] →
      ∀ rows f, g.forestOf chains' rows = .ok f → ∀ p k, ¬f.RefersTo p ⟨e.aliasName, k⟩) := by
  have hcoherent := Coherent.empty.run cs name g hg
  refine ⟨?_, ?_, ?_, ?_⟩
  · have hedge := (hcoherent.edge?_eq_some_iff (hcoherent.child_mem he)).2 ⟨he, rfl⟩
    rw [edge?_rejoined, show g.edge? e.aliasName = some e from hedge]
    show some (e.rejoined e.aliasName own).parent = some own
    rw [Edge.rejoined, dif_pos ⟨rfl, hsame⟩]
    rfl
  · intro hserial
    rw [KeyChains.chainOf, KeyChains.chainOf, hserial]
  · intro hchain
    refine ⟨?_, ?_, ?_⟩
    · rw [prepare_rejoined, hp]
    · exact (hcoherent.foldsAlike_rejoined he hchain).materialize_eq
    · intro rows f hf
      exact hcoherent.linkedIn_forestOf he hown hchain hf
  · intro hnot hnil rows f hf
    have hnil' : chains'.chainOf e.parent = [] := by rw [chainOf_prepared_of_notMem hp hnot, hnil]
    exact hcoherent.not_refersTo_of_chain_eq_nil hp he hnil' hf

/-! ### An edge joined to a twin -/

def loneVertex : Vertex := sampleVertex "p" "name" (by decide) (by decide)

/-- Another vertex with the same table. -/
def twinVertex : Vertex := { loneVertex with serial := 1 }

/-- An edge onto the twin, for a graph that holds the other vertex. -/
def twinEdge : Edge :=
  sampleEdge sampleChild twinVertex "c" rfl (by decide) (by decide)

def twinCommands : List Command := [.start "g" (some loneVertex), .addEdge "g" twinEdge]

def twinGraph : Graph := ((Workspace.empty.run twinCommands).graphs.get? "g").getD .empty

def twinChains : KeyChains := (twinGraph.prepare .empty).toOption.getD .empty

/-- A row in which the child and its parent are present. -/
def twinRow : Row :=
  .ofList [("p_id", .int 1), ("p_name", .str "n"), ("c_id", .int 2), ("c_x", .int 3)]

/-- The child of the row hangs from its parent if the edge is joined to the graph's own vertex;
joined to the twin it hangs from nothing, as no child does in any rows. -/
theorem materialize_rejoined_twin :
    (twinGraph.materialize twinChains .empty [twinRow]).entities =
      .ok [.dict [(.str "id", .int 1), (.str "name", .str "n"), (.str "c", .list [])]] ∧
    ((twinGraph.rejoined "c" loneVertex).materialize twinChains .empty [twinRow]).entities =
      .ok [.dict [(.str "id", .int 1), (.str "name", .str "n"),
        (.str "c", .list [.dict [(.str "id", .int 2), (.str "x", .int 3)]])]] ∧
    ∀ rows f, twinGraph.forestOf twinChains rows = .ok f → ∀ p k, ¬f.RefersTo p ⟨"c", k⟩ := by
  have hg : (Workspace.empty.run twinCommands).graphs.get? "g" = some twinGraph := rfl
  have hp : twinGraph.prepare .empty = .ok twinChains := rfl
  have he : twinEdge ∈ twinGraph.edges := List.mem_cons_self
  have hown : twinGraph.find? twinEdge.parentAlias = some loneVertex := rfl
  have hsame : twinEdge.parent.table.same loneVertex.table = true := rfl
  have hother : twinEdge.parent.serial ∉ twinGraph.vertices.map Vertex.serial := by decide
  obtain ⟨-, -, -, hlost⟩ := materialize_rejoined twinCommands hg hp he hown hsame
  exact ⟨rfl, rfl, hlost hother rfl⟩

end Workspace

end NestedJoin
