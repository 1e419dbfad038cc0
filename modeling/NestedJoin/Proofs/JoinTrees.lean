import NestedJoin.Proofs.Relations
import NestedJoin.Proofs.Resolving
set_option autoImplicit false

/-!
# What compiled joins mean

The tree of joins of a compiled statement has the graph's tables as its leaves and one join for
every edge.  A right join is compiled to a left join with the joined table on the left and
everything so far on the right.  The tree yields the rows that come from joining the root with
the tables of the edges one by one, as the types of the joins say.

Main statement: `Session.joins_compiled`.
-/

namespace NestedJoin

open Sql

namespace Source

variable {γ : Type}

/-! ## Leaves and joins of a tree -/

/-- The leaves of a tree of joins from left to right, brackets opened. -/
def leaves : Source γ → List (Source γ)
  | .join l r _ _ => l.leaves ++ r.leaves
  | .grouped s => s.leaves
  | s => [s]

/-- The names of the leaves of a tree of joins. -/
def leafNames (s : Source γ) : List String := s.leaves.filterMap name?

/-- A join within a tree of joins. -/
structure JoinNode (γ : Type) where
  left : Source γ
  right : Source γ
  outer : Bool
  on : γ

/-- The names of the leaves below a join. -/
def JoinNode.leafNames (j : JoinNode γ) : List String := j.left.leafNames ++ j.right.leafNames

/-- The joins within a tree of joins, brackets opened; what is below a join comes before it. -/
def joins : Source γ → List (JoinNode γ)
  | .join l r outer on => l.joins ++ r.joins ++ [⟨l, r, outer, on⟩]
  | .grouped s => s.joins
  | _ => []

@[simp] theorem leaves_bracketed (s : Source γ) : s.bracketed.leaves = s.leaves := by
  cases s <;> rfl

@[simp] theorem leafNames_bracketed (s : Source γ) : s.bracketed.leafNames = s.leafNames := by
  rw [leafNames, leaves_bracketed, leafNames]

@[simp] theorem joins_bracketed (s : Source γ) : s.bracketed.joins = s.joins := by
  cases s <;> rfl

@[simp] theorem evaluate_bracketed (tables : StoredTables) (holds : γ → JoinedRow → Bool)
    (s : Source γ) : s.bracketed.evaluate tables holds = s.evaluate tables holds := by
  cases s <;> rfl

end Source

open Source

/-! ## Joining one by one -/

/-- The join of two relations by the type of a join. -/
def Relation.joinedBy (type : JoinType) (on : JoinedRow → Bool) (l r : Relation) : Relation :=
  match type with
  | .inner => l.inner on r
  | .left => l.left on r
  | .right => l.right on r

theorem Relation.columns_joinedBy (type : JoinType) (on : JoinedRow → Bool) (l r : Relation) :
    (joinedBy type on l r).columns = l.columns ++ r.columns := by
  cases type <;> rfl

/-- The stored table of a vertex under the vertex's alias. -/
def Vertex.stored (tables : StoredTables) (v : Vertex) : Relation :=
  .scan tables v.aliasName v.table.name v.table.fields

namespace Graph

/-- The rows of a root joined with the tables of edges one by one. -/
def folded (tables : StoredTables) (holds : OnClause → JoinedRow → Bool)
    (params : OrderedMap String Value) (root : Vertex) (es : List Edge) : Relation :=
  es.foldl (fun acc e =>
    acc.joinedBy e.joinType (holds (e.matching params)) (e.child.stored tables))
    (root.stored tables)

/-- A join stands for an edge.  It compares columns of the edge's own table, which is one side, with
columns of the table that the edge is joined to, which is a leaf of the other side. -/
structure Realizes (params : OrderedMap String Value) (j : JoinNode OnClause) (e : Edge) :
    Prop where
  on_eq : j.on = e.matching params
  outer_iff : j.outer = true ↔ e.joinType ≠ .inner
  sides : ∃ rest : Source OnClause, e.parentAlias ∈ rest.leafNames ∧
    (j.left = leaf e.child ∧ j.right = rest ∨ j.left = rest ∧ j.right = leaf e.child)

section

variable (tables : StoredTables) (holds : OnClause → JoinedRow → Bool)
  (params : OrderedMap String Value) (root : Vertex)

theorem folded_concat (es : List Edge) (e : Edge) :
    folded tables holds params root (es ++ [e]) =
      (folded tables holds params root es).joinedBy e.joinType (holds (e.matching params))
        (e.child.stored tables) := by
  rw [folded, List.foldl_append]
  rfl

theorem owner_of_mem_stored {v : Vertex} {c : ColumnRef} (h : c ∈ (v.stored tables).columns) :
    c.owner = v.aliasName :=
  (Relation.mem_columns_scan_iff.1 h).1

/-- The rows of joined tables hold columns of these tables only. -/
theorem owner_of_mem_folded {es : List Edge} {c : ColumnRef}
    (h : c ∈ (folded tables holds params root es).columns) :
    c.owner ∈ (root :: es.map Edge.child).map Vertex.aliasName := by
  induction es using List.reverseRecOn with
  | nil => exact List.mem_singleton.2 (owner_of_mem_stored tables h)
  | append_singleton es e ih =>
    rw [folded_concat, Relation.columns_joinedBy] at h
    rw [List.map_append, ← List.cons_append, List.map_append]
    rcases List.mem_append.1 h with h | h
    · exact List.mem_append_left _ (ih h)
    · exact List.mem_append_right _ (List.mem_singleton.2 (owner_of_mem_stored tables h))

theorem evaluate_leaf (v : Vertex) : (leaf v).evaluate tables holds = v.stored tables :=
  Relation.scan_renamed tables _ _ _ _

/-! ## One more leaf -/

variable {params root} {acc : Source OnClause}

/-- One more leaf joined to a tree adds the rows that its type of join adds. -/
theorem evaluate_joinLeaf_same {r : Relation} (h : (acc.evaluate tables holds).Same r) {e : Edge}
    (hnew : ∀ c ∈ r.columns, c.owner ≠ e.aliasName) (on : OnClause) :
    ((joinLeaf acc (leaf e.child) e.joinType on).evaluate tables holds).Same
      (r.joinedBy e.joinType (holds on) (e.child.stored tables)) := by
  cases htype : e.joinType with
  | inner =>
    show ((acc.evaluate tables holds).inner (holds on)
      ((leaf e.child).evaluate tables holds)).Same _
    rw [evaluate_leaf]
    exact h.inner _
  | left =>
    show ((acc.evaluate tables holds).left (holds on) ((leaf e.child).evaluate tables holds)).Same _
    rw [evaluate_leaf]
    exact h.left _
  | right =>
    show (((leaf e.child).evaluate tables holds).left (holds on)
      (acc.bracketed.evaluate tables holds)).Same _
    rw [evaluate_leaf, evaluate_bracketed]
    have hdisjoint : ∀ c ∈ (acc.evaluate tables holds).columns,
        c ∉ (e.child.stored tables).columns := by
      intro c hc hc'
      exact hnew c (h.columns_perm.mem_iff.1 hc) (owner_of_mem_stored tables hc')
    exact (Relation.right_same_left (holds on) hdisjoint).symm.trans (h.right _)

theorem leaves_joinLeaf_perm (type : JoinType) (on : OnClause) (v : Vertex) :
    (joinLeaf acc (leaf v) type on).leaves.Perm (acc.leaves ++ [leaf v]) := by
  cases type with
  | inner => exact List.Perm.refl _
  | left => exact List.Perm.refl _
  | right =>
    show ([leaf v] ++ acc.bracketed.leaves).Perm _
    rw [leaves_bracketed]
    exact List.perm_append_comm

variable (params) in
/-- One more leaf joined to a tree adds a join that stands for its edge. -/
theorem joins_joinLeaf {e : Edge} (h : e.parentAlias ∈ acc.leafNames) :
    ∃ j, (joinLeaf acc (leaf e.child) e.joinType (e.matching params)).joins = acc.joins ++ [j] ∧
      Realizes params j e := by
  cases htype : e.joinType with
  | inner =>
    refine ⟨⟨acc, leaf e.child, false, e.matching params⟩, ?_, rfl, ?_, acc, h, ?_⟩
    · show acc.joins ++ [] ++ [_] = _
      rw [List.append_nil]
    · exact iff_of_false Bool.false_ne_true (fun hne => hne htype)
    · exact Or.inr ⟨rfl, rfl⟩
  | left =>
    refine ⟨⟨acc, leaf e.child, true, e.matching params⟩, ?_, rfl, ?_, acc, h, ?_⟩
    · show acc.joins ++ [] ++ [_] = _
      rw [List.append_nil]
    · exact iff_of_true rfl (by rw [htype]; decide)
    · exact Or.inr ⟨rfl, rfl⟩
  | right =>
    refine ⟨⟨leaf e.child, acc.bracketed, true, e.matching params⟩, ?_, rfl, ?_, acc.bracketed, ?_,
      ?_⟩
    · show [] ++ acc.bracketed.joins ++ [_] = _
      rw [List.nil_append, joins_bracketed]
    · exact iff_of_true rfl (by rw [htype]; decide)
    · rw [leafNames_bracketed]
      exact h
    · exact Or.inl ⟨rfl, rfl⟩

end

/-- The names of leaves that stand for vertices are the aliases of the vertices. -/
theorem leafNames_perm_of_leaves {s : Source OnClause} {vs : List Vertex}
    (h : s.leaves.Perm (vs.map leaf)) : s.leafNames.Perm (vs.map Vertex.aliasName) := by
  have hnames : (vs.map leaf).filterMap name? = vs.map Vertex.aliasName := by
    rw [List.filterMap_map]
    exact congrFun List.filterMap_eq_map vs
  rw [← hnames]
  exact h.filterMap _

/-- Both columns that a join compares are columns of leaves below it: the first one of the table
that the edge adds and the second one of the table it is joined to. -/
theorem Realizes.owners {params : OrderedMap String Value} {j : JoinNode OnClause} {e : Edge}
    (h : Realizes params j e) : ∀ p ∈ j.on.pairs,
      p.1.owner = e.aliasName ∧ p.2.owner = e.parentAlias ∧
        e.aliasName ∈ j.leafNames ∧ e.parentAlias ∈ j.leafNames := by
  intro p hp
  rw [h.on_eq] at hp
  obtain ⟨q, -, rfl⟩ := List.mem_map.1 hp
  have hchild : e.aliasName ∈ (leaf e.child).leafNames := List.mem_singleton.2 rfl
  obtain ⟨rest, hparent, ⟨hl, hr⟩ | ⟨hl, hr⟩⟩ := h.sides
  · rw [JoinNode.leafNames, hl, hr]
    exact ⟨rfl, rfl, List.mem_append_left _ hchild, List.mem_append_right _ hparent⟩
  · rw [JoinNode.leafNames, hl, hr]
    exact ⟨rfl, rfl, List.mem_append_right _ hchild, List.mem_append_left _ hparent⟩

/-! ## Whole trees -/

section

variable {g : Graph} {root : Vertex} (params : OrderedMap String Value)

theorem leaves_joined_perm (root : Vertex) (es : List Edge) :
    (joined params root es).leaves.Perm ((root :: es.map Edge.child).map leaf) := by
  induction es using List.reverseRecOn with
  | nil => exact List.Perm.refl _
  | append_singleton es e ih =>
    rw [joined_concat, List.map_append, ← List.cons_append, List.map_append]
    exact (leaves_joinLeaf_perm e.joinType (e.matching params) e.child).trans (ih.append_right _)

/-- Every join of a grown graph stands for its edge. -/
theorem Grown.joins_joined (hg : g.Grown) (hroot : g.root = some root) :
    List.Forall₂ (Realizes params) (joined params root g.edges).joins g.edges := by
  have run : ∀ done rest, g.edges = done ++ rest →
      List.Forall₂ (Realizes params) (joined params root done).joins done := by
    intro done
    induction done using List.reverseRecOn with
    | nil => exact fun _ _ => .nil
    | append_singleton done e ih =>
      intro rest hs
      rw [List.append_assoc, List.singleton_append] at hs
      have hparent : e.parentAlias ∈ (joined params root done).leafNames := by
        rw [(leafNames_perm_of_leaves (leaves_joined_perm params root done)).mem_iff]
        have hm := hg.coherent.parent_mem done e rest hs
        rwa [hroot] at hm
      obtain ⟨j, hj, hrealizes⟩ := joins_joinLeaf params hparent
      rw [joined_concat, hj]
      exact List.rel_append (ih (e :: rest) hs) (.cons hrealizes .nil)
  exact run g.edges [] (List.append_nil _).symm

/-- The tree of joins of a grown graph yields the rows of its tables joined one by one. -/
theorem Grown.evaluate_joined_same (hg : g.Grown) (hroot : g.root = some root)
    (tables : StoredTables) (holds : OnClause → JoinedRow → Bool) :
    ((joined params root g.edges).evaluate tables holds).Same
      (folded tables holds params root g.edges) := by
  have run : ∀ done rest, g.edges = done ++ rest →
      ((joined params root done).evaluate tables holds).Same
        (folded tables holds params root done) := by
    intro done
    induction done using List.reverseRecOn with
    | nil =>
      intro _ _
      show ((leaf root).evaluate tables holds).Same _
      rw [evaluate_leaf]
      exact .refl _
    | append_singleton done e ih =>
      intro rest hs
      rw [List.append_assoc, List.singleton_append] at hs
      rw [joined_concat, folded_concat]
      refine evaluate_joinLeaf_same tables holds (ih (e :: rest) hs) ?_ _
      intro c hc howner
      have hn := Coherent.aliases_nodup g
      rw [hg.coherent.aliases_split hs, hroot, List.nodup_append] at hn
      exact hn.2.2 _ (owner_of_mem_folded tables holds params root hc) _
        (howner ▸ List.mem_cons_self) rfl
  exact run g.edges [] (List.append_nil _).symm

end

end Graph

namespace Session

open NestedJoin.Graph

/-- For every builder that calls have made.  Compiling without filters succeeds.  After any filters
the leaves of the compiled tree of joins are the tables of the graph, so that every alias names one
leaf.  The joins of the tree stand for the edges, one for each; they compare columns of the edge's
own table with columns of the table it is joined to, both of them leaves below the join.  Whatever
the tables store and whatever the conditions mean, the tree yields the rows that come from joining
the root with the tables of the edges one by one. -/
theorem joins_compiled (schema : Schema) (cs : List Command) {name : String} {b : Builder}
    (hb : ((ofSchema schema).obeyAll cs).builder? name = some b) (chains : KeyChains) :
    ∃ root, b.graph.root = some root ∧ (∃ c, (b.graph.compile [] chains).outcome = .ok c) ∧
      ∀ filters c, (b.graph.compile filters chains).outcome = .ok c →
        c.statement.source.leaves.Perm (b.graph.vertices.map leaf) ∧
        c.statement.source.leafNames.Perm b.graph.aliases ∧ c.statement.source.leafNames.Nodup ∧
        List.Forall₂ (fun j e => Realizes c.params j e ∧ ∀ p ∈ j.on.pairs,
          p.1.owner = e.aliasName ∧ p.2.owner = e.parentAlias ∧
            e.aliasName ∈ j.leafNames ∧ e.parentAlias ∈ j.leafNames)
          c.statement.source.joins b.graph.edges ∧
        ∀ tables holds, (c.statement.source.evaluate tables holds).Same
          (folded tables holds c.params root b.graph.edges) := by
  have hg := grown_run schema cs hb
  obtain ⟨root, hroot⟩ := Option.isSome_iff_exists.1 hg.has_root
  refine ⟨root, hroot, ⟨_, hg.outcome_compile hroot [] chains⟩, ?_⟩
  intro filters c hc
  obtain ⟨s, hs, rfl⟩ := hg.of_outcome_compile hroot hc
  have hsource : s.source = joined (Parameters.ofEdges b.graph.edges).values root b.graph.edges :=
    (Filter.applyAll_source hs).1
  have hleaves : s.source.leaves.Perm (b.graph.vertices.map leaf) := by
    rw [hsource, hg.coherent.vertices_eq_cons hroot]
    exact leaves_joined_perm _ root b.graph.edges
  have hnames : s.source.leafNames.Perm b.graph.aliases := by
    rw [hg.coherent.aliases_eq]
    exact leafNames_perm_of_leaves hleaves
  have hjoins : List.Forall₂ (Realizes (Parameters.ofEdges b.graph.edges).values) s.source.joins
      b.graph.edges := by
    rw [hsource]
    exact hg.joins_joined _ hroot
  refine ⟨hleaves, hnames, hnames.nodup_iff.2 (Coherent.aliases_nodup b.graph), ?_, ?_⟩
  · exact hjoins.imp fun j e h => ⟨h, h.owners⟩
  · intro tables holds
    show (s.source.evaluate tables holds).Same _
    rw [hsource]
    exact hg.evaluate_joined_same _ hroot tables holds

/-- A left join and then a right join. -/
theorem joins_compiled_crossed : ∃ root c, crossedBuilder.graph.root = some root ∧
    (crossedBuilder.graph.compile [] .empty).outcome = .ok c ∧
    c.statement.source.leafNames.Perm ["a", "b", "c"] ∧
    ∀ tables holds, (c.statement.source.evaluate tables holds).rows =
      (folded tables holds c.params root crossedBuilder.graph.edges).rows := by
  have hb : ((ofSchema (.ofSource (.uniform ⟨["id", "x"], ["id"]⟩))).obeyAll crossedCalls).builder?
      "q" = some crossedBuilder := rfl
  obtain ⟨root, hroot, ⟨c, hc⟩, hcompiled⟩ := joins_compiled _ _ hb .empty
  obtain ⟨-, hnames, -, -, hrows⟩ := hcompiled [] c hc
  exact ⟨root, c, hroot, hc, hnames, fun tables holds => (hrows tables holds).rows_eq⟩

end Session

end NestedJoin
