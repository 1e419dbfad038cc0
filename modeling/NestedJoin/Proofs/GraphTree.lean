import Mathlib.Data.List.Induction
import Mathlib.Data.List.Nodup
import NestedJoin.Workspace
set_option autoImplicit false

/-!
# Join graphs are trees

A graph files its vertices, its edges and its lists of edges apart.  Here it is shown that
every call keeps them in step: `Graph.Coherent` says how the collections belong together,
and each operation on graphs preserves it, so that it holds of every graph a workspace can
come to hold.  From it follows the tree: one path of edges leads from the root to each alias.

Main statements: `Workspace.graph_obey`, what a graph can be after a call, and
`Workspace.run_isRootedTree`.
-/

namespace NestedJoin

/-! ## Splitting lists -/

/-- What stands where in a list with one more item at its end. -/
theorem split_of_concat_eq {α : Type} {l before after : List α} {x y : α}
    (h : l ++ [x] = before ++ y :: after) :
    (before = l ∧ y = x ∧ after = []) ∨ ∃ rest, after = rest ++ [x] ∧ l = before ++ y :: rest := by
  rcases List.eq_nil_or_concat after with rfl | ⟨rest, z, rfl⟩
  · obtain ⟨rfl, hx⟩ := List.append_inj' h rfl
    exact Or.inl ⟨rfl, (List.cons.inj hx).1.symm, rfl⟩
  · rw [List.concat_eq_append, ← List.cons_append, ← List.append_assoc] at h
    obtain ⟨hl, hx⟩ := List.append_inj' h rfl
    obtain rfl := (List.cons.inj hx).1
    exact Or.inr ⟨rest, List.concat_eq_append, hl⟩

namespace Graph

/-! ## Coherence -/

/-- The collections of a graph belong together. -/
structure Coherent (g : Graph) : Prop where
  /-- vertices are filed under their own aliases -/
  aliases_eq : g.aliases = g.vertices.map Vertex.aliasName
  /-- edges are filed under the aliases they join -/
  joins_keys : g.joins.keys = g.edges.map Edge.aliasName
  /-- the vertices are the root and the joined ones in the order of their edges -/
  vertices_eq : g.vertices = g.root.toList ++ g.edges.map Edge.child
  /-- an edge leads to a vertex that was there before it -/
  parent_mem : ∀ before e after, g.edges = before ++ e :: after →
    e.parentAlias ∈ (g.root.toList ++ before.map Edge.child).map Vertex.aliasName
  /-- the edges onto an alias are filed in the order of all edges -/
  edgesInto_eq : ∀ a, g.edgesInto a = g.edges.filter fun e => e.parentAlias == a
  /-- no two columns have one name -/
  columns_nodup : (g.vertices.flatMap fun v => v.table.columns).Nodup

namespace Coherent

variable {g : Graph}

theorem aliases_nodup (g : Graph) : g.aliases.Nodup := g.tables.keys_nodup

theorem alias_mem (h : g.Coherent) {v : Vertex} (hv : v ∈ g.vertices) :
    v.aliasName ∈ g.aliases := by
  rw [h.aliases_eq]
  exact List.mem_map_of_mem hv

theorem vertices_nodup (h : g.Coherent) : g.vertices.Nodup := by
  have ha := aliases_nodup g
  rw [h.aliases_eq] at ha
  exact ha.of_map

theorem vertices_eq_cons (h : g.Coherent) {r : Vertex} (hr : g.root = some r) :
    g.vertices = r :: g.edges.map Edge.child := by
  rw [h.vertices_eq, hr]
  rfl

/-- The aliases are the root's and those of the edges. -/
theorem aliases_eq_root_append (h : g.Coherent) :
    g.aliases = g.root.toList.map Vertex.aliasName ++ g.edges.map Edge.aliasName := by
  rw [h.aliases_eq, h.vertices_eq, List.map_append, List.map_map]
  rfl

theorem edge_aliases_nodup (h : g.Coherent) : (g.edges.map Edge.aliasName).Nodup := by
  rw [← h.joins_keys]
  exact g.joins.keys_nodup

/-- A graph without a root has no edges. -/
theorem edges_eq_nil (h : g.Coherent) (hr : g.root = none) : g.edges = [] := by
  cases he : g.edges with
  | nil => rfl
  | cons e after =>
    have hp := h.parent_mem [] e after he
    simp [hr] at hp

/-- Where an edge stands among the aliases: after those that were there before it. -/
theorem aliases_split (h : g.Coherent) {before after : List Edge} {e : Edge}
    (hs : g.edges = before ++ e :: after) :
    g.aliases = (g.root.toList ++ before.map Edge.child).map Vertex.aliasName ++
      (e :: after).map Edge.aliasName := by
  rw [h.aliases_eq_root_append, hs]
  simp only [List.map_append, List.map_map, List.append_assoc]
  rfl

/-- Neither an edge nor a later one joins the alias that the edge leads from. -/
theorem parent_notMem (h : g.Coherent) {before after : List Edge} {e : Edge}
    (hs : g.edges = before ++ e :: after) : e.parentAlias ∉ (e :: after).map Edge.aliasName := by
  have hn := aliases_nodup g
  rw [h.aliases_split hs, List.nodup_append] at hn
  exact fun hm => hn.2.2 _ (h.parent_mem before e after hs) _ hm rfl

/-- No later edge joins the alias of an edge. -/
theorem alias_notMem (h : g.Coherent) {before after : List Edge} {e : Edge}
    (hs : g.edges = before ++ e :: after) : e.aliasName ∉ after.map Edge.aliasName := by
  have hn := aliases_nodup g
  rw [h.aliases_split hs, List.nodup_append] at hn
  exact (List.nodup_cons.1 hn.2.1).1

/-- No edge up to the one that joins an alias leads from that alias. -/
theorem alias_notMem_parents (h : g.Coherent) {before after : List Edge} {e : Edge}
    (hs : g.edges = before ++ e :: after) :
    e.aliasName ∉ (before ++ [e]).map Edge.parentAlias := by
  intro hm
  obtain ⟨f, hf, hq⟩ := List.mem_map.1 hm
  obtain ⟨pre, post, hpre⟩ := List.append_of_mem hf
  have hsplit : g.edges = pre ++ f :: (post ++ after) := by
    rw [hs, List.append_cons, hpre, List.append_assoc, List.cons_append]
  have he : e ∈ f :: post := by
    have hlast : (before ++ [e]).getLast? = (f :: post).getLast? := by
      rw [hpre, List.getLast?_append_of_ne_nil _ (List.cons_ne_nil f post)]
    rw [List.getLast?_concat] at hlast
    exact List.mem_of_getLast? hlast.symm
  apply h.parent_notMem hsplit
  rw [hq, ← List.cons_append, List.map_append]
  exact List.mem_append_left _ (List.mem_map_of_mem he)

theorem parent_mem_aliases (h : g.Coherent) {e : Edge} (he : e ∈ g.edges) :
    e.parentAlias ∈ g.aliases := by
  obtain ⟨before, after, hs⟩ := List.append_of_mem he
  rw [h.aliases_split hs]
  exact List.mem_append_left _ (h.parent_mem before e after hs)

/-! ### New columns -/

/-- Nobody owns a column exactly if no vertex produces it. -/
theorem columnOwner?_eq_none_iff {column : String} :
    g.columnOwner? column = none ↔ ∀ v ∈ g.vertices, column ∉ v.table.columns := by
  simp [Graph.columnOwner?]

/-- The columns of a table clash with nothing exactly if no vertex produces one of them. -/
theorem columnClash?_eq_none_iff {t : Table} :
    g.columnClash? t = none ↔ ∀ c ∈ t.columns, ∀ v ∈ g.vertices, c ∉ v.table.columns := by
  simp only [Graph.columnClash?, List.findSome?_eq_none_iff, Option.map_eq_none_iff,
    columnOwner?_eq_none_iff]

/-! ### Preservation -/

/-- The graph without tables is coherent. -/
theorem empty : Graph.empty.Coherent where
  aliases_eq := rfl
  joins_keys := rfl
  vertices_eq := rfl
  parent_mem := fun before _ _ h => by cases before <;> cases h
  edgesInto_eq := fun _ => rfl
  columns_nodup := List.nodup_nil

/-- The graph of one table is coherent. -/
theorem ofRoot (root : Vertex) : (Graph.ofRoot root).Coherent where
  aliases_eq := rfl
  joins_keys := rfl
  vertices_eq := rfl
  parent_mem := fun before _ _ h => by cases before <;> cases h
  edgesInto_eq := fun _ => rfl
  columns_nodup := by
    show ([root].flatMap fun v => v.table.columns).Nodup
    rw [List.flatMap_singleton]
    exact root.table.columns_nodup

/-- Giving a graph its root keeps it coherent. -/
theorem addRoot {g' : Graph} {root : Vertex} (h : g.Coherent) (ha : g.addRoot root = .ok g') :
    g'.Coherent := by
  unfold Graph.addRoot at ha
  split at ha
  · cases ha
    exact h
  · next hr =>
    split at ha
    · cases ha
    · next hc =>
      cases ha
      have hv : g.vertices = [] := by rw [h.vertices_eq, hr, h.edges_eq_nil hr]; rfl
      have hk : root.aliasName ∉ g.tables.keys :=
        fun hm => hc (OrderedMap.contains_iff_mem_keys.2 hm)
      have hk' : g.tables.keys = [] := by rw [← Graph.aliases, h.aliases_eq, hv]; rfl
      have hvalues : (g.tables.insert root.aliasName root).values = [root] := by
        rw [OrderedMap.values_insert_of_not_mem hk]
        exact congrArg (· ++ [root]) hv
      refine ⟨?_, h.joins_keys, ?_, ?_, h.edgesInto_eq, ?_⟩
      · show (g.tables.insert root.aliasName root).keys = _
        rw [OrderedMap.keys_insert, if_neg hk, hk', Graph.vertices, hvalues]
        rfl
      · show (g.tables.insert root.aliasName root).values = [root] ++ g.edges.map Edge.child
        rw [hvalues, h.edges_eq_nil hr]
        rfl
      · intro before e after hs
        have hn : g.edges = before ++ e :: after := hs
        rw [h.edges_eq_nil hr] at hn
        cases before <;> cases hn
      · show ((g.tables.insert root.aliasName root).values.flatMap fun v => v.table.columns).Nodup
        rw [hvalues, List.flatMap_singleton]
        exact root.table.columns_nodup

theorem not_mem_aliases {a : String} (hn : g.contains a = false) : a ∉ g.aliases := by
  intro hm
  rw [Graph.contains, OrderedMap.contains_iff_mem_keys.2 hm] at hn
  cases hn

theorem not_mem_joins (h : g.Coherent) {a : String} (hn : g.contains a = false) :
    a ∉ g.joins.keys := by
  intro hm
  rw [h.joins_keys] at hm
  apply not_mem_aliases hn
  rw [h.aliases_eq_root_append]
  exact List.mem_append_right _ hm

/-- Filing an edge under a new alias adds its table at the end. -/
theorem vertices_fileEdge {e : Edge} (hn : g.contains e.aliasName = false) :
    (g.fileEdge e).vertices = g.vertices ++ [e.child] :=
  OrderedMap.values_insert_of_not_mem (not_mem_aliases hn) e.child

/-- Filing an edge under a new alias adds it at the end. -/
theorem edges_fileEdge (h : g.Coherent) {e : Edge} (hn : g.contains e.aliasName = false) :
    (g.fileEdge e).edges = g.edges ++ [e] :=
  OrderedMap.values_insert_of_not_mem (h.not_mem_joins hn) e

/-- An accepted edge leaves the graph coherent. -/
theorem addEdge {g' : Graph} {e : Edge} (h : g.Coherent) (ha : g.addEdge e = .ok g') :
    g'.Coherent := by
  obtain ⟨hroot, hnew, hparent, hclash, rfl⟩ := Graph.addEdge_eq_ok_iff.1 ha
  have hk : e.aliasName ∉ g.tables.keys := not_mem_aliases hnew
  have hj : e.aliasName ∉ g.joins.keys := h.not_mem_joins hnew
  have hvertices := vertices_fileEdge hnew
  have hedges := h.edges_fileEdge hnew
  refine ⟨?_, ?_, ?_, ?_, ?_, ?_⟩
  · rw [hvertices, List.map_append, ← h.aliases_eq]
    show (g.tables.insert e.aliasName e.child).keys = _
    rw [OrderedMap.keys_insert, if_neg hk]
    rfl
  · rw [hedges, List.map_append, ← h.joins_keys]
    show (g.joins.insert e.aliasName e).keys = _
    rw [OrderedMap.keys_insert, if_neg hj]
    rfl
  · rw [hvertices, hedges, h.vertices_eq, List.map_append, List.append_assoc]
    rfl
  · intro before f after hs
    rw [hedges] at hs
    rcases split_of_concat_eq hs with ⟨rfl, rfl, -⟩ | ⟨rest, -, hg⟩
    · show _ ∈ (g.root.toList ++ _).map _
      rw [← h.vertices_eq, ← h.aliases_eq]
      exact OrderedMap.contains_iff_mem_keys.1 hparent
    · exact h.parent_mem before f rest hg
  · intro a
    rw [hedges, List.filter_append, ← h.edgesInto_eq]
    show ((g.inbound.insert _ _).get? a).getD [] = _
    rw [OrderedMap.get?_insert]
    by_cases hp : a = e.parentAlias
    · subst hp
      simp
    · have hp' : e.parentAlias ≠ a := fun q => hp q.symm
      simp [hp, hp', Graph.edgesInto]
  · rw [hvertices, List.flatMap_append, List.flatMap_singleton, List.nodup_append]
    refine ⟨h.columns_nodup, e.child.table.columns_nodup, ?_⟩
    rintro c hc _ hc' rfl
    obtain ⟨v, hv, hcv⟩ := List.mem_flatMap.1 hc
    exact columnClash?_eq_none_iff.1 hclash c hc' v hv hcv

end Coherent

/-- A graph without a root and without tables is empty. -/
theorem Coherent.eq_empty {g : Graph} (h : g.Coherent) (hr : g.root = none) :
    g.tables.entries = [] ∧ g.edges = [] := by
  have he := h.edges_eq_nil hr
  have hv : g.vertices = [] := by rw [h.vertices_eq, hr, he]; rfl
  exact ⟨List.map_eq_nil_iff.1 hv, he⟩

/-! ## Paths -/

/-- A path of edges that leads from the root down to an alias. -/
inductive Path (g : Graph) : List Edge → String → Prop
  | root {r : Vertex} (hr : g.root = some r) : Path g [] r.aliasName
  | step {path : List Edge} {e : Edge} (hp : Path g path e.parentAlias) (he : e ∈ g.edges) :
    Path g (path ++ [e]) e.aliasName

/-- No edge joins the root's alias. -/
theorem Coherent.root_ne_edge {g : Graph} (h : g.Coherent) {r : Vertex} (hr : g.root = some r)
    {e : Edge} (he : e ∈ g.edges) : e.aliasName ≠ r.aliasName := by
  intro hq
  have hn := Coherent.aliases_nodup g
  rw [h.aliases_eq_root_append, hr] at hn
  have hm : e.aliasName ∈ g.edges.map Edge.aliasName := List.mem_map_of_mem he
  rw [hq] at hm
  exact (List.nodup_cons.1 hn).1 hm

/-- Edges that join one alias are one edge. -/
theorem Coherent.edge_unique {g : Graph} (h : g.Coherent) {e f : Edge} (he : e ∈ g.edges)
    (hf : f ∈ g.edges) (hq : e.aliasName = f.aliasName) : e = f :=
  List.inj_on_of_nodup_map h.edge_aliases_nodup he hf hq

/-- Only one path leads to an alias. -/
theorem Coherent.path_unique {g : Graph} (h : g.Coherent) {p q : List Edge} {a : String}
    (hp : g.Path p a) (hq : g.Path q a) : p = q := by
  induction hp generalizing q with
  | @root r hr =>
    generalize ha : r.aliasName = a at hq
    cases hq with
    | root _ => rfl
    | step _ he => exact absurd ha.symm (h.root_ne_edge hr he)
  | @step p e hp he ih =>
    generalize ha : e.aliasName = a at hq
    cases hq with
    | root hr => exact absurd ha (h.root_ne_edge hr he)
    | @step q f hq hf =>
      obtain rfl := h.edge_unique he hf ha
      rw [ih hq]

/-- A path leads to every alias.  The edges are taken in their order: whatever an edge leads
from has been reached before it. -/
theorem Coherent.exists_path {g : Graph} (h : g.Coherent) {a : String} (ha : a ∈ g.aliases) :
    ∃ p, g.Path p a := by
  have reach : ∀ before after, g.edges = before ++ after →
      ∀ b ∈ (g.root.toList ++ before.map Edge.child).map Vertex.aliasName, ∃ p, g.Path p b := by
    intro before
    induction before using List.reverseRecOn with
    | nil =>
      intro after _ b hb
      cases hr : g.root with
      | none => simp [hr] at hb
      | some r =>
        have hbr : b = r.aliasName := by simpa [hr] using hb
        subst hbr
        exact ⟨[], .root hr⟩
    | append_singleton before e ih =>
      intro after hs b hb
      rw [List.append_assoc, List.singleton_append] at hs
      simp only [List.map_append, List.mem_append, List.map_cons, List.map_nil,
        List.mem_singleton] at hb
      rcases hb with hb | hb | rfl
      · exact ih _ hs b (by simp only [List.map_append, List.mem_append]; exact Or.inl hb)
      · exact ih _ hs b (by simp only [List.map_append, List.mem_append]; exact Or.inr hb)
      · obtain ⟨p, hp⟩ := ih _ hs _ (h.parent_mem before e after hs)
        have he : e ∈ g.edges := by rw [hs]; exact List.mem_append_right _ List.mem_cons_self
        exact ⟨p ++ [e], .step hp he⟩
  rw [h.aliases_eq, h.vertices_eq] at ha
  exact reach g.edges [] (List.append_nil _).symm a ha

/-! ## Rooted trees -/

/-- A graph is a tree grown from its root, and its collections say so. -/
structure IsRootedTree (g : Graph) : Prop where
  /-- there are no tables exactly if there is no root -/
  tables_empty_iff : g.tables.entries = [] ↔ g.root = none
  /-- the first table is the root, under its own alias -/
  first_table : ∀ r, g.root = some r → g.tables.entries.head? = some (r.aliasName, r)
  /-- a table is filed under its own alias -/
  filed_table : ∀ a v, g.tables.get? a = some v → v.aliasName = a
  /-- an edge is filed under the alias it joins, whose table is the edge's own -/
  filed_edge : ∀ a e, g.joins.get? a = some e → e.aliasName = a ∧ g.tables.get? a = some e.child
  /-- the aliases of the edges, in their order, are all aliases but the first -/
  edge_aliases : g.edges.map Edge.aliasName = g.aliases.tail
  /-- no alias is there twice -/
  aliases_distinct : g.aliases.Nodup
  /-- an edge leads from an older alias -/
  parent_first : ∀ e ∈ g.edges, g.aliases.idxOf e.parentAlias < g.aliases.idxOf e.aliasName
  /-- the edges filed under an alias are those onto it, in the order of all edges -/
  inbound_edges : ∀ a, g.edgesInto a = g.edges.filter fun e => e.parentAlias == a
  /-- every edge is filed under exactly one of the aliases -/
  inbound_partition : ∀ e ∈ g.edges, ∃! a, a ∈ g.aliases ∧ e ∈ g.edgesInto a
  /-- all result columns of all tables are different -/
  columns_distinct : (g.vertices.flatMap fun v => v.table.columns).Nodup
  /-- exactly one path of edges leads from the root to an alias -/
  unique_path : ∀ a ∈ g.aliases, ∃! p, g.Path p a

namespace Coherent

variable {g : Graph}

/-- What is filed under an alias is a vertex of that alias. -/
theorem aliasName_of_find? (h : g.Coherent) {a : String} {v : Vertex}
    (hf : g.tables.get? a = some v) : v.aliasName = a := by
  have hm : (a, v) ∈ g.tables.entries := OrderedMap.get?_eq_some_iff.1 hf
  have hk : g.tables.entries.map Prod.fst = g.tables.entries.map (Vertex.aliasName ∘ Prod.snd) := by
    rw [← List.map_map]
    exact h.aliases_eq
  exact (List.map_inj_left.1 hk (a, v) hm).symm

/-- What is filed as an edge under an alias joins that alias. -/
theorem aliasName_of_edge? (h : g.Coherent) {a : String} {e : Edge}
    (hf : g.edge? a = some e) : e.aliasName = a := by
  have hm : (a, e) ∈ g.joins.entries := OrderedMap.get?_eq_some_iff.1 hf
  have hk : g.joins.entries.map Prod.fst = g.joins.entries.map (Edge.aliasName ∘ Prod.snd) := by
    rw [← List.map_map]
    exact h.joins_keys
  exact (List.map_inj_left.1 hk (a, e) hm).symm

/-- A vertex of the graph is filed under its alias. -/
theorem find?_eq_some (h : g.Coherent) {v : Vertex} (hv : v ∈ g.vertices) :
    g.find? v.aliasName = some v := by
  obtain ⟨⟨a, w⟩, hm, rfl⟩ := List.mem_map.1 hv
  have hf : g.tables.get? a = some w := OrderedMap.get?_eq_some_iff.2 hm
  show g.tables.get? w.aliasName = some w
  rw [h.aliasName_of_find? hf, hf]

theorem eq_of_aliasName (h : g.Coherent) {v w : Vertex} (hv : v ∈ g.vertices)
    (hw : w ∈ g.vertices) (ha : v.aliasName = w.aliasName) : v = w := by
  have hf := h.find?_eq_some hv
  rw [ha, h.find?_eq_some hw] at hf
  exact (Option.some.inj hf).symm

/-- The vertices of the edges are vertices of the graph. -/
theorem child_mem (h : g.Coherent) {e : Edge} (he : e ∈ g.edges) : e.child ∈ g.vertices := by
  rw [h.vertices_eq]
  exact List.mem_append_right _ (List.mem_map_of_mem he)

theorem edge?_eq_some_iff (h : g.Coherent) {v : Vertex} (hv : v ∈ g.vertices) {e : Edge} :
    g.edge? v.aliasName = some e ↔ e ∈ g.edges ∧ e.child = v := by
  constructor
  · intro hf
    have he : e ∈ g.edges := OrderedMap.mem_values_of_get? hf
    exact ⟨he, h.eq_of_aliasName (h.child_mem he) hv (h.aliasName_of_edge? hf)⟩
  · rintro ⟨he, rfl⟩
    obtain ⟨⟨a, e'⟩, hm, rfl⟩ := List.mem_map.1 he
    have hf : g.edge? a = some e' := OrderedMap.get?_eq_some_iff.2 hm
    have ha := h.aliasName_of_edge? hf
    rwa [← ha] at hf

/-- The edges onto a joined alias come after the one that joins it. -/
theorem edgesInto_child (h : g.Coherent) {before after : List Edge} {e : Edge}
    (hs : g.edges = before ++ e :: after) :
    g.edgesInto e.aliasName = after.filter fun f => f.parentAlias == e.aliasName := by
  have hnone : (before ++ [e]).filter (fun f => f.parentAlias == e.aliasName) = [] := by
    refine List.filter_eq_nil_iff.2 fun f hf hq => h.alias_notMem_parents hs ?_
    rw [← beq_iff_eq.1 hq]
    exact List.mem_map_of_mem hf
  rw [h.edgesInto_eq, hs, List.append_cons, List.filter_append, hnone, List.nil_append]

/-- The parent of a joined vertex stands before it. -/
theorem parent_before (h : g.Coherent) {e : Edge} (he : e ∈ g.edges) {pre post : List Vertex}
    (hs : g.vertices = pre ++ e.child :: post) : e.parentAlias ∈ pre.map Vertex.aliasName := by
  obtain ⟨before, after, hedges⟩ := List.append_of_mem he
  have hsplit : g.vertices =
      (g.root.toList ++ before.map Edge.child) ++ e.child :: after.map Edge.child := by
    rw [h.vertices_eq, hedges, List.map_append, List.map_cons, List.append_assoc]
  have hn := h.vertices_nodup
  rw [hsplit, List.nodup_append, List.nodup_cons] at hn
  have hnot : e.child ∉ g.root.toList ++ before.map Edge.child := fun hm =>
    hn.2.2 _ hm _ List.mem_cons_self rfl
  rw [hsplit, List.append_cons_inj_of_notMem hnot hn.2.1.1] at hs
  rw [← hs.1]
  exact h.parent_mem before e after hedges

theorem isRootedTree (h : g.Coherent) : g.IsRootedTree where
  tables_empty_iff := by
    constructor
    · intro he
      have hv : g.vertices = [] := by rw [vertices, OrderedMap.values, he]; rfl
      rw [h.vertices_eq, List.append_eq_nil_iff] at hv
      exact Option.toList_eq_nil_iff.1 hv.1
    · exact fun hr => (h.eq_empty hr).1
  first_table := by
    intro r hr
    have hv := h.vertices_eq
    rw [hr, vertices, OrderedMap.values] at hv
    cases he : g.tables.entries with
    | nil => simp [he] at hv
    | cons p ps =>
      rw [he] at hv
      obtain rfl : p.2 = r := (List.cons.inj hv).1
      have hm : g.tables.get? p.1 = some p.2 :=
        OrderedMap.get?_eq_some_iff.2 (by rw [he]; exact List.mem_cons_self)
      rw [List.head?_cons, h.aliasName_of_find? hm]
  filed_table := fun _ _ => h.aliasName_of_find?
  filed_edge := by
    intro a e he
    have ha := h.aliasName_of_edge? he
    have hm : e ∈ g.edges := OrderedMap.mem_values_of_get? he
    refine ⟨ha, ?_⟩
    rw [← ha]
    exact h.find?_eq_some (h.child_mem hm)
  edge_aliases := by
    rw [h.aliases_eq_root_append]
    cases hr : g.root with
    | none => rw [h.edges_eq_nil hr]; rfl
    | some r => rfl
  aliases_distinct := aliases_nodup g
  parent_first := by
    intro e he
    obtain ⟨before, after, hs⟩ := List.append_of_mem he
    have hp := h.parent_mem before e after hs
    have hnot : e.aliasName ∉ (g.root.toList ++ before.map Edge.child).map Vertex.aliasName := by
      have hn := aliases_nodup g
      rw [h.aliases_split hs, List.nodup_append] at hn
      exact fun hm => hn.2.2 _ hm _ List.mem_cons_self rfl
    rw [h.aliases_split hs, List.idxOf_append_of_mem hp, List.idxOf_append_of_notMem hnot]
    have hlt := List.idxOf_lt_length_of_mem hp
    omega
  inbound_edges := h.edgesInto_eq
  inbound_partition := by
    intro e he
    refine ⟨e.parentAlias, ⟨h.parent_mem_aliases he, ?_⟩, ?_⟩
    · rw [h.edgesInto_eq]
      exact List.mem_filter.2 ⟨he, beq_self_eq_true _⟩
    · rintro a ⟨-, hm⟩
      rw [h.edgesInto_eq] at hm
      exact (eq_of_beq (List.mem_filter.1 hm).2).symm
  columns_distinct := h.columns_nodup
  unique_path := by
    intro a ha
    obtain ⟨p, hp⟩ := h.exists_path ha
    exact ⟨p, hp, fun q hq => h.path_unique hq hp⟩

end Coherent

end Graph

namespace Workspace

/-! ## Runs of calls -/

/-- A call on the graphs of a workspace. -/
inductive Command where
  /-- starts a graph anew, with a root or without one -/
  | start (name : String) (root : Option Vertex)
  /-- gives a graph a root -/
  | addRoot (name : String) (root : Vertex)
  /-- adds an edge to a graph -/
  | addEdge (name : String) (edge : Edge)
  /-- works out the key chains of a graph -/
  | prepare (name : String)
  /-- compiles a graph -/
  | compile (name : String) (filters : List Filter)
  /-- stores a copy of a graph -/
  | clone (source target : String)

/-- The workspace after a call, or the reason why the call failed. -/
def perform (w : Workspace) : Command → Except Fault Workspace
  | .start name root => .ok (w.start name root)
  | .addRoot name root => w.addRoot name root
  | .addEdge name edge => w.insertEdge name edge
  | .prepare name => w.prepare name
  | .compile name filters => (w.graph name).map fun g => (w.compile g filters).2
  | .clone source target => w.clone source target

/-- The workspace after a call that may fail; a call that fails changes nothing. -/
def obey (w : Workspace) (c : Command) : Workspace :=
  match w.perform c with
  | .ok w' => w'
  | .error _ => w

/-- The workspace after some calls. -/
def run (w : Workspace) (cs : List Command) : Workspace := cs.foldl obey w

/-! ### What a call does -/

/-- The graph whose key chains a call works out. -/
def prepared? (w : Workspace) : Command → Option Graph
  | .prepare name => w.graphs.get? name
  | .compile name _ => w.graphs.get? name
  | _ => none

/-- A call that is accepted brings a graph to a name. -/
inductive Brings (w : Workspace) : Command → String → Graph → Prop where
  | start {name : String} (root : Option Vertex) :
    Brings w (.start name root) name ((root.map Graph.ofRoot).getD .empty)
  | addRoot {name : String} {root : Vertex} {g g' : Graph} (hg : w.graphs.get? name = some g)
    (ha : g.addRoot root = .ok g') : Brings w (.addRoot name root) name g'
  | addEdge {name : String} {e : Edge} {g g' : Graph} (hg : w.graphs.get? name = some g)
    (ha : g.addEdge e = .ok g') : Brings w (.addEdge name e) name g'
  | clone {source target : String} {g : Graph} (hg : w.graphs.get? source = some g) :
    Brings w (.clone source target) target g

theorem prepare_eq {w : Workspace} {name : String} {g : Graph}
    (hg : w.graphs.get? name = some g) :
    w.prepare name = (g.prepare w.chains).map fun chains => { w with chains } := by
  rw [Workspace.prepare, graph, hg]
  rfl

/-- Preparing and compiling change the key chains, and nothing else. -/
theorem obey_of_prepared? {w : Workspace} {c : Command} {g : Graph} (h : w.prepared? c = some g) :
    w.obey c = { w with chains := g.prepared w.chains } := by
  cases c with
  | start name root => cases h
  | addRoot name root => cases h
  | addEdge name e => cases h
  | clone source target => cases h
  | prepare name =>
    have hg : w.graphs.get? name = some g := h
    rw [obey, perform, prepare_eq hg, Graph.prepared]
    cases g.prepare w.chains <;> rfl
  | compile name filters =>
    have hg : w.graphs.get? name = some g := h
    rw [obey, perform, graph, hg, ← g.chains_compile filters]
    rfl

/-- Every other call stores a graph or changes nothing. -/
theorem obey_of_not_prepared? {w : Workspace} {c : Command} (h : w.prepared? c = none) :
    w.obey c = w ∨ ∃ name g, w.Brings c name g ∧ w.obey c = w.put name g := by
  cases c with
  | start name root => exact Or.inr ⟨name, _, .start root, rfl⟩
  | addRoot name root =>
    cases hg : w.graphs.get? name with
    | none =>
      rw [obey, perform, Workspace.addRoot, graph, hg]
      exact Or.inl rfl
    | some g =>
      have hw : w.addRoot name root = (g.addRoot root).map (w.put name) := by
        rw [Workspace.addRoot, graph, hg]
        rfl
      rw [obey, perform, hw]
      cases ha : g.addRoot root with
      | error f => exact Or.inl rfl
      | ok g' => exact Or.inr ⟨name, g', .addRoot hg ha, rfl⟩
  | addEdge name e =>
    cases hg : w.graphs.get? name with
    | none =>
      rw [obey, perform, insertEdge, graph, hg]
      exact Or.inl rfl
    | some g =>
      have hw : w.insertEdge name e = (g.addEdge e).map (w.put name) := by
        rw [insertEdge, graph, hg]
        rfl
      rw [obey, perform, hw]
      cases ha : g.addEdge e with
      | error f => exact Or.inl rfl
      | ok g' => exact Or.inr ⟨name, g', .addEdge hg ha, rfl⟩
  | prepare name =>
    have hg : w.graphs.get? name = none := h
    rw [obey, perform, Workspace.prepare, graph, hg]
    exact Or.inl rfl
  | compile name filters =>
    have hg : w.graphs.get? name = none := h
    rw [obey, perform, graph, hg]
    exact Or.inl rfl
  | clone source target =>
    rw [obey, perform, Workspace.clone, graph]
    cases hg : w.graphs.get? source with
    | none => exact Or.inl rfl
    | some g => exact Or.inr ⟨target, g, .clone hg, rfl⟩

/-- A graph was there before a call, or the call brings it. -/
theorem graph_obey {w : Workspace} {c : Command} {name : String} {g : Graph}
    (h : (w.obey c).graphs.get? name = some g) :
    w.graphs.get? name = some g ∨ w.Brings c name g := by
  cases hp : w.prepared? c with
  | some g' =>
    rw [obey_of_prepared? hp] at h
    exact Or.inl h
  | none =>
    rcases obey_of_not_prepared? hp with hq | ⟨name', g', hb, hq⟩
    · rw [hq] at h
      exact Or.inl h
    · rw [hq, put, OrderedMap.get?_insert] at h
      split at h
      · next hn =>
        obtain rfl := Option.some.inj h
        exact Or.inr (hn ▸ hb)
      · exact Or.inl h

/-! ### Coherence of runs -/

/-- Every graph of a workspace is coherent. -/
def Coherent (w : Workspace) : Prop :=
  ∀ name g, w.graphs.get? name = some g → g.Coherent

namespace Coherent

variable {w : Workspace}

theorem empty : Workspace.empty.Coherent := by
  intro name g h
  cases h

/-- No call leads out of coherence. -/
theorem obey (h : w.Coherent) (c : Command) : (w.obey c).Coherent := by
  intro name g hafter
  rcases graph_obey hafter with hbefore | hb
  · exact h name g hbefore
  · cases hb with
    | start root =>
      cases root with
      | none => exact Graph.Coherent.empty
      | some r => exact Graph.Coherent.ofRoot r
    | addRoot hg ha => exact (h _ _ hg).addRoot ha
    | addEdge hg ha => exact (h _ _ hg).addEdge ha
    | clone hg => exact h _ g hg

theorem run (h : w.Coherent) (cs : List Command) : (w.run cs).Coherent := by
  induction cs generalizing w with
  | nil => exact h
  | cons c cs ih => exact ih (h.obey c)

end Coherent

/-- Whatever calls are made, and whether they fail or not, every graph is a tree grown from its
root, and its collections say so. -/
theorem run_isRootedTree (cs : List Command) (name : String) (g : Graph)
    (h : (Workspace.empty.run cs).graphs.get? name = some g) : g.IsRootedTree :=
  (Coherent.empty.run cs name g h).isRootedTree

/-! ### A run with failing calls -/

/-- A vertex with the key `id` and one more field. -/
def sampleVertex (aliasName field : String) (ha : aliasName ≠ "") (hf : "id" ≠ field) : Vertex where
  serial := 0
  table :=
    { aliasName, name := aliasName, fields := ["id", field], primaryKey := ["id"]
      container := some aliasName, subject := .named aliasName
      alias_ne_empty := ha
      fields_ne_nil := List.cons_ne_nil _ _
      fields_nodup := by simp [hf]
      primaryKey_ne_nil := List.cons_ne_nil _ _
      primaryKey_subset := by simp }

/-- An edge that pairs the keys of two vertices. -/
def sampleEdge (child parent : Vertex) (container : String)
    (hc : child.table.container = some container) (hi : "id" ∈ child.table.fields)
    (hp : "id" ∈ parent.table.fields) : Edge where
  serial := 0
  kind := .multiple
  child := child
  parent := parent
  on := OrderedMap.empty.insert "id" "id"
  joinType := .left
  condition := none
  params := .empty
  container := container
  container_eq := hc
  on_ne_nil := List.cons_ne_nil _ _
  child_mem := by
    intro e he
    cases he with
    | head => exact hi
    | tail _ h => cases h
  parent_mem := by
    intro e he
    cases he with
    | head => exact hp
    | tail _ h => cases h

def sampleChild : Vertex := { sampleVertex "c" "x" (by decide) (by decide) with serial := 2 }

/-- Calls of which the second, the sixth and the ninth fail: there is no root yet, an alias is
taken, and two tables with different aliases and fields have a column `a_b_c`. -/
def sampleCommands : List Command :=
  let a := sampleVertex "a" "b_c" (by decide) (by decide)
  let b := sampleVertex "a_b" "c" (by decide) (by decide)
  let c := sampleVertex "c" "x" (by decide) (by decide)
  let onto (child : Vertex) (container : String) (hc : child.table.container = some container)
      (hi : "id" ∈ child.table.fields) : Edge :=
    sampleEdge child a container hc hi (by decide)
  [.start "g" none, .addEdge "g" (onto c "c" rfl (by decide)), .addRoot "g" a, .addRoot "g" c,
    .addEdge "g" (onto c "c" rfl (by decide)), .addEdge "g" (onto c "c" rfl (by decide)),
    .clone "g" "h", .compile "h" [], .addEdge "h" (onto b "a_b" rfl (by decide))]

/-- A copied graph after calls of which some failed. -/
theorem run_isRootedTree_sample :
    ∃ g, (Workspace.empty.run sampleCommands).graphs.get? "h" = some g ∧
      g.aliases = ["a", "c"] ∧ g.IsRootedTree :=
  ⟨_, rfl, by decide, run_isRootedTree sampleCommands "h" _ rfl⟩

end Workspace

end NestedJoin
