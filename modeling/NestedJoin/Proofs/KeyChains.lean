import NestedJoin.Proofs.BuilderRuns
set_option autoImplicit false

/-!
# Key chains of grown graphs

The key chain of a joined table is its parent's chain followed by its own key columns, so
that the key of a node starts with the key of the node it hangs from.  Preparing a grown
graph stores for each of its vertices just that chain.

Main statements: `Graph.Grown.chainOf_child` and `Graph.Grown.isPrepared_prepare`.
-/

namespace NestedJoin

namespace Graph

/-! ## Climbing -/

/-- Edges that do not join an alias are passed over on the way up from it. -/
theorem climb_append_of_not_mem {es fs : List Edge} {a : String}
    (h : a ∉ es.map Edge.aliasName) : climb (es ++ fs) a = climb fs a := by
  induction es with
  | nil => rfl
  | cons e es ih =>
    rw [List.map_cons, List.mem_cons, not_or] at h
    rw [List.cons_append, climb, if_neg (fun q => h.1 q.symm), ih h.2]

theorem climb_of_not_mem {es : List Edge} {a : String} (h : a ∉ es.map Edge.aliasName) :
    climb es a = [a] := by
  have hc : climb (es ++ []) a = climb [] a := climb_append_of_not_mem h
  rwa [List.append_nil] at hc

/-- The way down to a joined alias is the way down to its parent and one step more. -/
theorem Coherent.climb_edge {g : Graph} (h : g.Coherent) {e : Edge} (he : e ∈ g.edges) :
    climb g.edges.reverse e.aliasName = climb g.edges.reverse e.parentAlias ++ [e.aliasName] := by
  obtain ⟨before, after, hs⟩ := List.append_of_mem he
  have hr : g.edges.reverse = after.reverse ++ e :: before.reverse := by
    rw [hs, List.reverse_append, List.reverse_cons, List.append_assoc, List.singleton_append]
  have hown' : e.aliasName ∉ after.reverse.map Edge.aliasName := by
    rw [List.map_reverse, List.mem_reverse]
    exact h.alias_notMem hs
  have hparent := h.parent_notMem hs
  rw [List.map_cons, List.mem_cons, not_or] at hparent
  have hparent' : e.parentAlias ∉ after.reverse.map Edge.aliasName := by
    rw [List.map_reverse, List.mem_reverse]
    exact hparent.2
  rw [hr, climb_append_of_not_mem hown', climb_append_of_not_mem hparent', climb, if_pos rfl,
    climb, if_neg (fun q => hparent.1 q.symm)]

theorem Coherent.climb_root {g : Graph} (h : g.Coherent) {r : Vertex} (hr : g.root = some r) :
    climb g.edges.reverse r.aliasName = [r.aliasName] := by
  apply climb_of_not_mem
  rw [List.map_reverse, List.mem_reverse]
  intro hm
  obtain ⟨e, he, hq⟩ := List.mem_map.1 hm
  exact h.root_ne_edge hr he hq

/-- Nothing on the way down to an alias was joined after it. -/
theorem Coherent.idxOf_le_of_mem_climb {g : Graph} (h : g.Coherent) {a b : String}
    (ha : a ∈ g.aliases) (hb : b ∈ climb g.edges.reverse a) :
    g.aliases.idxOf b ≤ g.aliases.idxOf a := by
  obtain ⟨p, hp⟩ := h.exists_path ha
  induction hp with
  | root hr =>
    rw [h.climb_root hr, List.mem_singleton] at hb
    exact Nat.le_of_eq (congrArg g.aliases.idxOf hb)
  | step hp he ih =>
    rw [h.climb_edge he, List.mem_append, List.mem_singleton] at hb
    rcases hb with hb | rfl
    · have hparent := h.isRootedTree.parent_first _ he
      exact Nat.le_trans (ih (h.parent_mem_aliases he) hb) (Nat.le_of_lt hparent)
    · exact Nat.le_refl _

/-! ## Chains -/

theorem Coherent.keyColumnsOf_eq {g : Graph} (h : g.Coherent) {v : Vertex} (hv : v ∈ g.vertices) :
    g.keyColumnsOf v.aliasName = v.table.keyColumns := by
  rw [keyColumnsOf, h.find?_eq_some hv]
  rfl

/-- The key columns on the way down to a joined alias are those on the way down to its parent and
then its own. -/
theorem Coherent.flatMap_climb_edge {g : Graph} (h : g.Coherent) {e : Edge} (he : e ∈ g.edges) :
    (climb g.edges.reverse e.aliasName).flatMap g.keyColumnsOf =
      (climb g.edges.reverse e.parentAlias).flatMap g.keyColumnsOf ++ e.child.table.keyColumns := by
  rw [h.climb_edge he, List.flatMap_append, List.flatMap_singleton]
  exact congrArg _ (h.keyColumnsOf_eq (h.child_mem he))

/-- The root is a vertex of the graph. -/
theorem Coherent.root_mem {g : Graph} (h : g.Coherent) {r : Vertex} (hr : g.root = some r) :
    r ∈ g.vertices := by
  rw [h.vertices_eq_cons hr]
  exact List.mem_cons_self

theorem Coherent.flatMap_climb_root {g : Graph} (h : g.Coherent) {r : Vertex}
    (hr : g.root = some r) :
    (climb g.edges.reverse r.aliasName).flatMap g.keyColumnsOf = r.table.keyColumns := by
  rw [h.climb_root hr, List.flatMap_singleton]
  exact h.keyColumnsOf_eq (h.root_mem hr)

/-- A vertex is the root or joined by an edge. -/
theorem Coherent.root_or_child {g : Graph} (h : g.Coherent) {v : Vertex} (hv : v ∈ g.vertices) :
    g.root = some v ∨ ∃ e ∈ g.edges, e.child = v := by
  rw [h.vertices_eq, List.mem_append, List.mem_map, Option.mem_toList] at hv
  exact hv

/-- The columns of a key chain are key columns of the graph's tables. -/
theorem exists_of_mem_chainOf {g : Graph} {v : Vertex} {c : String} (h : c ∈ g.chainOf v) :
    ∃ w ∈ g.vertices, c ∈ w.table.keyColumns := by
  obtain ⟨a, -, hc⟩ := List.mem_flatMap.1 h
  unfold keyColumnsOf at hc
  cases hw : g.find? a with
  | none =>
    rw [hw] at hc
    cases hc
  | some w =>
    rw [hw] at hc
    exact ⟨w, OrderedMap.mem_values_of_get? hw, hc⟩

namespace Grown

variable {g : Graph}

/-- The alias that an edge leads from is its parent's. -/
theorem chainOf_child (h : g.Grown) {e : Edge} (he : e ∈ g.edges) :
    g.chainOf e.child = g.chainOf e.parent ++ e.child.table.keyColumns :=
  h.coherent.flatMap_climb_edge he

theorem chainOf_root (h : g.Grown) {r : Vertex} (hr : g.root = some r) :
    g.chainOf r = r.table.keyColumns :=
  h.coherent.flatMap_climb_root hr

/-- The chain of a vertex ends with its own key columns. -/
theorem keyColumns_subset_chainOf (h : g.Grown) {v : Vertex} (hv : v ∈ g.vertices) :
    ∀ c ∈ v.table.keyColumns, c ∈ g.chainOf v := by
  intro c hc
  rcases h.coherent.root_or_child hv with hr | ⟨e, he, rfl⟩
  · rw [h.chainOf_root hr]
    exact hc
  · rw [h.chainOf_child he]
    exact List.mem_append_right _ hc

end Grown

/-! ## Preparing -/

/-- Storing chains for some vertices leaves that of a vertex with another number alone. -/
theorem chainOf_foldl_store_of_not_mem (chain : Vertex → List String) {vs : List Vertex}
    {chains : KeyChains} {w : Vertex} (h : w.serial ∉ vs.map Vertex.serial) :
    (vs.foldl (fun cs v => cs.store v (chain v)) chains).chainOf w = chains.chainOf w := by
  induction vs generalizing chains with
  | nil => rfl
  | cons v vs ih =>
    rw [List.map_cons, List.mem_cons, not_or] at h
    rw [List.foldl_cons, ih h.2, KeyChains.chainOf_store, if_neg h.1]

theorem chainOf_foldl_store (chain : Vertex → List String) {vs : List Vertex}
    {chains : KeyChains} {w : Vertex} (hn : (vs.map Vertex.serial).Nodup) (hw : w ∈ vs) :
    (vs.foldl (fun cs v => cs.store v (chain v)) chains).chainOf w = chain w := by
  induction vs generalizing chains with
  | nil => cases hw
  | cons v vs ih =>
    rw [List.map_cons, List.nodup_cons] at hn
    rw [List.foldl_cons]
    rcases List.mem_cons.1 hw with rfl | hw
    · rw [chainOf_foldl_store_of_not_mem chain hn.1, KeyChains.chainOf_store, if_pos rfl]
    · exact ih hn.2 hw

/-- The key chains hold for every vertex of a graph what the graph works out. -/
def IsPrepared (g : Graph) (chains : KeyChains) : Prop :=
  ∀ v ∈ g.vertices, chains.chainOf v = g.chainOf v

theorem Coherent.prepared_eq {g : Graph} (h : g.Coherent) (chains : KeyChains) :
    g.prepared chains = g.vertices.foldl (fun cs v => cs.store v (g.chainOf v)) chains := by
  cases hr : g.root with
  | none =>
    have hv : g.vertices = [] := List.map_eq_nil_iff.2 (h.eq_empty hr).1
    rw [prepared, prepare, hr, hv]
    rfl
  | some r =>
    rw [prepared, prepare, hr]
    rfl

/-- Preparing a graph whose vertices have different numbers stores the chain of every vertex. -/
theorem Coherent.isPrepared_prepared {g : Graph} (h : g.Coherent)
    (hn : (g.vertices.map Vertex.serial).Nodup) (chains : KeyChains) :
    g.IsPrepared (g.prepared chains) := by
  intro v hv
  rw [h.prepared_eq]
  exact chainOf_foldl_store g.chainOf hn hv

/-- Preparing a graph leaves the chains of other vertices. -/
theorem Coherent.chainOf_prepared_of_other {g : Graph} (h : g.Coherent) {v : Vertex}
    (hv : v.serial ∉ g.vertices.map Vertex.serial) (chains : KeyChains) :
    (g.prepared chains).chainOf v = chains.chainOf v := by
  rw [h.prepared_eq]
  exact chainOf_foldl_store_of_not_mem g.chainOf hv

theorem Grown.isPrepared_prepare {g : Graph} (h : g.Grown) {chains chains' : KeyChains}
    (hp : g.prepare chains = .ok chains') : g.IsPrepared chains' := by
  have hprepared := h.coherent.isPrepared_prepared h.serials_nodup chains
  rw [prepared, hp] at hprepared
  exact hprepared

/-- Preparing a grown graph never fails. -/
theorem Grown.exists_prepare {g : Graph} (h : g.Grown) (chains : KeyChains) :
    ∃ chains', g.prepare chains = .ok chains' := by
  have hr : g.root.isNone = false := by
    rw [Option.isNone_eq_false_iff]
    exact h.has_root
  simp [prepare, hr]

end Graph

end NestedJoin
