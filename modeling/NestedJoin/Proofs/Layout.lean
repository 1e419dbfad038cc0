import NestedJoin.Materialize
import NestedJoin.Proofs.BuilderRuns
set_option autoImplicit false

/-!
# Layouts of forests

A layout tells what a forest of a graph holds without fragments or references: the keys of
every vertex in order, the fields of every node, and for every edge the keys of the nodes
attached to a parent's node.  Filing a node and linking it to its parent change a forest as
`Layout.addNode` and `Layout.addChild` change its layout.

Main statements: `Layout.Describes.write` and `Layout.Describes.link`.
-/

namespace NestedJoin

namespace Edge

/-- What the container of an edge holds, given the keys of the attached nodes. -/
def contentOf (e : Edge) (ks : List NodeKey) : Content :=
  match e.kind with
  | .multiple => .many (ks.map fun k => ⟨e.aliasName, k⟩)
  | _ =>
    match ks.getLast? with
    | none => .data .null
    | some k => .one ⟨e.aliasName, k⟩

theorem contentOf_nil (e : Edge) : e.contentOf [] = e.emptyContent := by
  simp only [contentOf, emptyContent]
  cases e.kind <;> rfl

end Edge

/-- Attaching one more node to a container. -/
theorem Graph.attach_eq {e : Edge} (hk : e.kind = .single ∨ e.kind = .multiple)
    {fragment : Fragment} {ks : List NodeKey}
    (hc : fragment.get? e.container = some (e.contentOf ks)) (k : NodeKey) :
    Graph.attach e fragment ⟨e.aliasName, k⟩ =
      .ok (fragment.insert e.container (e.contentOf (ks ++ [k]))) := by
  rcases hk with hk | hk
  · simp [Graph.attach, Edge.contentOf, hk]
  · simp only [Edge.contentOf, hk] at hc
    simp [Graph.attach, hk, hc, Content.append, Edge.contentOf, Except.map]

/-- What a forest of a graph holds, in keys. -/
structure Layout where
  keys : Vertex → List NodeKey
  fields : Vertex → NodeKey → List (String × Value)
  /-- the keys attached to the node of a parent's key -/
  children : Edge → NodeKey → List NodeKey

namespace Layout

/-- What the fragment of a node holds. -/
def entries (l : Layout) (g : Graph) (v : Vertex) (k : NodeKey) : List (String × Content) :=
  (l.fields v k).map (fun p => (p.1, .data p.2)) ++
    (g.edgesInto v.aliasName).map fun e => (e.container, e.contentOf (l.children e k))

/-- A forest holds what a layout says. -/
structure Describes (l : Layout) (g : Graph) (f : Forest) : Prop where
  aliases_eq : f.nodes.keys = g.aliases
  keys_eq : ∀ v ∈ g.vertices, (f.nodesOf v.aliasName).keys = l.keys v
  entries_eq : ∀ v ∈ g.vertices, ∀ k fragment,
    f.fragment? ⟨v.aliasName, k⟩ = some fragment → fragment.entries = l.entries g v k
  mem_links_iff : ∀ e ∈ g.edges, ∀ k k',
    ⟨⟨e.parentAlias, k⟩, e.container, k'⟩ ∈ f.links ↔ k ∈ l.keys e.parent ∧ k' ∈ l.children e k

/-- Two layouts say the same of the nodes they have. -/
structure Agrees (l m : Layout) (g : Graph) : Prop where
  keys_eq : ∀ v ∈ g.vertices, l.keys v = m.keys v
  fields_eq : ∀ v ∈ g.vertices, ∀ k ∈ l.keys v, l.fields v k = m.fields v k
  children_eq : ∀ e ∈ g.edges, ∀ k ∈ l.keys e.parent, l.children e k = m.children e k

/-- The layout with one more node. -/
def addNode (l : Layout) (v : Vertex) (k : NodeKey) (fields : List (String × Value)) : Layout :=
  { l with
    keys := fun w => if w.aliasName = v.aliasName then l.keys w ++ [k] else l.keys w
    fields := fun w k' => if w.aliasName = v.aliasName ∧ k' = k then fields else l.fields w k' }

/-- The layout with one more node attached to a parent's. -/
def addChild (l : Layout) (e : Edge) (parent child : NodeKey) : Layout :=
  { l with
    children := fun e' k =>
      if e'.aliasName = e.aliasName ∧ k = parent then l.children e' k ++ [child]
      else l.children e' k }

/-! ## Nodes -/

/-- The nodes of a forest are those that a layout has keys for. -/
structure NodesIn (l : Layout) (g : Graph) (f : Forest) : Prop where
  aliases_eq : f.nodes.keys = g.aliases
  keys_eq : ∀ v ∈ g.vertices, (f.nodesOf v.aliasName).keys = l.keys v

namespace NodesIn

variable {l : Layout} {g : Graph} {f : Forest} {v : Vertex} {k : NodeKey}

theorem mem_keys_iff (h : l.NodesIn g f) (hv : v ∈ g.vertices) :
    k ∈ l.keys v ↔ ∃ fragment, f.fragment? ⟨v.aliasName, k⟩ = some fragment := by
  rw [← h.keys_eq v hv, ← OrderedMap.contains_iff_mem_keys, OrderedMap.contains,
    Option.isSome_iff_exists]
  rfl

theorem fragment?_eq_none (h : l.NodesIn g f) (hv : v ∈ g.vertices) (hk : k ∉ l.keys v) :
    f.fragment? ⟨v.aliasName, k⟩ = none := by
  rw [h.mem_keys_iff hv, not_exists] at hk
  exact Option.eq_none_iff_forall_ne_some.2 hk

theorem congr {m : Layout} (h : l.NodesIn g f) (ha : l.Agrees m g) : m.NodesIn g f where
  aliases_eq := h.aliases_eq
  keys_eq := by
    intro v hv
    rw [h.keys_eq v hv, ha.keys_eq v hv]

/-- A write into an alias of the graph adds no alias. -/
theorem aliases_write (h : l.NodesIn g f) (hg : g.Grown) (hv : v ∈ g.vertices)
    (fragment : Fragment) : (f.write ⟨v.aliasName, k⟩ fragment).nodes.keys = g.aliases := by
  have hm : v.aliasName ∈ f.nodes.keys := by
    rw [h.aliases_eq]
    exact hg.coherent.alias_mem hv
  show (f.nodes.insert v.aliasName _).keys = g.aliases
  rw [OrderedMap.keys_insert, if_pos hm, h.aliases_eq]

/-- Filing a node. -/
theorem addNode (h : l.NodesIn g f) (hg : g.Grown) (hv : v ∈ g.vertices) (hk : k ∉ l.keys v)
    (fields : List (String × Value)) (fragment : Fragment) :
    (l.addNode v k fields).NodesIn g (f.write ⟨v.aliasName, k⟩ fragment) where
  aliases_eq := h.aliases_write hg hv fragment
  keys_eq := by
    intro w hw
    rw [Forest.nodesOf_write]
    simp only [Layout.addNode]
    split
    · next ha =>
      obtain rfl := hg.coherent.eq_of_aliasName hw hv ha
      rw [OrderedMap.keys_insert, h.keys_eq w hw, if_neg hk]
    · exact h.keys_eq w hw

/-- Replacing the fragment of a node. -/
theorem write (h : l.NodesIn g f) (hg : g.Grown) (hv : v ∈ g.vertices) (hk : k ∈ l.keys v)
    (fragment : Fragment) : l.NodesIn g (f.write ⟨v.aliasName, k⟩ fragment) where
  aliases_eq := h.aliases_write hg hv fragment
  keys_eq := by
    intro w hw
    rw [Forest.nodesOf_write]
    split
    · next ha =>
      obtain rfl := hg.coherent.eq_of_aliasName hw hv ha
      rw [OrderedMap.keys_insert, h.keys_eq w hw, if_pos hk]
    · exact h.keys_eq w hw

end NodesIn

/-! ## Links -/

/-- Under a new node nothing hangs that did not hang there before. -/
theorem mem_children_addNode_iff {l : Layout} {g : Graph} (hg : g.Grown) {v : Vertex}
    (hv : v ∈ g.vertices) {k : NodeKey}
    (hc : ∀ e ∈ g.edges, e.parent = v → l.children e k = []) (fields : List (String × Value))
    {e : Edge} (he : e ∈ g.edges) (k₀ k' : NodeKey) :
    k₀ ∈ (l.addNode v k fields).keys e.parent ∧ k' ∈ (l.addNode v k fields).children e k₀ ↔
      k₀ ∈ l.keys e.parent ∧ k' ∈ l.children e k₀ := by
  simp only [addNode]
  split
  · next ha =>
    have hp := hg.coherent.eq_of_aliasName (hg.parent_mem he) hv ha
    have hnone : k₀ = k → k' ∉ l.children e k₀ := by
      rintro rfl hm
      rw [hc e he hp] at hm
      cases hm
    rw [List.mem_append, List.mem_singleton, or_and_right]
    exact ⟨fun q => q.resolve_right fun r => hnone r.1 r.2, Or.inl⟩
  · exact Iff.rfl

/-- A new link is a link of its own edge, unless another edge shares the container. -/
theorem mem_links_addChild_iff {l : Layout} {g : Graph} (hg : g.Grown) {links : List Link}
    {e e' : Edge} (he : e ∈ g.edges) (he' : e' ∈ g.edges) {parent child : NodeKey}
    (hp : parent ∈ l.keys e.parent)
    (hapart : e'.parentAlias = e.parentAlias → e'.container = e.container →
      e'.aliasName = e.aliasName) {k k' : NodeKey}
    (hlinks : ⟨⟨e'.parentAlias, k⟩, e'.container, k'⟩ ∈ links ↔
      k ∈ l.keys e'.parent ∧ k' ∈ l.children e' k) :
    ⟨⟨e'.parentAlias, k⟩, e'.container, k'⟩ ∈
        links ++ [⟨⟨e.parentAlias, parent⟩, e.container, child⟩] ↔
      k ∈ (l.addChild e parent child).keys e'.parent ∧
        k' ∈ (l.addChild e parent child).children e' k := by
  rw [List.mem_append, hlinks, List.mem_singleton]
  by_cases hsame : e'.aliasName = e.aliasName
  · obtain rfl := hg.coherent.edge_unique he' he hsame
    by_cases hk : k = parent
    · subst hk
      simp [addChild, hp]
    · simp [addChild, hk]
  · have hother : ¬((⟨⟨e'.parentAlias, k⟩, e'.container, k'⟩ : Link) =
        ⟨⟨e.parentAlias, parent⟩, e.container, child⟩) := by
      intro hq
      obtain ⟨hr, hcontainer, -⟩ := Link.mk.inj hq
      exact hsame (hapart (NodeRef.mk.inj hr).1 hcontainer)
    simp only [addChild, hsame, false_and, if_false, or_iff_left hother]

/-! ## Described forests -/

namespace Describes

variable {l : Layout} {g : Graph} {f : Forest}

theorem nodesIn (h : l.Describes g f) : l.NodesIn g f := ⟨h.aliases_eq, h.keys_eq⟩

theorem mem_keys_iff (h : l.Describes g f) {v : Vertex} (hv : v ∈ g.vertices) {k : NodeKey} :
    k ∈ l.keys v ↔ ∃ fragment, f.fragment? ⟨v.aliasName, k⟩ = some fragment :=
  h.nodesIn.mem_keys_iff hv

theorem fragment?_eq_none (h : l.Describes g f) {v : Vertex} (hv : v ∈ g.vertices) {k : NodeKey}
    (hk : k ∉ l.keys v) : f.fragment? ⟨v.aliasName, k⟩ = none :=
  h.nodesIn.fragment?_eq_none hv hk

/-- A forest is described as well by a layout that says the same. -/
theorem congr {m : Layout} (h : l.Describes g f) (hg : g.Grown) (ha : l.Agrees m g) :
    m.Describes g f where
  aliases_eq := h.aliases_eq
  keys_eq := (h.nodesIn.congr ha).keys_eq
  entries_eq := by
    intro v hv k fragment hf
    have hk : k ∈ l.keys v := (h.mem_keys_iff hv).2 ⟨fragment, hf⟩
    rw [h.entries_eq v hv k fragment hf, entries, entries, ha.fields_eq v hv k hk]
    congr 1
    refine List.map_congr_left fun e he => ?_
    obtain ⟨hmem, hp⟩ := (hg.mem_edgesInto_iff hv).1 he
    rw [ha.children_eq e hmem k (by rwa [hp])]
  mem_links_iff := by
    intro e he k k'
    rw [h.mem_links_iff e he, ← ha.keys_eq e.parent (hg.parent_mem he)]
    refine and_congr_right fun hk => ?_
    rw [ha.children_eq e he k hk]

/-- Filing a node that nothing hangs from yet. -/
theorem write (h : l.Describes g f) (hg : g.Grown) {v : Vertex} (hv : v ∈ g.vertices)
    {k : NodeKey} (hk : k ∉ l.keys v) (hc : ∀ e ∈ g.edges, e.parent = v → l.children e k = [])
    {fragment : Fragment} {fields : List (String × Value)}
    (hf : fragment.entries = fields.map (fun p => (p.1, .data p.2)) ++
      (g.edgesInto v.aliasName).map fun e => (e.container, e.emptyContent)) :
    (l.addNode v k fields).Describes g (f.write ⟨v.aliasName, k⟩ fragment) where
  aliases_eq := h.nodesIn.aliases_write hg hv fragment
  keys_eq := (h.nodesIn.addNode hg hv hk fields fragment).keys_eq
  entries_eq := by
    intro w hw k' fragment' hf'
    rw [Forest.fragment?_write] at hf'
    split at hf'
    · next hr =>
      obtain ⟨ha, rfl⟩ := NodeRef.mk.inj hr
      obtain rfl := hg.coherent.eq_of_aliasName hw hv ha
      obtain rfl := Option.some.inj hf'
      rw [hf, entries]
      simp only [addNode, and_self, if_true]
      congr 1
      refine List.map_congr_left fun e he => ?_
      obtain ⟨hmem, hp⟩ := (hg.mem_edgesInto_iff hw).1 he
      rw [hc e hmem hp, Edge.contentOf_nil]
    · next hr =>
      have hne : ¬(w.aliasName = v.aliasName ∧ k' = k) := by
        rintro ⟨ha, rfl⟩
        exact hr (by rw [ha])
      rw [h.entries_eq w hw k' fragment' hf', entries, entries]
      simp only [addNode, if_neg hne]
  mem_links_iff := by
    intro e he k₀ k'
    rw [mem_children_addNode_iff hg hv hc fields he]
    exact h.mem_links_iff e he k₀ k'

/-- The containers of a vertex have different names wherever it has a node. -/
theorem containers_nodup (h : l.Describes g f) {v : Vertex} (hv : v ∈ g.vertices) {k : NodeKey}
    (hk : k ∈ l.keys v) : ((g.edgesInto v.aliasName).map Edge.container).Nodup := by
  obtain ⟨fragment, hf⟩ := (h.mem_keys_iff hv).1 hk
  have hn := fragment.nodup_keys
  rw [h.entries_eq v hv k fragment hf, entries, List.map_append, List.nodup_append] at hn
  have hnames := hn.2.1
  rw [List.map_map] at hnames
  exact hnames

end Describes

/-- Attaching a node changes one container of one fragment. -/
theorem entries_addChild {l : Layout} {g : Graph} (hg : g.Grown) {e : Edge} (he : e ∈ g.edges)
    (parent child : NodeKey) :
    ∃ before after,
      l.entries g e.parent parent =
        before ++ (e.container, e.contentOf (l.children e parent)) :: after ∧
      (l.addChild e parent child).entries g e.parent parent =
        before ++ (e.container, e.contentOf (l.children e parent ++ [child])) :: after := by
  have hinto : e ∈ g.edgesInto e.parent.aliasName :=
    (hg.mem_edgesInto_iff (hg.parent_mem he)).2 ⟨he, rfl⟩
  obtain ⟨before, after, hsplit⟩ := List.append_of_mem hinto
  have hsub : ((g.edgesInto e.parent.aliasName).map Edge.aliasName).Nodup := by
    rw [hg.coherent.edgesInto_eq]
    exact hg.coherent.edge_aliases_nodup.sublist (List.filter_sublist.map _)
  rw [hsplit, List.map_append, List.map_cons, List.nodup_append, List.nodup_cons] at hsub
  let content (e' : Edge) : String × Content :=
    (e'.container, e'.contentOf (l.children e' parent))
  have hkeep : ∀ e' : Edge, e'.aliasName ≠ e.aliasName →
      (e'.container, e'.contentOf ((l.addChild e parent child).children e' parent)) =
        content e' := by
    intro e' hne
    simp only [addChild, hne, false_and, if_false, content]
  have hbefore : ∀ e' ∈ before, e'.aliasName ≠ e.aliasName := fun e' hm =>
    hsub.2.2 _ (List.mem_map_of_mem hm) _ List.mem_cons_self
  have hafter : ∀ e' ∈ after, e'.aliasName ≠ e.aliasName := by
    intro e' hm hq
    exact hsub.2.1.1 (hq ▸ List.mem_map_of_mem hm)
  refine ⟨(l.fields e.parent parent).map (fun p => (p.1, .data p.2)) ++ before.map content,
    after.map content, ?_, ?_⟩
  · rw [entries, hsplit, List.map_append, List.map_cons, List.append_assoc]
  · rw [entries, hsplit, List.map_append, List.map_cons,
      List.map_congr_left fun e' hm => hkeep e' (hbefore e' hm),
      List.map_congr_left fun e' hm => hkeep e' (hafter e' hm), ← List.append_assoc]
    simp only [addChild, and_self, if_true]

/-- Attaching a node leaves the fragments of all other nodes alone. -/
theorem entries_addChild_of_ne {l : Layout} {g : Graph} (hg : g.Grown) {e : Edge}
    (he : e ∈ g.edges) {v : Vertex} (hv : v ∈ g.vertices) {k parent : NodeKey} (child : NodeKey)
    (hne : ¬(v = e.parent ∧ k = parent)) :
    (l.addChild e parent child).entries g v k = l.entries g v k := by
  rw [entries, entries]
  congr 1
  refine List.map_congr_left fun e' he' => ?_
  obtain ⟨hmem, hp⟩ := (hg.mem_edgesInto_iff hv).1 he'
  have hother : ¬(e'.aliasName = e.aliasName ∧ k = parent) := by
    rintro ⟨ha, hk⟩
    obtain rfl := hg.coherent.edge_unique hmem he ha
    exact hne ⟨hp.symm, hk⟩
  simp only [addChild, if_neg hother]

namespace Describes

variable {l : Layout} {g : Graph} {f : Forest}

/-- Attaching a node to the node of a parent. -/
theorem link (h : l.Describes g f) (hg : g.Grown) {e : Edge} (he : e ∈ g.edges)
    {parent child : NodeKey} (hp : parent ∈ l.keys e.parent)
    (hc : child ∉ l.children e parent) :
    ∃ f', Graph.link e f ⟨e.parentAlias, parent⟩ ⟨e.aliasName, child⟩ = .ok f' ∧
      (l.addChild e parent child).Describes g f' := by
  have hv := hg.parent_mem he
  obtain ⟨fragment, hf⟩ := (h.mem_keys_iff hv).1 hp
  obtain ⟨before, after, hold, hnew⟩ := entries_addChild (l := l) hg he parent child
  rw [← h.entries_eq e.parent hv parent fragment hf] at hold
  have hget : fragment.get? e.container = some (e.contentOf (l.children e parent)) := by
    rw [OrderedMap.get?_eq_some_iff, hold]
    exact List.mem_append_right _ List.mem_cons_self
  have htoken : (⟨⟨e.parentAlias, parent⟩, e.container, child⟩ : Link) ∉ f.links := by
    rw [h.mem_links_iff e he]
    exact fun q => hc q.2
  let fragment' := fragment.insert e.container (e.contentOf (l.children e parent ++ [child]))
  refine ⟨{ f.write ⟨e.parentAlias, parent⟩ fragment' with
    links := f.links ++ [⟨⟨e.parentAlias, parent⟩, e.container, child⟩] }, ?_, ?_⟩
  · rw [Graph.link, show f.fragment? ⟨e.parentAlias, parent⟩ = some fragment from hf]
    simp only [if_neg htoken]
    rw [Graph.attach_eq (hg.kind_eq e he) hget]
    rfl
  · have hnodes := h.nodesIn.write hg hv hp fragment'
    constructor
    · exact hnodes.aliases_eq
    · exact hnodes.keys_eq
    · intro w hw k fragment₀ hf₀
      change (f.write ⟨e.parentAlias, parent⟩ fragment').fragment? _ = _ at hf₀
      rw [Forest.fragment?_write] at hf₀
      split at hf₀
      · next hr =>
        obtain ⟨ha, rfl⟩ := NodeRef.mk.inj hr
        obtain rfl := hg.coherent.eq_of_aliasName hw hv ha
        obtain rfl := Option.some.inj hf₀
        rw [hnew]
        exact OrderedMap.entries_insert_of_split hold _
      · next hr =>
        rw [h.entries_eq w hw k fragment₀ hf₀, entries_addChild_of_ne hg he hw]
        rintro ⟨rfl, rfl⟩
        exact hr rfl
    · intro e' he' k k'
      refine mem_links_addChild_iff hg he he' hp (fun hparents hcontainer => ?_)
        (h.mem_links_iff e' he' k k')
      have hparent := hg.coherent.eq_of_aliasName (hg.parent_mem he') hv hparents
      have hm := (hg.mem_edgesInto_iff hv).2 ⟨he', hparent⟩
      have hm' := (hg.mem_edgesInto_iff hv).2 ⟨he, rfl⟩
      have hdistinct := h.containers_nodup hv hp
      exact congrArg Edge.aliasName (List.inj_on_of_nodup_map hdistinct hm hm' hcontainer)

end Describes

end Layout

end NestedJoin
