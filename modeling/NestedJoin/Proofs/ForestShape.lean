import NestedJoin.Proofs.Materializing
import NestedJoin.Proofs.Retention
set_option autoImplicit false

/-!
# The shape of forests

Rows are folded showing by showing: one row to one vertex at a time.  Between any two showings the
nodes, the containers that refer to them and the links that are noted say the same: a node hangs
from the node whose key its own begins with, in one place and once, and it is linked exactly if that
node exists.

Main statements: `Layout.Describes.isForestOf`, which reads the shape off a layout, and
`Session.isForestOf_showings`.
-/

namespace NestedJoin

/-! ## Nodes and slots -/

namespace Edge

/-- A list holds all attached nodes. -/
theorem contentOf_multiple {e : Edge} (hk : e.kind = .multiple) (ks : List NodeKey) :
    e.contentOf ks = .many (ks.map fun k => ⟨e.aliasName, k⟩) := by
  rw [contentOf, hk]

/-- A single container holds nothing or the node that was attached last. -/
theorem contentOf_single {e : Edge} (hk : e.kind = .single) (ks : List NodeKey) :
    (ks = [] ∧ e.contentOf ks = .data .null) ∨
      ∃ k ∈ ks, e.contentOf ks = .one ⟨e.aliasName, k⟩ := by
  rw [contentOf, hk]
  rcases List.eq_nil_or_concat ks with rfl | ⟨rest, k, rfl⟩
  · exact Or.inl ⟨rfl, rfl⟩
  · refine Or.inr ⟨k, by simp, ?_⟩
    simp only [List.concat_eq_append, List.getLast?_concat]

/-- A container refers to attached nodes, and to none of them twice. -/
theorem refs_contentOf {e : Edge} (hk : e.kind = .single ∨ e.kind = .multiple)
    {ks : List NodeKey} (hn : ks.Nodup) :
    (e.contentOf ks).refs.Nodup ∧
      ∀ r ∈ (e.contentOf ks).refs, r.aliasName = e.aliasName ∧ r.key ∈ ks := by
  rcases hk with hk | hk
  · obtain ⟨-, hc⟩ | ⟨k, hmem, hc⟩ := contentOf_single hk ks
    · rw [hc]
      exact ⟨List.nodup_nil, fun r hr => absurd hr List.not_mem_nil⟩
    · rw [hc]
      refine ⟨List.nodup_singleton _, fun r hr => ?_⟩
      rw [List.mem_singleton.1 hr]
      exact ⟨rfl, hmem⟩
  · rw [contentOf_multiple hk]
    refine ⟨hn.map fun k k' h => (NodeRef.mk.inj h).2, fun r hr => ?_⟩
    obtain ⟨k, hmem, rfl⟩ := List.mem_map.1 hr
    exact ⟨rfl, hmem⟩

end Edge

namespace Forest

/-- A node is filed. -/
def Has (f : Forest) (r : NodeRef) : Prop := (f.fragment? r).isSome = true

/-- What a node holds under a name. -/
def slot? (f : Forest) (p : NodeRef) (name : String) : Option Content :=
  (f.fragment? p).bind fun fragment => fragment.get? name

/-- The nodes that a node refers to under a name. -/
def held (f : Forest) (p : NodeRef) (name : String) : List NodeRef :=
  ((f.slot? p name).map Content.refs).getD []

theorem slot?_of_mem_held {f : Forest} {p r : NodeRef} {name : String} (h : r ∈ f.held p name) :
    ∃ fragment content, f.fragment? p = some fragment ∧ fragment.get? name = some content ∧
      f.held p name = content.refs := by
  unfold held at h ⊢
  cases hs : f.slot? p name with
  | none =>
    rw [hs] at h
    cases h
  | some content =>
    obtain ⟨fragment, hf, hget⟩ := Option.bind_eq_some_iff.1 hs
    exact ⟨fragment, content, hf, hget, rfl⟩

end Forest

namespace Graph

/-- The node that a node joined through an edge hangs from, by the key of the latter. -/
def parentRef (g : Graph) (e : Edge) (key : NodeKey) : NodeRef :=
  ⟨e.parentAlias, key.take (g.chainOf e.parent).length⟩

end Graph

/-- The nodes, containers and links of a forest make the shape that a graph gives them. -/
structure Forest.IsForestOf (f : Forest) (g : Graph) : Prop where
  /-- the keys of the nodes of an alias are different -/
  keys_nodup : ∀ a, (f.nodesOf a).keys.Nodup
  /-- no slot refers to a node twice -/
  held_nodup : ∀ p name, (f.held p name).Nodup
  /-- no two slots refer to one node -/
  slot_unique : ∀ r p name p' name', r ∈ f.held p name → r ∈ f.held p' name' →
    p' = p ∧ name' = name
  /-- the slot that refers to a node is the container of its edge, in the parent whose key the
  node's key begins with -/
  slot_eq : ∀ r p name, r ∈ f.held p name → f.Has r ∧ f.Has p ∧ p.key <+: r.key ∧
    ∃ e ∈ g.edges, r.aliasName = e.aliasName ∧ name = e.container ∧ p = g.parentRef e r.key
  /-- a joined node has a link exactly if its parent exists -/
  linked_iff : ∀ e ∈ g.edges, ∀ k, f.Has ⟨e.aliasName, k⟩ →
    ((∃ p, p.aliasName = e.parentAlias ∧ ⟨p, e.container, k⟩ ∈ f.links) ↔ f.Has (g.parentRef e k))
  /-- every link is one of a joined node, and leads to its parent -/
  link_eq : ∀ l ∈ f.links, ∃ e ∈ g.edges, f.Has ⟨e.aliasName, l.key⟩ ∧
    l = ⟨g.parentRef e l.key, e.container, l.key⟩
  /-- the links of a parent into a list are the keys of the items -/
  items_iff : ∀ e ∈ g.edges, e.kind = .multiple → ∀ k, f.Has ⟨e.parentAlias, k⟩ →
    ∃ ks : List NodeKey,
      f.slot? ⟨e.parentAlias, k⟩ e.container = some (.many (ks.map fun k' => ⟨e.aliasName, k'⟩)) ∧
      ∀ k', ⟨⟨e.parentAlias, k⟩, e.container, k'⟩ ∈ f.links ↔ k' ∈ ks
  /-- a single container is empty exactly if the parent has no link into it -/
  empty_iff : ∀ e ∈ g.edges, e.kind = .single → ∀ k, f.Has ⟨e.parentAlias, k⟩ →
    (f.slot? ⟨e.parentAlias, k⟩ e.container = some (.data .null) ↔
      ∀ k', ⟨⟨e.parentAlias, k⟩, e.container, k'⟩ ∉ f.links)
  /-- a single container that is not empty holds a linked node -/
  single_linked : ∀ e ∈ g.edges, e.kind = .single → ∀ k k',
    ⟨⟨e.parentAlias, k⟩, e.container, k'⟩ ∈ f.links →
      ∃ child, f.slot? ⟨e.parentAlias, k⟩ e.container = some (.one ⟨e.aliasName, child⟩) ∧
        ⟨⟨e.parentAlias, k⟩, e.container, child⟩ ∈ f.links

/-! ## Layouts of this shape -/

namespace Layout

/-- The nodes attached to another one are those whose keys begin with its key. -/
structure Nests (l : Layout) (g : Graph) : Prop where
  keys_length : ∀ v ∈ g.vertices, ∀ k ∈ l.keys v, k.length = (g.chainOf v).length
  mem_children_iff : ∀ e ∈ g.edges, ∀ k ∈ l.keys e.parent, ∀ k',
    k' ∈ l.children e k ↔ k' ∈ l.keys e.child ∧ k <+: k'
  children_nodup : ∀ e ∈ g.edges, ∀ k, (l.children e k).Nodup

variable {l : Layout} {g : Graph} {f : Forest} {e : Edge} {k k' : NodeKey}

/-- A node is attached to its parent. -/
theorem Nests.parentRef_eq (hl : l.Nests g) (hg : g.Grown) (he : e ∈ g.edges)
    (hk : k ∈ l.keys e.parent) (hk' : k' ∈ l.children e k) :
    g.parentRef e k' = ⟨e.parentAlias, k⟩ := by
  have hprefix := ((hl.mem_children_iff e he k hk k').1 hk').2
  rw [Graph.parentRef, ← hl.keys_length e.parent (hg.parent_mem he) k hk,
    ← List.prefix_iff_eq_take.1 hprefix]

namespace Describes

theorem has_iff (h : l.Describes g f) {v : Vertex} (hv : v ∈ g.vertices) :
    f.Has ⟨v.aliasName, k⟩ ↔ k ∈ l.keys v := by
  rw [h.mem_keys_iff hv, Forest.Has, Option.isSome_iff_exists]

theorem has_parent_iff (h : l.Describes g f) (hg : g.Grown) (he : e ∈ g.edges) :
    f.Has ⟨e.parentAlias, k⟩ ↔ k ∈ l.keys e.parent :=
  h.has_iff (hg.parent_mem he)

theorem has_child_iff (h : l.Describes g f) (hg : g.Grown) (he : e ∈ g.edges) :
    f.Has ⟨e.aliasName, k⟩ ↔ k ∈ l.keys e.child :=
  h.has_iff (hg.coherent.child_mem he)

/-- A node belongs to a vertex of the graph. -/
theorem exists_vertex (h : l.Describes g f) (hg : g.Grown) {r : NodeRef} (hr : f.Has r) :
    ∃ v ∈ g.vertices, r = ⟨v.aliasName, r.key⟩ := by
  have hm : r.aliasName ∈ g.aliases := by
    rw [← h.aliases_eq, ← OrderedMap.contains_iff_mem_keys, OrderedMap.contains]
    cases hnodes : f.nodes.get? r.aliasName with
    | some m => rfl
    | none =>
      rw [Forest.Has, Forest.fragment?, Forest.nodesOf, hnodes] at hr
      cases hr
  rw [hg.coherent.aliases_eq] at hm
  obtain ⟨v, hv, ha⟩ := List.mem_map.1 hm
  exact ⟨v, hv, by rw [ha]⟩

/-- What the node of a parent holds for an edge. -/
theorem slot?_eq (h : l.Describes g f) (hg : g.Grown) (he : e ∈ g.edges)
    (hk : k ∈ l.keys e.parent) :
    f.slot? ⟨e.parentAlias, k⟩ e.container = some (e.contentOf (l.children e k)) := by
  have hv := hg.parent_mem he
  obtain ⟨fragment, hf⟩ := (h.mem_keys_iff hv).1 hk
  have hinto : e ∈ g.edgesInto e.parent.aliasName := (hg.mem_edgesInto_iff hv).2 ⟨he, rfl⟩
  have hmem : (e.container, e.contentOf (l.children e k)) ∈ l.entries g e.parent k :=
    List.mem_append_right _ (List.mem_map_of_mem hinto)
  rw [← h.entries_eq e.parent hv k fragment hf] at hmem
  rw [Forest.slot?, show f.fragment? ⟨e.parentAlias, k⟩ = some fragment from hf, Option.bind_some]
  exact OrderedMap.get?_eq_some_iff.2 hmem

/-- Whatever refers to a node is the container of an edge. -/
theorem of_mem_held (h : l.Describes g f) (hg : g.Grown) {p r : NodeRef} {name : String}
    (hr : r ∈ f.held p name) :
    ∃ e ∈ g.edges, ∃ k ∈ l.keys e.parent, p = ⟨e.parentAlias, k⟩ ∧ name = e.container ∧
      f.held p name = (e.contentOf (l.children e k)).refs := by
  obtain ⟨fragment, content, hf, hget, hheld⟩ := Forest.slot?_of_mem_held hr
  obtain ⟨v, hv, hp⟩ := h.exists_vertex hg (Option.isSome_iff_exists.2 ⟨fragment, hf⟩)
  rw [hp] at hf
  have hmem := OrderedMap.get?_eq_some_iff.1 hget
  rw [h.entries_eq v hv p.key fragment hf, entries, List.mem_append] at hmem
  rcases hmem with hmem | hmem
  · -- a field refers to nothing
    obtain ⟨field, -, hq⟩ := List.mem_map.1 hmem
    obtain rfl : Content.data field.2 = content := congrArg Prod.snd hq
    rw [hheld] at hr
    cases hr
  · obtain ⟨e, hinto, hq⟩ := List.mem_map.1 hmem
    obtain ⟨rfl, rfl⟩ := Prod.mk.inj hq
    obtain ⟨he, rfl⟩ := (hg.mem_edgesInto_iff hv).1 hinto
    exact ⟨e, he, p.key, (h.mem_keys_iff hv).2 ⟨fragment, hf⟩, hp, rfl, hheld⟩

/-- The slot that refers to a node. -/
theorem slot_eq (h : l.Describes g f) (hl : l.Nests g) (hg : g.Grown) {p r : NodeRef}
    {name : String} (hr : r ∈ f.held p name) :
    f.Has r ∧ f.Has p ∧ p.key <+: r.key ∧
      ∃ e ∈ g.edges, r.aliasName = e.aliasName ∧ name = e.container ∧ p = g.parentRef e r.key := by
  obtain ⟨e, he, k, hk, rfl, rfl, hheld⟩ := h.of_mem_held hg hr
  rw [hheld] at hr
  obtain ⟨halias, hkey⟩ := (e.refs_contentOf (hg.kind_eq e he) (hl.children_nodup e he k)).2 r hr
  obtain ⟨hchild, hprefix⟩ := (hl.mem_children_iff e he k hk r.key).1 hkey
  refine ⟨?_, (h.has_parent_iff hg he).2 hk, hprefix, e, he, halias, rfl, ?_⟩
  · have hhas := (h.has_child_iff hg he).2 hchild
    rwa [← halias] at hhas
  · exact (hl.parentRef_eq hg he hk hkey).symm

theorem linked_iff (h : l.Describes g f) (hl : l.Nests g) (hg : g.Grown) (he : e ∈ g.edges)
    (hk : f.Has ⟨e.aliasName, k⟩) :
    (∃ p, p.aliasName = e.parentAlias ∧ ⟨p, e.container, k⟩ ∈ f.links) ↔
      f.Has (g.parentRef e k) := by
  constructor
  · rintro ⟨⟨a, key⟩, ha, hm⟩
    obtain rfl : a = e.parentAlias := ha
    obtain ⟨hkey, hchild⟩ := (h.mem_links_iff e he key k).1 hm
    rw [hl.parentRef_eq hg he hkey hchild]
    exact (h.has_parent_iff hg he).2 hkey
  · intro hparent
    have hkey := (h.has_parent_iff hg he).1 hparent
    have hchild := (h.has_child_iff hg he).1 hk
    refine ⟨g.parentRef e k, rfl, (h.mem_links_iff e he _ k).2 ⟨hkey, ?_⟩⟩
    exact (hl.mem_children_iff e he _ hkey k).2 ⟨hchild, List.take_prefix _ k⟩

/-- A forest whose links are all made along edges has the shape that its layout has. -/
theorem isForestOf (h : l.Describes g f) (hl : l.Nests g) (hg : g.Grown)
    (hlinks : ∀ link ∈ f.links, ∃ e ∈ g.edges,
      link.parent.aliasName = e.parentAlias ∧ link.container = e.container) : f.IsForestOf g where
  keys_nodup a := (f.nodesOf a).keys_nodup
  held_nodup p name := by
    cases hheld : f.held p name with
    | nil => exact List.nodup_nil
    | cons r rs =>
      have hr : r ∈ f.held p name := by
        rw [hheld]
        exact List.mem_cons_self
      obtain ⟨e, he, k, -, -, -, hrefs⟩ := h.of_mem_held hg hr
      rw [← hheld, hrefs]
      exact (e.refs_contentOf (hg.kind_eq e he) (hl.children_nodup e he k)).1
  slot_unique r p name p' name' hr hr' := by
    obtain ⟨-, -, -, e, he, halias, rfl, rfl⟩ := h.slot_eq hl hg hr
    obtain ⟨-, -, -, e', he', halias', rfl, rfl⟩ := h.slot_eq hl hg hr'
    obtain rfl := hg.coherent.edge_unique he he' (halias.symm.trans halias')
    exact ⟨rfl, rfl⟩
  slot_eq _ _ _ hr := h.slot_eq hl hg hr
  linked_iff _ he _ hk := h.linked_iff hl hg he hk
  link_eq link hm := by
    obtain ⟨e, he, hparent, hcontainer⟩ := hlinks link hm
    obtain ⟨⟨a, k⟩, container, k'⟩ := link
    obtain rfl : a = e.parentAlias := hparent
    obtain rfl : container = e.container := hcontainer
    obtain ⟨hk, hk'⟩ := (h.mem_links_iff e he k k').1 hm
    refine ⟨e, he, (h.has_child_iff hg he).2 ((hl.mem_children_iff e he k hk k').1 hk').1, ?_⟩
    rw [hl.parentRef_eq hg he hk hk']
  items_iff e he hkind k hk := by
    have hkey := (h.has_parent_iff hg he).1 hk
    refine ⟨l.children e k, ?_, fun k' => ?_⟩
    · rw [h.slot?_eq hg he hkey, e.contentOf_multiple hkind]
    · rw [h.mem_links_iff e he]
      exact and_iff_right hkey
  empty_iff e he hkind k hk := by
    have hkey := (h.has_parent_iff hg he).1 hk
    have hlinks : ∀ k', ⟨⟨e.parentAlias, k⟩, e.container, k'⟩ ∈ f.links ↔ k' ∈ l.children e k :=
      fun k' => (h.mem_links_iff e he k k').trans (and_iff_right hkey)
    simp only [h.slot?_eq hg he hkey, hlinks]
    obtain ⟨hnil, hc⟩ | ⟨child, hmem, hc⟩ := e.contentOf_single hkind (l.children e k)
    · rw [hc, hnil]
      exact ⟨fun _ _ => List.not_mem_nil, fun _ => rfl⟩
    · rw [hc]
      exact ⟨nofun, fun hnone => absurd hmem (hnone child)⟩
  single_linked e he hkind k k' hm := by
    obtain ⟨hkey, hk'⟩ := (h.mem_links_iff e he k k').1 hm
    rw [h.slot?_eq hg he hkey]
    obtain ⟨hnil, -⟩ | ⟨child, hmem, hc⟩ := e.contentOf_single hkind (l.children e k)
    · rw [hnil] at hk'
      cases hk'
    · rw [hc]
      exact ⟨child, rfl, (h.mem_links_iff e he k child).2 ⟨hkey, hmem⟩⟩

end Describes

end Layout

namespace Graph

open NestedJoin.Layout

/-! ## Showings -/

/-- All showings of some rows: a row is shown to every vertex before the next one is taken up. -/
def showings (g : Graph) (rows : List Row) : List (Row × Vertex) :=
  rows.flatMap fun row => g.vertices.map fun v => (row, v)

/-- The forest that some showings make, or the first fault. -/
def forestAfter (g : Graph) (chains : KeyChains) (shown : List (Row × Vertex)) :
    Except Fault Forest :=
  shown.foldlM (fun f s => g.consume chains s.1 f s.2) (Forest.ofAliases g.aliases)

section Showings

variable {g : Graph} {chains : KeyChains} {f f' : Forest}

/-- Folding rows is making all their showings. -/
theorem forestOf_eq_forestAfter (g : Graph) (chains : KeyChains) (rows : List Row) :
    g.forestOf chains rows = g.forestAfter chains (g.showings rows) := by
  rw [forestOf, forestAfter]
  generalize Forest.ofAliases g.aliases = f
  induction rows generalizing f with
  | nil => rfl
  | cons row rows ih =>
    rw [showings, List.flatMap_cons, List.foldlM_append, List.foldlM_map, List.foldlM_cons]
    exact bind_congr ih

theorem mem_showings_iff {rows : List Row} {row : Row} {v : Vertex} :
    (row, v) ∈ g.showings rows ↔ row ∈ rows ∧ v ∈ g.vertices := by
  simp [showings]

/-- Some first showings are those of some first rows, and those of one more row to some first
vertices. -/
theorem exists_of_prefix_showings {shown : List (Row × Vertex)} {rows : List Row}
    (h : shown <+: g.showings rows) :
    ∃ done row vs, vs <+: g.vertices ∧ shown = g.showings done ++ vs.map fun v => (row, v) := by
  induction rows generalizing shown with
  | nil => exact ⟨[], .empty, [], List.nil_prefix, List.prefix_nil.1 h⟩
  | cons row rows ih =>
    have hsplit : g.showings (row :: rows) =
        (g.vertices.map fun v => (row, v)) ++ g.showings rows := List.flatMap_cons
    rw [hsplit] at h
    rcases List.prefix_or_prefix_of_prefix h (List.prefix_append _ _) with hshort | ⟨more, rfl⟩
    · obtain ⟨vs, hvs, rfl⟩ := List.prefix_map_iff.1 hshort
      exact ⟨[], row, vs, hvs, rfl⟩
    · obtain ⟨done, row', vs, hvs, rfl⟩ := ih ((List.prefix_append_right_inj _).1 h)
      refine ⟨row :: done, row', vs, hvs, ?_⟩
      rw [← List.append_assoc]
      rfl

/-- Showings that succeed do so up to every point. -/
theorem exists_forestAfter_of_prefix {shown shown' : List (Row × Vertex)}
    (hs : shown <+: shown') (h : g.forestAfter chains shown' = .ok f') :
    ∃ f, g.forestAfter chains shown = .ok f := by
  obtain ⟨more, rfl⟩ := hs
  rw [forestAfter, List.foldlM_append] at h
  rw [forestAfter]
  cases hf : shown.foldlM (fun f s => g.consume chains s.1 f s.2) (Forest.ofAliases g.aliases) with
  | ok f => exact ⟨f, rfl⟩
  | error fault =>
    rw [hf] at h
    cases h

/-! ### What showings keep -/

/-- Links are made along edges. -/
theorem Coherent.links_along (hg : g.Coherent) {shown : List (Row × Vertex)}
    (hs : ∀ s ∈ shown, s.2 ∈ g.vertices) (h : g.forestAfter chains shown = .ok f) :
    ∀ link ∈ f.links, ∃ e ∈ g.edges,
      link.parent.aliasName = e.parentAlias ∧ link.container = e.container := by
  refine foldlM_invariant (fun _ s => ∀ link ∈ s.links, ∃ e ∈ g.edges,
    link.parent.aliasName = e.parentAlias ∧ link.container = e.container) ?_ ?_ h
  · intro done show' rest hshown s s' hinv hconsume
    have hv : show'.2 ∈ g.vertices :=
      hs show' (hshown ▸ List.mem_append_right _ List.mem_cons_self)
    have hfile : ∀ r fragment, (s.file r fragment).links = s.links := by
      intro r fragment
      unfold Forest.file
      split <;> rfl
    obtain ⟨-, rfl⟩ | ⟨key, -, -, ⟨-, rfl⟩ | ⟨e, k, hedge, -, hl⟩⟩ := consume_cases hconsume
    · exact hinv
    · rw [hfile]
      exact hinv
    · obtain ⟨he, -⟩ := (hg.edge?_eq_some_iff hv).1 hedge
      obtain ⟨rfl, -⟩ | ⟨_, _, -, -, -, rfl⟩ := link_cases hl
      · rw [hfile]
        exact hinv
      · intro link hm
        rcases List.mem_append.1 hm with hm | hm
        · exact hinv link (hfile _ _ ▸ hm)
        · rw [List.mem_singleton.1 hm]
          exact ⟨e, he, rfl, rfl⟩
  · intro link hm
    cases hm

/-- A step that succeeds leaves a described forest described: that it succeeds says that the row
has the key of the vertex. -/
theorem Grown.describes_consume (hg : g.Grown) (hc : g.IsPrepared chains)
    (hapart : g.ContainersApart) {done : List Row} {row : Row} {vs rest : List Vertex} {v : Vertex}
    (hs : g.vertices = vs ++ v :: rest)
    (hf : (g.layoutOf (seenAlong done row vs)).Describes g f)
    (h : g.consume chains row f v = .ok f') :
    (g.layoutOf (seenAlong done row (vs ++ [v]))).Describes g f' := by
  have hv : v ∈ g.vertices := hs ▸ List.mem_append_right _ List.mem_cons_self
  obtain ⟨f'', hconsume, hf''⟩ := hg.exists_consume_seenAlong hc hapart hs hf fun hp => by
    obtain ⟨key, hkey, -⟩ := filed_of_consume h hp
    exact (of_filingKey_eq_ok (hc v hv) hkey).1
  rw [h] at hconsume
  rwa [Except.ok.inj hconsume]

/-- A vertex has seen the rows that were shown to it. -/
theorem Coherent.mem_seenAlong_iff (hg : g.Coherent) {done : List Row} {row r : Row}
    {vs : List Vertex} {v : Vertex} (hvs : vs <+: g.vertices) (hv : v ∈ g.vertices) :
    r ∈ seenAlong done row vs v.aliasName ↔
      (r, v) ∈ g.showings done ++ vs.map fun v => (row, v) := by
  have hshown : v.aliasName ∈ vs.map Vertex.aliasName ↔ v ∈ vs := by
    refine ⟨fun hm => ?_, List.mem_map_of_mem⟩
    obtain ⟨w, hw, ha⟩ := List.mem_map.1 hm
    exact hg.eq_of_aliasName (hvs.subset hw) hv ha ▸ hw
  rw [List.mem_append, mem_showings_iff, seenAlong]
  by_cases hm : v ∈ vs
  · rw [if_pos (hshown.2 hm)]
    simp [hv, hm, eq_comm]
  · rw [if_neg (mt hshown.1 hm)]
    simp [hv, hm]

/-- After some first showings the forest is described by the rows that the vertices have seen. -/
theorem Grown.describes_forestAfter (hg : g.Grown) (hc : g.IsPrepared chains)
    (hapart : g.ContainersApart) {shown : List (Row × Vertex)} {rows : List Row}
    (hs : shown <+: g.showings rows) (h : g.forestAfter chains shown = .ok f) :
    ∃ seen, (g.layoutOf seen).Describes g f ∧
      ∀ v ∈ g.vertices, ∀ r, r ∈ seen v.aliasName ↔ (r, v) ∈ shown := by
  obtain ⟨done, row, vs, hvertices, rfl⟩ := exists_of_prefix_showings hs
  obtain ⟨f₀, hdone⟩ := exists_forestAfter_of_prefix (List.prefix_append _ _) h
  simp only [forestAfter, List.foldlM_append, List.foldlM_map] at h
  rw [← forestAfter, hdone] at h
  have hvs : vs.foldlM (g.consume chains row) f₀ = .ok f := h
  rw [← forestOf_eq_forestAfter] at hdone
  have hf₀ : (g.layoutOf fun _ => done).Describes g f₀ := by
    obtain ⟨f₁, hf₁, hdescribes⟩ := hg.exists_forestOf hc hapart (keyed_of_forestOf hc hdone)
    rw [hdone] at hf₁
    rwa [Except.ok.inj hf₁]
  refine ⟨seenAlong done row vs, ?_, fun v hv r => hg.coherent.mem_seenAlong_iff hvertices hv⟩
  obtain ⟨rest, hrest⟩ := hvertices
  refine foldlM_invariant (fun vs s => (g.layoutOf (seenAlong done row vs)).Describes g s) ?_
    (hg.describes_seenAlong_nil hf₀ row) hvs
  intro before v after hsplit s s' hinv hconsume
  have hbefore : g.vertices = before ++ v :: (after ++ rest) := by
    rw [← hrest, hsplit, List.append_assoc, List.cons_append]
  exact hg.describes_consume hc hapart hbefore hinv hconsume

/-- The keys of the rows seen nest. -/
theorem nests_layoutOf (g : Graph) (seen : String → List Row) : (g.layoutOf seen).Nests g where
  keys_length v _ k hk := by
    obtain ⟨row, -, -, rfl⟩ := mem_sightings_iff.1 hk
    exact g.length_keyIn v row
  mem_children_iff e _ k _ k' := by
    show k' ∈ (g.sightings (seen e.aliasName) e.child).filter k.isPrefixOf ↔ _
    rw [List.mem_filter, List.isPrefixOf_iff_prefix]
    rfl
  children_nodup e _ k := (g.nodup_sightings _ _).filter _

end Showings

end Graph

namespace Session

open NestedJoin.Graph

/-- For every builder that calls have made, if the containers of every table are different, from
each other and from its fields: folding rows is making their showings one after the other; if the
rows have their keys, the showings succeed up to every point; and the forest that is there at any
point has the shape of the graph, with a node for each key that a row has shown to a vertex. -/
theorem isForestOf_showings (schema : Schema) (cs : List Command) {name : String} {b : Builder}
    (hb : ((ofSchema schema).obeyAll cs).builder? name = some b)
    (hapart : b.graph.ContainersApart) {chains chains' : KeyChains}
    (hp : b.graph.prepare chains = .ok chains') (rows : List Row) :
    b.graph.forestOf chains' rows = b.graph.forestAfter chains' (b.graph.showings rows) ∧
    ∀ shown, shown <+: b.graph.showings rows →
      ((∀ r ∈ rows, b.graph.Keyed r) → ∃ f, b.graph.forestAfter chains' shown = .ok f) ∧
      ∀ f, b.graph.forestAfter chains' shown = .ok f →
        f.IsForestOf b.graph ∧
        ∀ v ∈ b.graph.vertices, ∀ k, f.Has ⟨v.aliasName, k⟩ ↔
          ∃ row, (row, v) ∈ shown ∧ v.table.isPresent row = true ∧ b.graph.keyIn v row = k := by
  have hg := grown_run schema cs hb
  have hc := hg.isPrepared_prepare hp
  refine ⟨forestOf_eq_forestAfter _ _ rows, fun shown hs => ⟨fun hrows => ?_, fun f hf => ?_⟩⟩
  · obtain ⟨f, hf, -⟩ := hg.exists_forestOf hc hapart hrows
    rw [forestOf_eq_forestAfter] at hf
    exact exists_forestAfter_of_prefix hs hf
  · obtain ⟨seen, hdescribes, hseen⟩ := hg.describes_forestAfter hc hapart hs hf
    have hlinks := hg.coherent.links_along (fun s hm => (mem_showings_iff.1 (hs.subset hm)).2) hf
    refine ⟨hdescribes.isForestOf (nests_layoutOf b.graph seen) hg hlinks, fun v hv k => ?_⟩
    have hkeys : k ∈ (b.graph.layoutOf seen).keys v ↔ _ := mem_sightings_iff
    simp only [hdescribes.has_iff hv, hkeys, hseen v hv]

/-- The forest when the last row has been shown to two of the four vertices. -/
def halfwayForest : Forest :=
  (sampleBuilder.graph.forestAfter sampleChains
    ((sampleBuilder.graph.showings sampleRows).take 14)).toOption.getD default

/-- One parent has had two children for its single container, the other has none yet, and a node
without a parent has no link. -/
theorem isForestOf_showings_sample :
    halfwayForest.IsForestOf sampleBuilder.graph ∧
    halfwayForest.Has ⟨"b", [.null, .ofInt 5]⟩ ∧
    halfwayForest.slot? ⟨"a", [.ofInt 6]⟩ "bs" = some (.many [⟨"b", [.ofInt 6, .ofInt 2]⟩]) ∧
    halfwayForest.slot? ⟨"a", [.ofInt 6]⟩ "c" = some (.data .null) ∧
    halfwayForest.slot? ⟨"a", [.ofInt 1]⟩ "c" = some (.one ⟨"c", [.ofInt 1, .ofInt 8]⟩) ∧
    halfwayForest.links.map Link.key =
      [[.ofInt 1, .ofInt 2], [.ofInt 1, .ofInt 7], [.ofInt 1, .ofInt 2, .ofInt 3],
        [.ofInt 1, .ofInt 8], [.ofInt 1, .ofInt 2, .ofInt 4], [.ofInt 6, .ofInt 2]] := by
  have hb : ((ofSchema sampleSchema).obeyAll sampleCalls).builder? "q" = some sampleBuilder := rfl
  have hp : sampleBuilder.graph.prepare .empty = .ok sampleChains := rfl
  have hapart : sampleBuilder.graph.ContainersApart := by decide
  have hrows : ∀ r ∈ sampleRows, sampleBuilder.graph.Keyed r := by decide
  obtain ⟨-, hshown⟩ := isForestOf_showings sampleSchema sampleCalls hb hapart hp sampleRows
  obtain ⟨hsucceeds, hshape⟩ := hshown _ (List.take_prefix 14 _)
  obtain ⟨f, hf⟩ := hsucceeds hrows
  have hsample : halfwayForest = f := by rw [halfwayForest, hf]; rfl
  exact ⟨hsample ▸ (hshape f hf).1, rfl, rfl, rfl, rfl, rfl⟩

end Session

end NestedJoin
