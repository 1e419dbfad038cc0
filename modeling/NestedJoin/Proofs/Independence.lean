import NestedJoin.Proofs.FoldingAlike
import NestedJoin.Proofs.Materializing
import NestedJoin.Proofs.Preparing
import NestedJoin.Proofs.Reading
import NestedJoin.Proofs.Retention
set_option autoImplicit false

/-!
# Independent relations

One more table joined to a graph multiplies the rows, but not what they say about the other tables.
The new vertex is the last one to be shown a row.  What it does there, it does to the nodes of its
own alias, to the edge's container in the parent's nodes, and to the links into that container; and
none of the other vertices ever looks at these.  So the two graphs go through the rows side by side,
and they differ in nothing but what the edge has brought.

Main statements: `Graph.JoinedApart.consume_alike`, a step of a vertex that both graphs have,
`Graph.JoinedApart.exists_consume_child`, a step of the new one, and `Session.materialize_joined`.
-/

namespace NestedJoin

/-! ## Runs side by side -/

/-- Two results are the same fault, or related. -/
def Alike {α β : Type} (related : α → β → Prop) : Except Fault α → Except Fault β → Prop
  | .error fault, .error fault' => fault = fault'
  | .ok x, .ok y => related x y
  | _, _ => False

theorem Alike.fault_or_ok {α β : Type} {related : α → β → Prop} {x : Except Fault α}
    {y : Except Fault β} (h : Alike related x y) :
    (∃ fault, x = .error fault ∧ y = .error fault) ∨
      ∃ s t, x = .ok s ∧ y = .ok t ∧ related s t := by
  rcases x with fault | s <;> rcases y with fault' | t
  · exact Or.inl ⟨fault, rfl, congrArg Except.error (Eq.symm h)⟩
  · cases h
  · cases h
  · exact Or.inr ⟨s, t, rfl, rfl, h⟩

/-- One of two runs takes a step more that succeeds and leaves their results related. -/
theorem Alike.bind_right {α β : Type} {related : α → β → Prop} {x : Except Fault α}
    {y : Except Fault β} (h : Alike related x y) {next : β → Except Fault β}
    (hnext : ∀ s t, related s t → ∃ t', next t = .ok t' ∧ related s t') :
    Alike related x (y >>= next) := by
  obtain ⟨fault, rfl, rfl⟩ | ⟨s, t, rfl, rfl, hst⟩ := h.fault_or_ok
  · rfl
  · obtain ⟨t', ht', hrelated⟩ := hnext s t hst
    show Alike related (.ok s) (next t)
    rw [ht']
    exact hrelated

/-- Folds whose steps stay related end alike. -/
theorem foldlM_alike {α σ τ : Type} {related : σ → τ → Prop} {step : σ → α → Except Fault σ}
    {step' : τ → α → Except Fault τ} {xs : List α}
    (hstep : ∀ x ∈ xs, ∀ s t, related s t → Alike related (step s x) (step' t x)) {s : σ} {t : τ}
    (h : related s t) : Alike related (xs.foldlM step s) (xs.foldlM step' t) := by
  induction xs generalizing s t with
  | nil => exact h
  | cons x xs ih =>
    rw [List.foldlM_cons, List.foldlM_cons]
    obtain ⟨fault, hs, ht⟩ | ⟨s', t', hs, ht, hst⟩ :=
      (hstep x List.mem_cons_self s t h).fault_or_ok
    · rw [hs, ht]
      rfl
    · rw [hs, ht]
      exact ih (fun y hy => hstep y (List.mem_cons_of_mem x hy)) hst

/-! ## Forests without an edge -/

/-- The forest with a key removed from all nodes of an alias. -/
def Forest.without (f : Forest) (aliasName key : String) : Forest :=
  { f with nodes := f.nodes.mapValues fun a nodes =>
      if a = aliasName then nodes.mapValues fun _ fragment => fragment.erase key else nodes }

namespace Edge

/-- A fragment of an alias without the container of an edge. -/
def trim (e : Edge) (aliasName : String) (fragment : Fragment) : Fragment :=
  if aliasName = e.parentAlias then fragment.erase e.container else fragment

/-- A link leads into the container of an edge. -/
def Owns (e : Edge) (l : Link) : Prop :=
  l.parent.aliasName = e.parentAlias ∧ l.container = e.container

/-- Attaching something elsewhere can be done before the container is taken away or after. -/
theorem attach_trim (e : Edge) {e₁ : Edge} {a : String}
    (hne : a = e.parentAlias → e₁.container ≠ e.container) (fragment : Fragment) (child : NodeRef) :
    Graph.attach e₁ (e.trim a fragment) child =
      (Graph.attach e₁ fragment child).map (e.trim a) := by
  unfold trim
  split
  · next ha =>
    have hget : (fragment.erase e.container).get? e₁.container = fragment.get? e₁.container := by
      rw [OrderedMap.get?_erase, if_neg (hne ha)]
    have hinsert : ∀ c, (fragment.erase e.container).insert e₁.container c =
        (fragment.insert e₁.container c).erase e.container := by
      intro c
      rw [OrderedMap.erase_insert, if_neg (hne ha)]
    unfold Graph.attach
    rw [hget]
    cases e₁.kind with
    | single => exact congrArg Except.ok (hinsert _)
    | multiple =>
      cases fragment.get? e₁.container with
      | none => rfl
      | some c =>
        cases hc : c.append child with
        | error fault => simp only [hc, Except.map]
        | ok c' => simp only [hc, Except.map, hinsert]
    | other raw => rfl
  · cases Graph.attach e₁ fragment child <;> rfl

end Edge

namespace Forest

/-- A forest is another one without what an edge has brought, and there the edge's container takes
what is attached. -/
structure Trimmed (e : Edge) (f f' : Forest) : Prop where
  fragment?_eq : ∀ r, r.aliasName ≠ e.aliasName →
    f.fragment? r = (f'.fragment? r).map (e.trim r.aliasName)
  keys_eq : ∀ a, a ≠ e.aliasName → (f.nodesOf a).keys = (f'.nodesOf a).keys
  mem_links_iff : ∀ l, ¬e.Owns l → (l ∈ f.links ↔ l ∈ f'.links)
  listed : e.kind = .multiple → ∀ k fragment, f'.fragment? ⟨e.parentAlias, k⟩ = some fragment →
    ∃ rs, fragment.get? e.container = some (.many rs)

namespace Trimmed

variable {e : Edge} {f f' : Forest}

theorem ofAliases (e : Edge) (aliases aliases' : List String) :
    Trimmed e (.ofAliases aliases) (.ofAliases aliases') where
  fragment?_eq r _ := by
    rw [fragment?_ofAliases, fragment?_ofAliases]
    rfl
  keys_eq a _ := by rw [nodesOf_ofAliases, nodesOf_ofAliases]
  mem_links_iff _ _ := Iff.rfl
  listed _ k fragment hf := by
    rw [fragment?_ofAliases] at hf
    cases hf

/-- The same node is written in both forests. -/
theorem write (h : Trimmed e f f') {r : NodeRef} {fragment : Fragment}
    (hlisted : e.kind = .multiple → r.aliasName = e.parentAlias →
      ∃ rs, fragment.get? e.container = some (.many rs)) :
    Trimmed e (f.write r (e.trim r.aliasName fragment)) (f'.write r fragment) where
  fragment?_eq q hq := by
    rw [fragment?_write, fragment?_write]
    split
    · next heq => rw [heq, Option.map_some]
    · exact h.fragment?_eq q hq
  keys_eq a ha := by
    rw [nodesOf_write, nodesOf_write]
    split
    · rw [OrderedMap.keys_insert, OrderedMap.keys_insert, h.keys_eq a ha]
    · exact h.keys_eq a ha
  mem_links_iff := h.mem_links_iff
  listed hk k fragment' hf := by
    rw [fragment?_write] at hf
    split at hf
    · next heq =>
      cases hf
      exact hlisted hk (heq ▸ rfl)
    · exact h.listed hk k fragment' hf

theorem file (h : Trimmed e f f') {r : NodeRef} (hr : r.aliasName ≠ e.aliasName)
    {fragment : Fragment} (hlisted : e.kind = .multiple → r.aliasName = e.parentAlias →
      ∃ rs, fragment.get? e.container = some (.many rs)) :
    Trimmed e (f.file r (e.trim r.aliasName fragment)) (f'.file r fragment) := by
  unfold Forest.file
  rw [h.fragment?_eq r hr]
  cases f'.fragment? r with
  | none => exact h.write hlisted
  | some _ => exact h

theorem addLink (h : Trimmed e f f') (l : Link) :
    Trimmed e { f with links := f.links ++ [l] } { f' with links := f'.links ++ [l] } :=
  ⟨h.fragment?_eq, h.keys_eq,
    fun l' hl' => by rw [List.mem_append, List.mem_append, h.mem_links_iff l' hl'], h.listed⟩

/-- Linking through another edge goes alike in both forests. -/
theorem link_alike (h : Trimmed e f f') {e₁ : Edge}
    (hne : e₁.parentAlias = e.parentAlias → e₁.container ≠ e.container)
    (hp : e₁.parentAlias ≠ e.aliasName) (k : NodeKey) (child : NodeRef) :
    Alike (Trimmed e) (Graph.link e₁ f ⟨e₁.parentAlias, k⟩ child)
      (Graph.link e₁ f' ⟨e₁.parentAlias, k⟩ child) := by
  have hnew : (⟨⟨e₁.parentAlias, k⟩, e₁.container, child.key⟩ : Link) ∈ f.links ↔
      ⟨⟨e₁.parentAlias, k⟩, e₁.container, child.key⟩ ∈ f'.links :=
    h.mem_links_iff _ fun howns => hne howns.1 howns.2
  unfold Graph.link
  rw [h.fragment?_eq _ hp]
  cases hf : f'.fragment? ⟨e₁.parentAlias, k⟩ with
  | none => exact h
  | some fragment =>
    dsimp only [Option.map_some]
    rw [e.attach_trim hne]
    by_cases hm : (⟨⟨e₁.parentAlias, k⟩, e₁.container, child.key⟩ : Link) ∈ f'.links
    · rw [if_pos hm, if_pos (hnew.2 hm)]
      exact h
    · rw [if_neg hm, if_neg (hnew.not.2 hm)]
      cases ha : Graph.attach e₁ fragment child with
      | error fault => exact rfl
      | ok fragment' =>
        have hlisted : e.kind = .multiple → e₁.parentAlias = e.parentAlias →
            ∃ rs, fragment'.get? e.container = some (.many rs) := by
          intro hk halias
          rw [Graph.get?_attach_of_ne ha (hne halias).symm]
          exact h.listed hk k fragment (halias ▸ hf)
        exact (h.write (r := ⟨e₁.parentAlias, k⟩) hlisted).addLink _

/-! ## Steps of the edge itself -/

theorem file_child (h : Trimmed e f f') (hp : e.parentAlias ≠ e.aliasName) (k : NodeKey)
    (fragment : Fragment) : Trimmed e f (f'.file ⟨e.aliasName, k⟩ fragment) := by
  unfold Forest.file
  split
  · exact h
  · constructor
    · intro r hr
      rw [fragment?_write, if_neg fun heq => hr (congrArg NodeRef.aliasName heq)]
      exact h.fragment?_eq r hr
    · intro a ha
      rw [nodesOf_write, if_neg ha]
      exact h.keys_eq a ha
    · exact h.mem_links_iff
    · intro hk k' fragment' hf
      rw [fragment?_write, if_neg fun heq => hp (NodeRef.mk.inj heq).1] at hf
      exact h.listed hk k' fragment' hf

/-- Something is written into the container of the edge. -/
theorem attach_child (h : Trimmed e f f') {k : NodeKey} {fragment : Fragment}
    (hf : f'.fragment? ⟨e.parentAlias, k⟩ = some fragment) {c : Content}
    (hc : e.kind = .multiple → ∃ rs, c = .many rs) (key : NodeKey) :
    Trimmed e f { f'.write ⟨e.parentAlias, k⟩ (fragment.insert e.container c) with
      links := f'.links ++ [⟨⟨e.parentAlias, k⟩, e.container, key⟩] } := by
  constructor
  · intro r hr
    show f.fragment? r = ((f'.write ⟨e.parentAlias, k⟩ _).fragment? r).map _
    rw [fragment?_write, h.fragment?_eq r hr]
    split
    · next heq =>
      rw [heq, hf, Option.map_some, Option.map_some, Edge.trim, Edge.trim, if_pos rfl, if_pos rfl,
        OrderedMap.erase_insert, if_pos rfl]
    · rfl
  · intro a ha
    show _ = ((f'.write ⟨e.parentAlias, k⟩ _).nodesOf a).keys
    rw [h.keys_eq a ha, nodesOf_write]
    split
    · next heq =>
      have hmem : k ∈ (f'.nodesOf a).keys := by
        rw [heq, ← OrderedMap.contains_iff_mem_keys]
        exact Option.isSome_of_eq_some hf
      rw [OrderedMap.keys_insert, if_pos hmem]
    · rfl
  · intro l hl
    rw [h.mem_links_iff l hl, List.mem_append, List.mem_singleton]
    refine ⟨Or.inl, fun hm => hm.resolve_right ?_⟩
    rintro rfl
    exact hl ⟨rfl, rfl⟩
  · intro hk k' fragment' hf'
    change (f'.write ⟨e.parentAlias, k⟩ _).fragment? _ = _ at hf'
    rw [fragment?_write] at hf'
    split at hf'
    · cases hf'
      obtain ⟨rs, rfl⟩ := hc hk
      exact ⟨rs, OrderedMap.get?_insert_self _ _ _⟩
    · exact h.listed hk k' fragment' hf'

/-- Linking through the edge succeeds and brings nothing but what belongs to it. -/
theorem exists_link_child (h : Trimmed e f f') (hk : e.kind = .single ∨ e.kind = .multiple)
    (k key : NodeKey) :
    ∃ f'', Graph.link e f' ⟨e.parentAlias, k⟩ ⟨e.aliasName, key⟩ = .ok f'' ∧ Trimmed e f f'' := by
  unfold Graph.link
  cases hf : f'.fragment? ⟨e.parentAlias, k⟩ with
  | none => exact ⟨f', rfl, h⟩
  | some fragment =>
    dsimp only
    split
    · exact ⟨f', rfl, h⟩
    · rcases hk with hk | hk
      · have ha : Graph.attach e fragment ⟨e.aliasName, key⟩ =
            .ok (fragment.insert e.container (.one ⟨e.aliasName, key⟩)) := by
          simp only [Graph.attach, hk]
        rw [ha]
        refine ⟨_, rfl, h.attach_child hf (fun hq => ?_) key⟩
        rw [hk] at hq
        cases hq
      · obtain ⟨rs, hrs⟩ := h.listed hk k fragment hf
        have ha : Graph.attach e fragment ⟨e.aliasName, key⟩ =
            .ok (fragment.insert e.container (.many (rs ++ [⟨e.aliasName, key⟩]))) := by
          simp only [Graph.attach, hk, hrs, Content.append, Except.map]
        rw [ha]
        exact ⟨_, rfl, h.attach_child hf (fun _ => ⟨_, rfl⟩) key⟩

end Trimmed

/-! ## Reading -/

theorem keys_nodesOf_without (f : Forest) (a key b : String) :
    ((f.without a key).nodesOf b).keys = (f.nodesOf b).keys := by
  unfold nodesOf without
  rw [OrderedMap.get?_mapValues]
  cases f.nodes.get? b with
  | none => rfl
  | some nodes =>
    rw [Option.map_some, Option.getD_some, Option.getD_some]
    split
    · exact OrderedMap.keys_mapValues _ _
    · rfl

theorem fragment?_without (f : Forest) (e : Edge) (r : NodeRef) :
    (f.without e.parentAlias e.container).fragment? r =
      (f.fragment? r).map (e.trim r.aliasName) := by
  unfold fragment? nodesOf without Edge.trim
  rw [OrderedMap.get?_mapValues]
  cases f.nodes.get? r.aliasName with
  | none => rfl
  | some nodes =>
    rw [Option.map_some, Option.getD_some, Option.getD_some]
    split
    · exact OrderedMap.get?_mapValues _ _ _
    · cases nodes.get? r.key <;> rfl

/-- With the edge's container removed, the entities are those of the forest without the edge. -/
theorem Trimmed.entitiesOf_eq {e : Edge} {f f' : Forest} (h : Trimmed e f f')
    {aliases : List String} (hdown : f.LeadsDown aliases) (haliases : f.nodes.keys = aliases)
    (haliases' : f'.nodes.keys = aliases ++ [e.aliasName]) (hnew : e.aliasName ∉ aliases)
    {a : String} (ha : a ∈ aliases) :
    (f'.without e.parentAlias e.container).entitiesOf a = f.entitiesOf a := by
  have hdepth : f.depth = aliases.length := by
    rw [← haliases, depth, OrderedMap.size, OrderedMap.keys, List.length_map]
  have hdepth' : (f'.without e.parentAlias e.container).depth = aliases.length + 1 := by
    have hkeys : (f'.without e.parentAlias e.container).nodes.keys = aliases ++ [e.aliasName] :=
      (OrderedMap.keys_mapValues _ _).trans haliases'
    have hlength := congrArg List.length hkeys
    rwa [OrderedMap.keys, List.length_map, List.length_append, List.length_singleton] at hlength
  have hshared : ∀ r : NodeRef, r.aliasName ∈ aliases →
      (f'.without e.parentAlias e.container).fragment? r = f.fragment? r := by
    intro r hr
    rw [fragment?_without, h.fragment?_eq r fun heq => hnew (heq ▸ hr)]
  have hentity : ∀ r : NodeRef, r.aliasName ∈ aliases →
      (f'.without e.parentAlias e.container).entity r = f.entity r := by
    intro r hr
    have hrefs : ∀ q ∈ (Content.one r).refs, q.aliasName ∈ aliases := fun q hq => by
      rw [List.mem_singleton.1 hq]
      exact hr
    rw [entity, entity, readContent, readContent, hdepth, hdepth',
      read_congr hshared (fun p q _ href => (hdown.link p q href).1) _ hrefs]
    exact hdown.read_succ fun q hq => ⟨hrefs q hq, Nat.le_add_right _ _⟩
  have hrefs : (f'.without e.parentAlias e.container).refsOf a = f.refsOf a := by
    rw [refsOf, refsOf, keys_nodesOf_without, h.keys_eq a fun heq => hnew (heq ▸ ha)]
  rw [entitiesOf, entitiesOf, hrefs]
  refine List.map_congr_left fun r hr => hentity r ?_
  obtain ⟨k, -, rfl⟩ := List.mem_map.1 hr
  exact ha

end Forest

namespace Graph

/-! ## Graphs with an edge more -/

/-- One grown graph is another with one more edge, whose container has a name of its own among what
the parent's entities hold. -/
structure JoinedApart (g g' : Graph) (e : Edge) : Prop where
  grown : g.Grown
  grown' : g'.Grown
  accepted : g.addEdge e = .ok g'
  field_ne : e.container ∉ e.parent.table.fields
  container_ne : e.container ∉ g.containersOf e.parent

namespace JoinedApart

variable {g g' : Graph} {e : Edge}

theorem eq_fileEdge (h : g.JoinedApart g' e) : g' = g.fileEdge e :=
  (addEdge_eq_ok_iff.1 h.accepted).2.2.2.2

theorem contains_eq_false (h : g.JoinedApart g' e) : g.contains e.aliasName = false :=
  (addEdge_eq_ok_iff.1 h.accepted).2.1

theorem vertices_eq (h : g.JoinedApart g' e) : g'.vertices = g.vertices ++ [e.child] := by
  rw [h.eq_fileEdge]
  exact Coherent.vertices_fileEdge h.contains_eq_false

theorem mem_vertices (h : g.JoinedApart g' e) {v : Vertex} (hv : v ∈ g.vertices) :
    v ∈ g'.vertices := by
  rw [h.vertices_eq]
  exact List.mem_append_left _ hv

theorem edge_mem (h : g.JoinedApart g' e) : e ∈ g'.edges := by
  rw [h.eq_fileEdge, h.grown.coherent.edges_fileEdge h.contains_eq_false]
  exact List.mem_append_right _ List.mem_cons_self

/-- No vertex of the graph has the alias of the new one. -/
theorem alias_ne (h : g.JoinedApart g' e) {v : Vertex} (hv : v ∈ g.vertices) :
    v.aliasName ≠ e.aliasName := by
  intro heq
  exact Coherent.not_mem_aliases h.contains_eq_false (heq ▸ h.grown.coherent.alias_mem hv)

/-- The parent of the edge is a vertex that the graph had before. -/
theorem parent_mem (h : g.JoinedApart g' e) : e.parent ∈ g.vertices := by
  have hmem := h.grown'.parent_mem h.edge_mem
  rw [h.vertices_eq] at hmem
  refine (List.mem_append.1 hmem).resolve_right fun hchild => ?_
  have hchild' := congrArg Vertex.aliasName (List.mem_singleton.1 hchild)
  exact h.grown'.parent_ne_child h.edge_mem hchild'

theorem edge?_eq (h : g.JoinedApart g' e) {v : Vertex} (hv : v ∈ g.vertices) :
    g'.edge? v.aliasName = g.edge? v.aliasName := by
  rw [h.eq_fileEdge]
  exact (OrderedMap.get?_insert _ _ _ _).trans (if_neg (h.alias_ne hv))

theorem edge?_child (h : g.JoinedApart g' e) : g'.edge? e.aliasName = some e := by
  rw [h.eq_fileEdge]
  exact OrderedMap.get?_insert_self _ _ _

theorem edgesInto_eq (h : g.JoinedApart g' e) (a : String) : g'.edgesInto a =
    if a = e.parentAlias then g.edgesInto a ++ [e] else g.edgesInto a := by
  rw [h.eq_fileEdge, edgesInto, fileEdge, OrderedMap.get?_insert]
  split
  · next ha => rw [ha, Option.getD_some]
  · rfl

/-- The other edges onto the parent have other containers. -/
theorem edge_container_ne (h : g.JoinedApart g' e) {e₁ : Edge} (he₁ : e₁ ∈ g.edges)
    (hp : e₁.parentAlias = e.parentAlias) : e₁.container ≠ e.container := by
  intro hc
  have hparent : e₁.parent = e.parent :=
    h.grown.coherent.eq_of_aliasName (h.grown.parent_mem he₁) h.parent_mem hp
  have hinto : e₁ ∈ g.edgesInto e.parent.aliasName :=
    (h.grown.mem_edgesInto_iff h.parent_mem).2 ⟨he₁, hparent⟩
  exact h.container_ne (hc ▸ List.mem_map_of_mem hinto)

/-- The vertices that both graphs have make the same fragments but for the container. -/
theorem fragmentOf_eq (h : g.JoinedApart g' e) {v : Vertex} (hv : v ∈ g.vertices) (row : Row) :
    g.fragmentOf v row = e.trim v.aliasName (g'.fragmentOf v row) := by
  unfold Edge.trim
  split
  · next ha =>
    obtain rfl := h.grown.coherent.eq_of_aliasName hv h.parent_mem ha
    have hnew : e.container ∉ (g.fragmentOf e.parent row).keys := by
      intro hm
      obtain ⟨p, hp, hname⟩ := List.mem_map.1 hm
      rw [fragmentOf_eq_insertAll] at hp
      rcases OrderedMap.mem_entries_insertAll hp with hp | hp
      · obtain ⟨q, hq, rfl⟩ := List.mem_map.1 hp
        refine h.field_ne (hname ▸ ?_)
        exact (e.parent.table.extractEntries_keys_sublist row).subset (List.mem_map_of_mem hq)
      · obtain ⟨e₁, he₁, rfl⟩ := List.mem_map.1 hp
        exact h.container_ne (hname ▸ List.mem_map_of_mem he₁)
    have hwith : g'.fragmentOf e.parent row =
        (g.fragmentOf e.parent row).insert e.container e.emptyContent := by
      rw [fragmentOf, h.edgesInto_eq, if_pos ha, List.foldl_append]
      rfl
    rw [hwith, OrderedMap.erase_insert, if_pos rfl, OrderedMap.erase_of_not_mem hnew]
  · next ha => rw [fragmentOf, fragmentOf, h.edgesInto_eq, if_neg ha]

/-- A new node of the parent has an empty list for the children, if it is to have many. -/
theorem listed_fragmentOf (h : g.JoinedApart g' e) (hk : e.kind = .multiple) {v : Vertex}
    (ha : v.aliasName = e.parentAlias) (row : Row) :
    ∃ rs, (g'.fragmentOf v row).get? e.container = some (.many rs) := by
  rw [fragmentOf, h.edgesInto_eq, if_pos ha, List.foldl_append]
  refine ⟨[], (OrderedMap.get?_insert_self _ _ _).trans ?_⟩
  rw [Edge.emptyContent, hk]

section Keys

variable {chains chains' : KeyChains} (hc : g.IsPrepared chains) (hc' : g'.IsPrepared chains')

include hc hc'

/-- Rows have the same keys in both graphs. -/
theorem filingKey_eq (h : g.JoinedApart g' e) {v : Vertex} (hv : v ∈ g.vertices) (row : Row) :
    chains.filingKey v row = chains'.filingKey v row := by
  refine filingKey_congr rfl ?_ row
  rw [hc v hv, hc' v (h.mem_vertices hv), h.grown.coherent.chainOf_addEdge h.accepted hv]

/-! ## Steps and runs -/

variable {f f' : Forest}

/-- A vertex that both graphs have does the same with a row. -/
theorem consume_alike (h : g.JoinedApart g' e) (hf : f.Trimmed e f') {v : Vertex}
    (hv : v ∈ g.vertices) (row : Row) :
    Alike (Forest.Trimmed e) (g.consume chains row f v) (g'.consume chains' row f' v) := by
  cases hp : v.table.isPresent row with
  | false =>
    rw [consume_of_absent hp, consume_of_absent hp]
    exact hf
  | true =>
    simp only [consume, hp, if_true, h.filingKey_eq hc hc' hv, h.edge?_eq hv, h.fragmentOf_eq hv,
      bind, Except.bind]
    cases chains'.filingKey v row with
    | error fault => exact rfl
    | ok key =>
      have hlisted : e.kind = .multiple → v.aliasName = e.parentAlias →
          ∃ rs, (g'.fragmentOf v row).get? e.container = some (.many rs) :=
        fun hk ha => h.listed_fragmentOf hk ha row
      have hfiled := hf.file (r := ⟨v.aliasName, key⟩) (h.alias_ne hv) hlisted
      cases hedge : g.edge? v.aliasName with
      | none => exact hfiled
      | some e₁ =>
        obtain ⟨he₁, rfl⟩ := (h.grown.coherent.edge?_eq_some_iff hv).1 hedge
        have hparent := h.grown.parent_mem he₁
        simp only [h.filingKey_eq hc hc' hparent]
        cases chains'.filingKey e₁.parent row with
        | error fault => exact rfl
        | ok k => exact hfiled.link_alike (h.edge_container_ne he₁) (h.alias_ne hparent) k _

omit hc in
/-- The new vertex takes a row that has its key and brings nothing but what belongs to the edge. -/
theorem exists_consume_child (h : g.JoinedApart g' e) (hf : f.Trimmed e f') {row : Row}
    (hrow : g'.Keyed row) :
    ∃ f'', g'.consume chains' row f' e.child = .ok f'' ∧ f.Trimmed e f'' := by
  have hmem := h.grown'.coherent.child_mem h.edge_mem
  have hne : e.parentAlias ≠ e.aliasName := h.alias_ne h.parent_mem
  cases hp : e.child.table.isPresent row with
  | false => exact ⟨f', consume_of_absent hp, hf⟩
  | true =>
    rw [h.grown'.consume_of_present hc' hmem (hrow e.child hmem hp) hp,
      show e.child.aliasName = e.aliasName from rfl, h.edge?_child]
    have hfiled := hf.file_child hne (g'.keyIn e.child row) (g'.fragmentOf e.child row)
    exact hfiled.exists_link_child (h.grown'.kind_eq e h.edge_mem) _ _

/-- Both graphs go through a row alike. -/
theorem consumeRow_alike (h : g.JoinedApart g' e) (hf : f.Trimmed e f') {row : Row}
    (hrow : g'.Keyed row) :
    Alike (Forest.Trimmed e) (g.consumeRow chains f row) (g'.consumeRow chains' f' row) := by
  have hold := foldlM_alike (fun v hv s t hst => h.consume_alike hc hc' hst hv row) hf
  unfold consumeRow
  rw [h.vertices_eq, List.foldlM_append]
  refine hold.bind_right fun s t hst => ?_
  obtain ⟨t', ht', hst'⟩ := h.exists_consume_child hc' hst hrow
  exact ⟨t', by rw [List.foldlM_cons, ht']; rfl, hst'⟩

/-- Both graphs make the same forest of rows, but for what the edge brings, or end with the same
fault. -/
theorem forestOf_alike (h : g.JoinedApart g' e) {rows : List Row}
    (hrows : ∀ row ∈ rows, g'.Keyed row) :
    Alike (Forest.Trimmed e) (g.forestOf chains rows) (g'.forestOf chains' rows) := by
  have hstep : ∀ row ∈ rows, ∀ s t, Forest.Trimmed e s t →
      Alike (Forest.Trimmed e) (g.consumeRow chains s row) (g'.consumeRow chains' t row) :=
    fun row hrow _ _ hst => h.consumeRow_alike hc hc' hst (hrows row hrow)
  exact foldlM_alike hstep (.ofAliases e g.aliases g'.aliases)

/-- Materializing with the edge and removing its container is materializing without it. -/
theorem entities_materialize (h : g.JoinedApart g' e) {rows : List Row}
    (hrows : ∀ row ∈ rows, g'.Keyed row) :
    ((g'.materialize chains' .empty rows).outcome.map fun p =>
        (p.1.without e.parentAlias e.container).entitiesOf p.2) =
      (g.materialize chains .empty rows).entities := by
  obtain ⟨root, hroot⟩ := Option.isSome_iff_exists.1 h.grown.has_root
  have hroot' : g'.root = some root := by rw [h.eq_fileEdge, fileEdge, hroot]
  unfold MaterializeRun.entities materialize
  obtain ⟨fault, hf, hf'⟩ | ⟨f, f', hf, hf', hapart⟩ := (h.forestOf_alike hc hc' hrows).fault_or_ok
  · rw [hf, hf']
    rfl
  · have halias : root.aliasName ∈ g.aliases :=
      h.grown.coherent.alias_mem (h.grown.coherent.root_mem hroot)
    have haliases' : f'.nodes.keys = g.aliases ++ [e.aliasName] := by
      rw [(h.grown'.keptIn_forestOf hc' hf').aliases_eq, h.grown'.coherent.aliases_eq,
        h.vertices_eq, List.map_append, h.grown.coherent.aliases_eq]
      rfl
    have hentities := hapart.entitiesOf_eq (h.grown.coherent.leadsDown_forestOf hf)
      (h.grown.keptIn_forestOf hc hf).aliases_eq haliases'
      (Coherent.not_mem_aliases h.contains_eq_false) halias
    rw [hf, hf']
    show (g'.rootOrFault.map fun r => (f', r.aliasName)).map _ =
      (g.rootOrFault.map fun r => (f, r.aliasName)).map _
    rw [rootOrFault, rootOrFault, hroot, hroot']
    exact congrArg Except.ok hentities

end Keys

end JoinedApart

end Graph

namespace Session

/-- For every two builders that calls have made, the one with an edge more whose container differs
from the fields of the parent and from the parent's other containers: whatever rows hold the keys of
the tables that are present in them, materializing them with that edge and then removing its
container from every entity of the parent gives the entities without it, or the same fault. -/
theorem materialize_joined (schema schema' : Schema) (cs cs' : List Command) {name name' : String}
    {b b' : Builder} (hb : ((ofSchema schema).obeyAll cs).builder? name = some b)
    (hb' : ((ofSchema schema').obeyAll cs').builder? name' = some b') {e : Edge}
    (ha : b.graph.addEdge e = .ok b'.graph) (hfields : e.container ∉ e.parent.table.fields)
    (hcontainers : e.container ∉ b.graph.containersOf e.parent)
    {stored stored' chains chains' : KeyChains} (hp : b.graph.prepare stored = .ok chains)
    (hp' : b'.graph.prepare stored' = .ok chains') {rows : List Row}
    (hrows : ∀ row ∈ rows, b'.graph.Keyed row) :
    ((b'.graph.materialize chains' .empty rows).outcome.map fun p =>
        (p.1.without e.parentAlias e.container).entitiesOf p.2) =
      (b.graph.materialize chains .empty rows).entities := by
  have hg := grown_run schema cs hb
  have hg' := grown_run schema' cs' hb'
  have hjoined : b.graph.JoinedApart b'.graph e := ⟨hg, hg', ha, hfields, hcontainers⟩
  exact hjoined.entities_materialize (hg.isPrepared_prepare hp) (hg'.isPrepared_prepare hp') hrows

/-- The builder before the last of the calls. -/
def shorterBuilder : Builder :=
  (((ofSchema sampleSchema).obeyAll sampleCalls.dropLast).builder? "q").getD default

def shorterChains : KeyChains := (shorterBuilder.graph.prepare .empty).toOption.getD .empty

/-- The edge of the last call. -/
def lastEdge : Edge := (sampleBuilder.graph.edge? "d").get rfl

theorem materialize_joined_sample :
    shorterBuilder.graph.addEdge lastEdge = .ok sampleBuilder.graph ∧
      (∀ row ∈ sampleRows, sampleBuilder.graph.Keyed row) ∧
      ((sampleBuilder.graph.materialize sampleChains .empty sampleRows).outcome.map fun p =>
        (p.1.without "b" "ds").entitiesOf p.2) =
          (shorterBuilder.graph.materialize shorterChains .empty sampleRows).entities := by
  have hb : ((ofSchema sampleSchema).obeyAll sampleCalls.dropLast).builder? "q" =
    some shorterBuilder := rfl
  have hb' : ((ofSchema sampleSchema).obeyAll sampleCalls).builder? "q" = some sampleBuilder := rfl
  have ha : shorterBuilder.graph.addEdge lastEdge = .ok sampleBuilder.graph := rfl
  have hfields : lastEdge.container ∉ lastEdge.parent.table.fields := by decide
  have hcontainers : lastEdge.container ∉ shorterBuilder.graph.containersOf lastEdge.parent := by
    decide
  have hp : shorterBuilder.graph.prepare .empty = .ok shorterChains := rfl
  have hp' : sampleBuilder.graph.prepare .empty = .ok sampleChains := rfl
  have hrows : ∀ row ∈ sampleRows, sampleBuilder.graph.Keyed row := by decide
  exact ⟨ha, hrows, materialize_joined sampleSchema sampleSchema sampleCalls.dropLast sampleCalls
    hb hb' ha hfields hcontainers hp hp' hrows⟩

end Session

end NestedJoin
