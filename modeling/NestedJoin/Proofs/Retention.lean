import NestedJoin.Proofs.Folding
import NestedJoin.Proofs.Stepping
set_option autoImplicit false

/-!
# What fragments keep

Fields and containers of a node share one map, and nothing keeps their names apart.  A container
with the name of a field takes the field's place, and two edges onto one table that share a
container fill it together.  Nevertheless a field that no container has the name of keeps its
value, and a container of one edge alone holds that edge's children.

Main statements: `Graph.Grown.keptIn_forestOf`, which says what the forest of some rows keeps, and
`Graph.Grown.exists_forestOf_of_kindsAgree`, when there is such a forest.
-/

namespace NestedJoin

namespace Graph

/-- An edge shares its container with no other edge onto the same table. -/
def Sole (g : Graph) (e : Edge) : Prop :=
  ∀ e' ∈ g.edges, e'.parentAlias = e.parentAlias → e'.container = e.container →
    e'.aliasName = e.aliasName

instance (g : Graph) (e : Edge) : Decidable (g.Sole e) :=
  inferInstanceAs (Decidable (∀ e' ∈ g.edges, _ → _ → _))

/-- Edges onto one table that share a container are of one kind. -/
def KindsAgree (g : Graph) : Prop :=
  ∀ e ∈ g.edges, ∀ e' ∈ g.edges, e'.parentAlias = e.parentAlias → e'.container = e.container →
    e'.kind.same e.kind = true

instance (g : Graph) : Decidable g.KindsAgree :=
  inferInstanceAs (Decidable (∀ e ∈ g.edges, ∀ e' ∈ g.edges, _ → _ → _))

/-- Of the kinds that callers can ask for those that are the same are equal. -/
theorem KindsAgree.kind_eq {g : Graph} (hk : g.KindsAgree) (hg : g.Grown) {e e' : Edge}
    (he : e ∈ g.edges) (he' : e' ∈ g.edges) (hp : e'.parentAlias = e.parentAlias)
    (hc : e'.container = e.container) : e'.kind = e.kind := by
  have hsame := hk e he e' he' hp hc
  rcases hg.kind_eq e he with h | h <;> rcases hg.kind_eq e' he' with h' | h' <;>
    rw [h, h'] at hsame ⊢ <;> cases hsame

/-- The names of the containers of a vertex. -/
def containersOf (g : Graph) (v : Vertex) : List String :=
  (g.edgesInto v.aliasName).map Edge.container

/-! ## New fragments -/

section Fragments

variable {g : Graph} {v : Vertex}

/-- The fragment of a row holds the fields found in it, unless containers have their names. -/
theorem get?_fragmentOf_field (row : Row) {p : String × Value}
    (hp : p ∈ v.table.extractEntries row) (hname : p.1 ∉ g.containersOf v) :
    (g.fragmentOf v row).get? p.1 = some (.data p.2) := by
  have hget : (v.table.extract row).get? p.1 = some p.2 := OrderedMap.get?_eq_some_iff.2 hp
  rw [fragmentOf_eq_insertAll, OrderedMap.get?_insertAll_of_notMem, OrderedMap.get?_mapValues, hget]
  · rfl
  · rw [List.map_map]
    exact hname

/-- A container holds nothing yet, if all edges that share it agree on that. -/
theorem get?_fragmentOf_container (hg : g.Grown) (hv : v ∈ g.vertices) (row : Row) {e : Edge}
    (he : e ∈ g.edges) (hp : e.parent = v)
    (hagree : ∀ e' ∈ g.edges, e'.parentAlias = e.parentAlias → e'.container = e.container →
      e'.emptyContent = e.emptyContent) :
    (g.fragmentOf v row).get? e.container = some e.emptyContent := by
  rw [fragmentOf_eq_insertAll]
  refine OrderedMap.get?_insertAll_of_forall ?_ ?_
  · rw [List.map_map]
    exact List.mem_map_of_mem ((hg.mem_edgesInto_iff hv).2 ⟨he, hp⟩)
  · intro p hmem hname
    obtain ⟨e', he', rfl⟩ := List.mem_map.1 hmem
    obtain ⟨he', hp'⟩ := (hg.mem_edgesInto_iff hv).1 he'
    have hsame : e'.parentAlias = e.parentAlias := by
      rw [Edge.parentAlias, Edge.parentAlias, hp, hp']
    exact hagree e' he' hsame hname

theorem Sole.emptyContent_eq (hg : g.Grown) {e : Edge} (he : e ∈ g.edges) (hs : g.Sole e) :
    ∀ e' ∈ g.edges, e'.parentAlias = e.parentAlias → e'.container = e.container →
      e'.emptyContent = e.emptyContent := by
  intro e' he' hp hc
  rw [hg.coherent.edge_unique he' he (hs e' he' hp hc)]

end Fragments

end Graph

open NestedJoin.Graph

namespace Layout

/-! ## What is kept -/

/-- A forest keeps what a layout says, as far as no names get in the way. -/
structure KeptIn (l : Layout) (g : Graph) (f : Forest) : Prop extends l.NodesIn g f where
  field_eq : ∀ v ∈ g.vertices, ∀ k fragment, f.fragment? ⟨v.aliasName, k⟩ = some fragment →
    ∀ p ∈ l.fields v k, p.1 ∉ g.containersOf v → fragment.get? p.1 = some (.data p.2)
  container_eq : ∀ e ∈ g.edges, g.Sole e → ∀ k fragment,
    f.fragment? ⟨e.parentAlias, k⟩ = some fragment →
      fragment.get? e.container = some (e.contentOf (l.children e k))
  mem_links_iff : ∀ e ∈ g.edges, g.Sole e → ∀ k k',
    ⟨⟨e.parentAlias, k⟩, e.container, k'⟩ ∈ f.links ↔ k ∈ l.keys e.parent ∧ k' ∈ l.children e k

namespace KeptIn

variable {l : Layout} {g : Graph} {f f' : Forest}

/-- A forest keeps as well what another layout says that says the same. -/
theorem congr {m : Layout} (h : l.KeptIn g f) (hg : g.Grown) (ha : l.Agrees m g) :
    m.KeptIn g f where
  toNodesIn := h.toNodesIn.congr ha
  field_eq v hv k fragment hf := by
    rw [← ha.fields_eq v hv k ((h.mem_keys_iff hv).2 ⟨fragment, hf⟩)]
    exact h.field_eq v hv k fragment hf
  container_eq e he hs k fragment hf := by
    rw [← ha.children_eq e he k ((h.mem_keys_iff (hg.parent_mem he)).2 ⟨fragment, hf⟩)]
    exact h.container_eq e he hs k fragment hf
  mem_links_iff e he hs k k' := by
    rw [h.mem_links_iff e he hs, ← ha.keys_eq e.parent (hg.parent_mem he)]
    refine and_congr_right fun hk => ?_
    rw [ha.children_eq e he k hk]

/-- Filing the node of a row that nothing hangs from yet. -/
theorem write (h : l.KeptIn g f) (hg : g.Grown) {v : Vertex} (hv : v ∈ g.vertices) {k : NodeKey}
    (hk : k ∉ l.keys v) (hc : ∀ e ∈ g.edges, e.parent = v → l.children e k = []) (row : Row) :
    (l.addNode v k (v.table.extractEntries row)).KeptIn g
      (f.write ⟨v.aliasName, k⟩ (g.fragmentOf v row)) where
  toNodesIn := h.toNodesIn.addNode hg hv hk _ _
  field_eq w hw k' fragment hf p hp hname := by
    rw [Forest.fragment?_write] at hf
    simp only [addNode] at hp
    split at hf
    · next hr =>
      obtain ⟨ha, rfl⟩ := NodeRef.mk.inj hr
      obtain rfl := hg.coherent.eq_of_aliasName hw hv ha
      cases hf
      rw [if_pos ⟨rfl, rfl⟩] at hp
      exact get?_fragmentOf_field row hp hname
    · next hr =>
      rw [if_neg fun q => hr (NodeRef.mk.injEq .. ▸ q)] at hp
      exact h.field_eq w hw k' fragment hf p hp hname
  container_eq e he hs k' fragment hf := by
    rw [Forest.fragment?_write] at hf
    split at hf
    · next hr =>
      obtain ⟨ha, rfl⟩ := NodeRef.mk.inj hr
      have hp := hg.coherent.eq_of_aliasName (hg.parent_mem he) hv ha
      cases hf
      show _ = some (e.contentOf (l.children e k'))
      rw [hc e he hp, e.contentOf_nil]
      exact get?_fragmentOf_container hg hv row he hp (hs.emptyContent_eq hg he)
    · exact h.container_eq e he hs k' fragment hf
  mem_links_iff e he hs k₀ k' := by
    rw [mem_children_addNode_iff hg hv hc _ he]
    exact h.mem_links_iff e he hs k₀ k'

/-- What the edges with shared containers have for children is not said. -/
theorem of_children_eq {m : Layout} (h : l.KeptIn g f) (hkeys : m.keys = l.keys)
    (hfields : m.fields = l.fields)
    (hchildren : ∀ e ∈ g.edges, g.Sole e → m.children e = l.children e) : m.KeptIn g f where
  aliases_eq := h.aliases_eq
  keys_eq v hv := by rw [hkeys, h.keys_eq v hv]
  field_eq v hv k fragment hf := by
    rw [hfields]
    exact h.field_eq v hv k fragment hf
  container_eq e he hs k fragment hf := by
    rw [hchildren e he hs]
    exact h.container_eq e he hs k fragment hf
  mem_links_iff e he hs k k' := by
    rw [hchildren e he hs, hkeys]
    exact h.mem_links_iff e he hs k k'

theorem addChild_iff (hg : g.Grown) {e : Edge} (he : e ∈ g.edges) (hs : ¬g.Sole e)
    (parent child : NodeKey) : (l.addChild e parent child).KeptIn g f ↔ l.KeptIn g f := by
  have hsame : ∀ e' ∈ g.edges, g.Sole e' →
      (l.addChild e parent child).children e' = l.children e' := by
    intro e' he' hs'
    funext k
    refine if_neg fun hq => hs ?_
    rwa [← hg.coherent.edge_unique he' he hq.1]
  constructor
  · exact fun h => h.of_children_eq rfl rfl fun e' he' hs' => (hsame e' he' hs').symm
  · exact fun h => h.of_children_eq rfl rfl hsame

section Linking

variable {e : Edge} {parent child : NodeKey}

/-- Attaching a node to the node of a parent changes the edge's own container only. -/
theorem attach (h : l.KeptIn g f) (hg : g.Grown) (he : e ∈ g.edges) {fragment fragment' : Fragment}
    (hf : f.fragment? ⟨e.parentAlias, parent⟩ = some fragment)
    (ha : Graph.attach e fragment ⟨e.aliasName, child⟩ = .ok fragment') :
    (l.addChild e parent child).KeptIn g { f.write ⟨e.parentAlias, parent⟩ fragment' with
      links := f.links ++ [⟨⟨e.parentAlias, parent⟩, e.container, child⟩] } := by
  have hv := hg.parent_mem he
  have hp : parent ∈ l.keys e.parent := (h.mem_keys_iff hv).2 ⟨fragment, hf⟩
  constructor
  · have hnodes := h.toNodesIn.write hg hv hp fragment'
    exact ⟨hnodes.aliases_eq, hnodes.keys_eq⟩
  · intro w hw k fragment₀ hf₀ p hmem hname
    change (f.write ⟨e.parentAlias, parent⟩ fragment').fragment? _ = _ at hf₀
    rw [Forest.fragment?_write] at hf₀
    split at hf₀
    · next hr =>
      obtain ⟨hq, rfl⟩ := NodeRef.mk.inj hr
      obtain rfl := hg.coherent.eq_of_aliasName hw hv hq
      cases hf₀
      have hne : p.1 ≠ e.container := by
        intro hq
        refine hname (hq ▸ List.mem_map_of_mem ?_)
        exact (hg.mem_edgesInto_iff hv).2 ⟨he, rfl⟩
      rw [get?_attach_of_ne ha hne]
      exact h.field_eq _ hw k fragment hf p hmem hname
    · exact h.field_eq w hw k fragment₀ hf₀ p hmem hname
  · intro e' he' hs' k fragment₀ hf₀
    change (f.write ⟨e.parentAlias, parent⟩ fragment').fragment? _ = _ at hf₀
    rw [Forest.fragment?_write] at hf₀
    split at hf₀
    · next hr =>
      obtain ⟨hq, rfl⟩ := NodeRef.mk.inj hr
      cases hf₀
      by_cases hsame : e'.aliasName = e.aliasName
      · obtain rfl := hg.coherent.edge_unique he' he hsame
        rw [attach_eq (hg.kind_eq e' he') (h.container_eq e' he' hs' k fragment hf)] at ha
        cases ha
        rw [OrderedMap.get?_insert_self]
        simp only [addChild, and_self, if_true]
      · have hne : e'.container ≠ e.container := fun hc =>
          hsame (hs' e he hq.symm hc.symm).symm
        rw [get?_attach_of_ne ha hne]
        simp only [addChild, hsame, false_and, if_false]
        exact h.container_eq e' he' hs' k fragment (hq ▸ hf)
    · next hr =>
      have hother : ¬(e'.aliasName = e.aliasName ∧ k = parent) := by
        rintro ⟨hq, rfl⟩
        obtain rfl := hg.coherent.edge_unique he' he hq
        exact hr rfl
      simp only [addChild, if_neg hother]
      exact h.container_eq e' he' hs' k fragment₀ hf₀
  · intro e' he' hs' k k'
    exact mem_links_addChild_iff hg he he' hp
      (fun hparents hcontainer => (hs' e he hparents.symm hcontainer.symm).symm)
      (h.mem_links_iff e' he' hs' k k')

/-- Linking a child that does not hang from its parent's node yet. -/
theorem link_new (h : l.KeptIn g f) (hg : g.Grown) (he : e ∈ g.edges)
    (hp : parent ∈ l.keys e.parent) (hc : child ∉ l.children e parent)
    (hl : link e f ⟨e.parentAlias, parent⟩ ⟨e.aliasName, child⟩ = .ok f') :
    (l.addChild e parent child).KeptIn g f' := by
  obtain ⟨rfl, hnone | hm⟩ | ⟨fragment, fragment', hf, -, ha, rfl⟩ := link_cases hl
  · obtain ⟨fragment, hf⟩ := (h.mem_keys_iff (hg.parent_mem he)).1 hp
    rw [show f'.fragment? ⟨e.parentAlias, parent⟩ = _ from hf] at hnone
    cases hnone
  · refine (addChild_iff hg he (fun hs => hc ?_) parent child).2 h
    exact ((h.mem_links_iff e he hs parent child).1 hm).2
  · exact h.attach hg he hf ha

/-- Linking a child that hangs from its parent's node already, if that exists. -/
theorem link_known (h : l.KeptIn g f) (hg : g.Grown) (he : e ∈ g.edges)
    (hc : parent ∈ l.keys e.parent → child ∈ l.children e parent)
    (hl : link e f ⟨e.parentAlias, parent⟩ ⟨e.aliasName, child⟩ = .ok f') : l.KeptIn g f' := by
  obtain ⟨rfl, -⟩ | ⟨fragment, fragment', hf, hm, ha, rfl⟩ := link_cases hl
  · exact h
  · have hp : parent ∈ l.keys e.parent := (h.mem_keys_iff (hg.parent_mem he)).2 ⟨fragment, hf⟩
    refine (addChild_iff hg he (fun hs => hm ?_) parent child).1 (h.attach hg he hf ha)
    exact (h.mem_links_iff e he hs parent child).2 ⟨hp, hc hp⟩

end Linking

end KeptIn

end Layout

namespace Graph

open Layout

/-! ## Steps and runs -/

section Consume

variable {g : Graph} {chains : KeyChains} {row : Row} {f f' : Forest} {v : Vertex}
  {seen : String → List Row}

/-- A key that was seen before changes nothing that is kept. -/
theorem Grown.keptIn_consume_of_known (hg : g.Grown) (hc : g.IsPrepared chains)
    (hrow : g.Keyed row) (hf : (g.layoutOf seen).KeptIn g f) (hv : v ∈ g.vertices)
    (hp : v.table.isPresent row = true) (hk : g.keyIn v row ∈ g.sightings (seen v.aliasName) v)
    (h : g.consume chains row f v = .ok f') : (g.layoutOf seen).KeptIn g f' := by
  obtain ⟨fragment, hfrag⟩ := (hf.mem_keys_iff hv).1 hk
  rw [hg.consume_of_present hc hv (hrow v hv hp) hp, Forest.file, hfrag] at h
  cases hedge : g.edge? v.aliasName with
  | none =>
    rw [hedge] at h
    cases h
    exact hf
  | some e =>
    rw [hedge] at h
    obtain ⟨he, rfl⟩ := (hg.coherent.edge?_eq_some_iff hv).1 hedge
    refine hf.link_known hg he (fun hparent => ?_) h
    exact List.mem_filter.2 ⟨hk, (isPrefixOf_sighting_iff hg he hparent).2 rfl⟩

/-- A new key is filed, and hangs from its parent's if that is there. -/
theorem Grown.keptIn_consume_of_new (hg : g.Grown) (hc : g.IsPrepared chains)
    (hseen : g.ParentsFirst seen) (hrow : g.Keyed row) (hf : (g.layoutOf seen).KeptIn g f)
    (hv : v ∈ g.vertices) (hp : v.table.isPresent row = true)
    (hnew : g.keyIn v row ∉ g.sightings (seen v.aliasName) v)
    (h : g.consume chains row f v = .ok f') : (g.layoutOf (look seen v row)).KeptIn g f' := by
  have hfile : f.file ⟨v.aliasName, g.keyIn v row⟩ (g.fragmentOf v row) =
      f.write ⟨v.aliasName, g.keyIn v row⟩ (g.fragmentOf v row) := by
    rw [Forest.file, hf.fragment?_eq_none hv hnew]
  have hnone : ∀ e ∈ g.edges, e.parent = v → (g.layoutOf seen).children e (g.keyIn v row) = [] := by
    rintro e he rfl
    exact childKeys_eq_nil hg hseen he (hrow _ hv hp) hp hnew
  have hfiled : (g.withNode seen v row).KeptIn g
      (f.write ⟨v.aliasName, g.keyIn v row⟩ (g.fragmentOf v row)) := hf.write hg hv hnew hnone row
  rw [hg.consume_of_present hc hv (hrow v hv hp) hp, hfile] at h
  cases hedge : g.edge? v.aliasName with
  | none =>
    rw [hedge] at h
    cases h
    refine hfiled.congr hg (agrees_look_of_unattached hg hv hp hnew fun e he hchild => ?_)
    have hsome := (hg.coherent.edge?_eq_some_iff hv).2 ⟨he, hchild⟩
    rw [hedge] at hsome
    cases hsome
  | some e =>
    rw [hedge] at h
    obtain ⟨he, rfl⟩ := (hg.coherent.edge?_eq_some_iff hv).1 hedge
    have hkeys : (g.withNode seen e.child row).keys e.parent =
        g.sightings (seen e.parentAlias) e.parent := withNode_keys_parent hg he
    by_cases hparent : g.keyIn e.parent row ∈ g.sightings (seen e.parentAlias) e.parent
    · have hfresh : g.keyIn e.child row ∉
          (g.withNode seen e.child row).children e (g.keyIn e.parent row) :=
        fun hm => hnew (List.mem_filter.1 hm).1
      have hlinked := hfiled.link_new hg he (hkeys ▸ hparent) hfresh h
      exact hlinked.congr hg (agrees_look_of_attached hg he hp hnew)
    · have hgone := hfiled.fragment?_eq_none (hg.parent_mem he) (hkeys ▸ hparent)
      obtain rfl := Except.ok.inj ((link_of_absent hgone).symm.trans h)
      refine hfiled.congr hg (agrees_look_of_unattached hg hv hp hnew fun e' he' hchild => ?_)
      obtain rfl := hg.coherent.edge_unique he' he (congrArg Vertex.aliasName hchild)
      exact hparent

/-- Showing a row to a vertex keeps what it should. -/
theorem Grown.keptIn_consume (hg : g.Grown) (hc : g.IsPrepared chains)
    (hseen : g.ParentsFirst seen) (hrow : g.Keyed row) (hf : (g.layoutOf seen).KeptIn g f)
    (hv : v ∈ g.vertices) (h : g.consume chains row f v = .ok f') :
    (g.layoutOf (look seen v row)).KeptIn g f' := by
  cases hp : v.table.isPresent row with
  | false =>
    rw [consume_of_absent hp] at h
    cases h
    exact hf.congr hg (agrees_look_of_known hg hv (sightings_concat_of_absent hp))
  | true =>
    by_cases hk : g.keyIn v row ∈ g.sightings (seen v.aliasName) v
    · have hsame : g.sightings (seen v.aliasName ++ [row]) v =
          g.sightings (seen v.aliasName) v := by
        rw [sightings_concat_of_present hp, if_pos hk]
      have hkept := hg.keptIn_consume_of_known hc hrow hf hv hp hk h
      exact hkept.congr hg (agrees_look_of_known hg hv hsame)
    · exact hg.keptIn_consume_of_new hc hseen hrow hf hv hp hk h

end Consume

section Runs

variable {g : Graph} {chains : KeyChains}

/-- Showing a row to all vertices keeps what it should. -/
theorem Grown.keptIn_consumeRow (hg : g.Grown) (hc : g.IsPrepared chains) {done : List Row}
    {row : Row} (hrow : g.Keyed row) {f f' : Forest}
    (hf : (g.layoutOf fun _ => done).KeptIn g f) (h : g.consumeRow chains f row = .ok f') :
    (g.layoutOf fun _ => done ++ [row]).KeptIn g f' := by
  have hn : (g.vertices.map Vertex.aliasName).Nodup := by
    rw [← hg.coherent.aliases_eq]
    exact Coherent.aliases_nodup g
  have hstart : (g.layoutOf (seenAlong done row [])).KeptIn g f := by
    refine hf.congr hg (agrees_of_seen_eq hg fun v _ => ?_)
    exact (if_neg List.not_mem_nil).symm
  have hrun : (g.layoutOf (seenAlong done row g.vertices)).KeptIn g f' := by
    refine foldlM_invariant (fun shown s => (g.layoutOf (seenAlong done row shown)).KeptIn g s) ?_
      hstart h
    intro shown v rest hs s s' hinv hconsume
    have hnew : v.aliasName ∉ shown.map Vertex.aliasName := by
      rw [hs, List.map_append, List.map_cons, List.nodup_append] at hn
      exact fun hm => hn.2.2 _ hm _ List.mem_cons_self rfl
    have hv : v ∈ g.vertices := hs ▸ List.mem_append_right _ List.mem_cons_self
    rw [← look_seenAlong hnew]
    exact hg.keptIn_consume hc (hg.parentsFirst_seenAlong hs done row) hrow hinv hv hconsume
  refine hrun.congr hg (agrees_of_seen_eq hg fun v hv => ?_)
  exact if_pos (List.mem_map_of_mem hv)

/-- Rows that make a forest have the keys of all tables that are present in them. -/
theorem keyed_of_forestOf (hc : g.IsPrepared chains)
    {rows : List Row} {f : Forest}
    (h : g.forestOf chains rows = .ok f) : ∀ row ∈ rows, g.Keyed row := by
  intro row hrow v hv hp
  obtain ⟨f₀, f₁, hconsumed, -⟩ :=
    exists_step_of_foldlM (fun _ _ _ h => consumeRow_within h) h hrow
  obtain ⟨s, s', hconsume, -⟩ :=
    exists_step_of_foldlM (fun _ _ _ h => consume_within h) hconsumed hv
  obtain ⟨key, hkey, -⟩ := filed_of_consume hconsume hp
  exact (of_filingKey_eq_ok (hc v hv) hkey).1

/-- If rows make a forest, it keeps what their grouping says. -/
theorem Grown.keptIn_forestOf (hg : g.Grown) (hc : g.IsPrepared chains) {rows : List Row}
    {f : Forest} (h : g.forestOf chains rows = .ok f) : (g.layoutOf fun _ => rows).KeptIn g f := by
  have hrows := keyed_of_forestOf hc h
  have hempty := describes_ofAliases g
  have hstart : (g.layoutOf fun _ => []).KeptIn g (Forest.ofAliases g.aliases) := by
    refine ⟨hempty.nodesIn, ?_, ?_, fun e he _ => hempty.mem_links_iff e he⟩
    · intro v _ k fragment hf
      rw [Forest.fragment?_ofAliases] at hf
      cases hf
    · intro e _ _ k fragment hf
      rw [Forest.fragment?_ofAliases] at hf
      cases hf
  refine foldlM_invariant (fun done s => (g.layoutOf fun _ => done).KeptIn g s) ?_ hstart h
  intro done row rest hs s s' hinv hrow
  have hkeyed : g.Keyed row := hrows row (hs ▸ List.mem_append_right _ List.mem_cons_self)
  exact hg.keptIn_consumeRow hc hkeyed hinv hrow

end Runs

/-! ## Folding succeeds -/

/-- The containers of all edges for lists hold lists. -/
def Listed (g : Graph) (f : Forest) : Prop :=
  ∀ e ∈ g.edges, e.kind = .multiple → ∀ k fragment,
    f.fragment? ⟨e.parentAlias, k⟩ = some fragment →
      ∃ rs, fragment.get? e.container = some (.many rs)

section Listing

variable {g : Graph} {chains : KeyChains} {f : Forest}

theorem Listed.file (hl : g.Listed f) (hg : g.Grown) (hk : g.KindsAgree) {v : Vertex}
    (hv : v ∈ g.vertices) (key : NodeKey) (row : Row) :
    g.Listed (f.file ⟨v.aliasName, key⟩ (g.fragmentOf v row)) := by
  intro e he hkind k fragment hf
  unfold Forest.file at hf
  split at hf
  · exact hl e he hkind k fragment hf
  · rw [Forest.fragment?_write] at hf
    split at hf
    · next hr =>
      cases hf
      have hp := hg.coherent.eq_of_aliasName (hg.parent_mem he) hv (NodeRef.mk.inj hr).1
      refine ⟨[], ?_⟩
      rw [get?_fragmentOf_container hg hv row he hp]
      · simp only [Edge.emptyContent, hkind]
      · intro e' he' hp' hc'
        rw [Edge.emptyContent, hk.kind_eq hg he he' hp' hc', Edge.emptyContent]
    · exact hl e he hkind k fragment hf

/-- Where the containers of lists hold lists, linking succeeds and leaves it so. -/
theorem Listed.exists_link (hl : g.Listed f) (hg : g.Grown) (hk : g.KindsAgree) {e : Edge}
    (he : e ∈ g.edges) (parent child : NodeKey) :
    ∃ f', link e f ⟨e.parentAlias, parent⟩ ⟨e.aliasName, child⟩ = .ok f' ∧ g.Listed f' := by
  unfold link
  cases hf : f.fragment? ⟨e.parentAlias, parent⟩ with
  | none => exact ⟨f, rfl, hl⟩
  | some fragment =>
    dsimp only
    split
    · exact ⟨f, rfl, hl⟩
    · have hattach : ∃ fragment', attach e fragment ⟨e.aliasName, child⟩ = .ok fragment' ∧
          (e.kind = .multiple → ∃ rs, fragment'.get? e.container = some (.many rs)) := by
        rcases hg.kind_eq e he with hkind | hkind
        · refine ⟨fragment.insert e.container (.one ⟨e.aliasName, child⟩), ?_, ?_⟩
          · simp only [attach, hkind]
          · rw [hkind]
            intro hq
            cases hq
        · obtain ⟨rs, hrs⟩ := hl e he hkind parent fragment hf
          refine ⟨fragment.insert e.container (.many (rs ++ [⟨e.aliasName, child⟩])), ?_, ?_⟩
          · simp only [attach, hkind, hrs, Content.append, Except.map]
          · exact fun _ => ⟨_, OrderedMap.get?_insert_self _ _ _⟩
      obtain ⟨fragment', ha, hown⟩ := hattach
      rw [ha]
      refine ⟨_, rfl, ?_⟩
      intro e' he' hkind' k fragment₀ hf₀
      change (f.write ⟨e.parentAlias, parent⟩ fragment').fragment? _ = _ at hf₀
      rw [Forest.fragment?_write] at hf₀
      split at hf₀
      · next hr =>
        obtain ⟨hp, rfl⟩ := NodeRef.mk.inj hr
        cases hf₀
        by_cases hc : e'.container = e.container
        · rw [hc]
          exact hown (by rw [← hk.kind_eq hg he he' hp hc, hkind'])
        · rw [get?_attach_of_ne ha hc]
          exact hl e' he' hkind' k fragment (hp ▸ hf)
      · exact hl e' he' hkind' k fragment₀ hf₀

theorem Listed.ofAliases (g : Graph) (aliases : List String) :
    g.Listed (Forest.ofAliases aliases) := by
  intro e _ _ k fragment hf
  rw [Forest.fragment?_ofAliases] at hf
  cases hf

/-- A vertex takes a row that has its key, if its table is present there. -/
theorem Listed.exists_consume (hl : g.Listed f) (hg : g.Grown) (hk : g.KindsAgree)
    (hc : g.IsPrepared chains) {v : Vertex} (hv : v ∈ g.vertices) {row : Row}
    (hrow : v.table.isPresent row = true →
      ∀ c ∈ g.chainOf v, (row.get? c).any Value.isScalar = true) :
    ∃ f', g.consume chains row f v = .ok f' ∧ g.Listed f' := by
  cases hp : v.table.isPresent row with
  | false => exact ⟨f, consume_of_absent hp, hl⟩
  | true =>
    rw [hg.consume_of_present hc hv (hrow hp) hp]
    have hfiled := hl.file hg hk hv (g.keyIn v row) row
    cases hedge : g.edge? v.aliasName with
    | none => exact ⟨_, rfl, hfiled⟩
    | some e =>
      obtain ⟨he, rfl⟩ := (hg.coherent.edge?_eq_some_iff hv).1 hedge
      exact hfiled.exists_link hg hk he _ _

/-- Folding rows succeeds if edges that share a container are of one kind. -/
theorem Grown.exists_forestOf_of_kindsAgree (hg : g.Grown) (hc : g.IsPrepared chains)
    (hk : g.KindsAgree) {rows : List Row} (hrows : ∀ r ∈ rows, g.Keyed r) :
    ∃ f, g.forestOf chains rows = .ok f := by
  have hrow : ∀ done row rest, rows = done ++ row :: rest → ∀ s, g.Listed s →
      ∃ s', g.consumeRow chains s row = .ok s' ∧ g.Listed s' := by
    intro done row rest hs s hinv
    have hkeyed := hrows row (hs ▸ List.mem_append_right _ List.mem_cons_self)
    refine foldlM_prefix (fun _ => g.Listed) ?_ hinv
    intro shown v others hvs s' hinv'
    have hv : v ∈ g.vertices := hvs ▸ List.mem_append_right _ List.mem_cons_self
    exact hinv'.exists_consume hg hk hc hv (hkeyed v hv)
  obtain ⟨f, hf, -⟩ := foldlM_prefix (fun _ => g.Listed) hrow (.ofAliases g g.aliases)
  exact ⟨f, hf⟩

end Listing

end Graph

end NestedJoin
