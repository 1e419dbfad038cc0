import NestedJoin.Proofs.FoldingAlike
import NestedJoin.Proofs.GraphTree
import NestedJoin.Proofs.Stepping
set_option autoImplicit false

/-!
# Links and items

A link is noted when a node is attached, and it is noted once.  Every child that is present in a
row with its parent has its link.  A link says which container of which node is meant and the key
of the child, but not the child's alias; so where edges share a container, the item behind a link
may have come through another edge than the one that is asked about.

Main statements: `Graph.Coherent.linkedIn_forestOf`, which says what is linked, and
`Graph.Coherent.itemized_forestOf`, which says what stands behind a link.
-/

namespace NestedJoin

namespace Graph

variable {g : Graph} {chains : KeyChains} {e : Edge} {own : Vertex}

/-! ## Rows and links -/

/-- Both tables of an edge are present in a row, and their nodes there are linked. -/
def LinkedIn (chains : KeyChains) (e : Edge) (own : Vertex) (row : Row) (f : Forest) : Prop :=
  own.table.isPresent row = true → e.child.table.isPresent row = true →
    ∃ k key, chains.filingKey own row = .ok k ∧ chains.filingKey e.child row = .ok key ∧
      ⟨⟨e.parentAlias, k⟩, e.container, key⟩ ∈ f.links

/-- A table that is present in a row has a node there. -/
def FiledIn (chains : KeyChains) (v : Vertex) (row : Row) (f : Forest) : Prop :=
  ∃ k, chains.filingKey v row = .ok k ∧ (f.fragment? ⟨v.aliasName, k⟩).isSome = true

theorem LinkedIn.within {row : Row} {f f' : Forest} (h : LinkedIn chains e own row f)
    (hf : f.Within f') : LinkedIn chains e own row f' := by
  intro hp hc
  obtain ⟨k, key, hk, hkey, hm⟩ := h hp hc
  exact ⟨k, key, hk, hkey, hf.link _ hm⟩

section Linked

variable (hg : g.Coherent) (he : e ∈ g.edges) (hown : g.find? e.parentAlias = some own)
  (hchain : chains.chainOf e.parent = chains.chainOf own)

include hg he hown hchain

/-- A row in which both tables of an edge are present links their nodes: the parent stands before
the child, so that its node is filed by then. -/
theorem Coherent.linkedIn_consumeRow {row : Row} {f f' : Forest}
    (h : g.consumeRow chains f row = .ok f') : LinkedIn chains e own row f' := by
  intro hp hc
  have halias : own.aliasName = e.parentAlias := hg.aliasName_of_find? hown
  have hownmem : own ∈ g.vertices := OrderedMap.mem_values_of_get? hown
  have hkeys : chains.filingKey e.parent row = chains.filingKey own row :=
    filingKey_congr halias.symm hchain row
  suffices hinv : (own ∈ g.vertices → FiledIn chains own row f') ∧
      (e.child ∈ g.vertices → LinkedIn chains e own row f') from hinv.2 (hg.child_mem he) hp hc
  refine foldlM_invariant (fun shown s => (own ∈ shown → FiledIn chains own row s) ∧
    (e.child ∈ shown → LinkedIn chains e own row s)) ?_ ?_ h
  · intro shown v rest hs s s' hinv hconsume
    have hv : v ∈ g.vertices := hs ▸ List.mem_append_right _ List.mem_cons_self
    have hwithin := consume_within hconsume
    constructor
    · intro hm
      rcases List.mem_append.1 hm with hm | hm
      · obtain ⟨k, hk, hfiled⟩ := hinv.1 hm
        exact ⟨k, hk, hwithin.node _ hfiled⟩
      · obtain rfl := List.mem_singleton.1 hm
        exact filed_of_consume hconsume hp
    · intro hm
      rcases List.mem_append.1 hm with hm | hm
      · exact (hinv.2 hm).within hwithin
      · obtain rfl := List.mem_singleton.1 hm
        have hbefore : own ∈ shown := by
          obtain ⟨w, hw, hwalias⟩ := List.mem_map.1 (hg.parent_before he hs)
          have hwmem : w ∈ g.vertices := hs ▸ List.mem_append_left _ hw
          rwa [← hg.eq_of_aliasName hwmem hownmem (hwalias.trans halias.symm)]
        obtain ⟨k, hk, hfiled⟩ := hinv.1 hbefore
        obtain ⟨key, k', hkey, hk', hlinked⟩ :=
          linked_of_consume hconsume hc ((hg.edge?_eq_some_iff hv).2 ⟨he, rfl⟩)
        rw [hkeys, hk] at hk'
        cases hk'
        exact fun _ _ => ⟨k, key, hk, hkey, hlinked (halias ▸ hfiled)⟩
  · exact ⟨fun hm => absurd hm List.not_mem_nil, fun hm => absurd hm List.not_mem_nil⟩

/-- Whatever rows come before and after. -/
theorem Coherent.linkedIn_forestOf {rows : List Row} {f : Forest}
    (h : g.forestOf chains rows = .ok f) : ∀ row ∈ rows, LinkedIn chains e own row f := by
  refine foldlM_invariant (fun done s => ∀ row ∈ done, LinkedIn chains e own row s) ?_
    (fun _ hm => absurd hm List.not_mem_nil) h
  intro done row rest _ s s' hinv hrow r hr
  rcases List.mem_append.1 hr with hr | hr
  · exact (hinv r hr).within (consumeRow_within hrow)
  · rw [List.mem_singleton.1 hr]
    exact hg.linkedIn_consumeRow he hown hchain hrow

end Linked

/-! ## Items behind links -/

/-- The list in the container of an edge has an item of a key, which some row brought through an
edge with this container. -/
def HasItem (g : Graph) (chains : KeyChains) (rows : List Row) (e : Edge) (k key : NodeKey)
    (fragment : Fragment) : Prop :=
  ∃ items, fragment.get? e.container = some (.many items) ∧
    ∃ e' ∈ g.edges, e'.parentAlias = e.parentAlias ∧ e'.container = e.container ∧
      ⟨e'.aliasName, key⟩ ∈ items ∧
      ∃ row ∈ rows, e'.child.table.isPresent row = true ∧
        chains.filingKey e'.parent row = .ok k ∧ chains.filingKey e'.child row = .ok key

/-- Behind every link into the container of an edge there is an item. -/
def Itemized (g : Graph) (chains : KeyChains) (rows : List Row) (e : Edge) (f : Forest) : Prop :=
  ∀ k key, ⟨⟨e.parentAlias, k⟩, e.container, key⟩ ∈ f.links →
    ∃ fragment, f.fragment? ⟨e.parentAlias, k⟩ = some fragment ∧
      g.HasItem chains rows e k key fragment

section Items

variable {rows : List Row} {f f' : Forest} {e₁ : Edge} {fragment fragment' : Fragment}

/-- An item stays where it is if another one is attached, unless that is a single one in the place
of the list. -/
theorem HasItem.attach {k key : NodeKey} {child : NodeRef}
    (h : g.HasItem chains rows e k key fragment)
    (hmany : e₁.container = e.container → e₁.kind = .multiple)
    (ha : Graph.attach e₁ fragment child = .ok fragment') :
    g.HasItem chains rows e k key fragment' := by
  obtain ⟨items, hget, e', he', hp', hc', hitem, hseen⟩ := h
  by_cases hc : e.container = e₁.container
  · obtain ⟨hsingle, -⟩ | ⟨items', -, hget', rfl⟩ := attach_cases ha
    · rw [hmany hc.symm] at hsingle
      cases hsingle
    · rw [← hc, hget] at hget'
      cases hget'
      exact ⟨_, by rw [hc, OrderedMap.get?_insert_self], e', he', hp', hc',
        List.mem_append_left _ hitem, hseen⟩
  · exact ⟨items, by rw [get?_attach_of_ne ha hc, hget], e', he', hp', hc', hitem, hseen⟩

theorem Itemized.file (h : g.Itemized chains rows e f) (r : NodeRef) (fragment : Fragment) :
    g.Itemized chains rows e (f.file r fragment) := by
  unfold Forest.file
  split
  · exact h
  · next hnone =>
    intro k key hm
    obtain ⟨fragment', hf, hitem⟩ := h k key hm
    refine ⟨fragment', ?_, hitem⟩
    rw [Forest.fragment?_write, if_neg]
    · exact hf
    · rintro rfl
      rw [hf] at hnone
      cases hnone

/-- If all edges that share the container are for lists, a new link brings its item along. -/
theorem Itemized.link (h : g.Itemized chains rows e f) (he₁ : e₁ ∈ g.edges)
    (hmany : e₁.parentAlias = e.parentAlias → e₁.container = e.container → e₁.kind = .multiple)
    {row : Row} (hrow : row ∈ rows) (hp : e₁.child.table.isPresent row = true) {k₁ key₁ : NodeKey}
    (hk : chains.filingKey e₁.parent row = .ok k₁)
    (hkey : chains.filingKey e₁.child row = .ok key₁)
    (hl : Graph.link e₁ f ⟨e₁.parentAlias, k₁⟩ ⟨e₁.aliasName, key₁⟩ = .ok f') :
    g.Itemized chains rows e f' := by
  obtain ⟨rfl, -⟩ | ⟨fragment, fragment', hf, -, ha, rfl⟩ := link_cases hl
  · exact h
  intro k key hm
  have hwrite := f.fragment?_write ⟨e₁.parentAlias, k₁⟩ ⟨e.parentAlias, k⟩ fragment'
  rcases List.mem_append.1 hm with hm | hm
  · obtain ⟨fragment₀, hf₀, hitem⟩ := h k key hm
    split at hwrite
    · next hr =>
      rw [← hr, hf₀] at hf
      cases hf
      exact ⟨fragment', hwrite, hitem.attach (hmany (NodeRef.mk.inj hr).1.symm) ha⟩
    · exact ⟨fragment₀, hwrite.trans hf₀, hitem⟩
  · obtain ⟨hr, hc, rfl⟩ := Link.mk.inj (List.mem_singleton.1 hm)
    obtain ⟨hparent, rfl⟩ := NodeRef.mk.inj hr
    rw [if_pos hr] at hwrite
    obtain ⟨hsingle, -⟩ | ⟨items, -, -, rfl⟩ := attach_cases ha
    · rw [hmany hparent.symm hc.symm] at hsingle
      cases hsingle
    · exact ⟨_, hwrite, _, by rw [hc, OrderedMap.get?_insert_self], e₁, he₁, hparent.symm, hc.symm,
        List.mem_append_right _ List.mem_cons_self, row, hrow, hp, hk, hkey⟩

/-- Behind the links into a container that edges for lists share there are items. -/
theorem Coherent.itemized_forestOf (hg : g.Coherent)
    (hmany : ∀ e' ∈ g.edges, e'.parentAlias = e.parentAlias → e'.container = e.container →
      e'.kind = .multiple)
    (h : g.forestOf chains rows = .ok f) : g.Itemized chains rows e f := by
  refine forestOf_invariant (g.Itemized chains rows e) ?_ ?_ h
  · intro k key hm
    cases hm
  · intro row hrow v hv s s' hs hconsume
    obtain ⟨-, rfl⟩ | ⟨key, hp, hkey, ⟨-, rfl⟩ | ⟨e₁, k, he₁, hk, hl⟩⟩ := consume_cases hconsume
    · exact hs
    · exact hs.file _ _
    · obtain ⟨hmem, rfl⟩ := (hg.edge?_eq_some_iff hv).1 he₁
      exact (hs.file _ _).link hmem (hmany e₁ hmem) hrow hp hk hkey hl

end Items

end Graph

end NestedJoin
