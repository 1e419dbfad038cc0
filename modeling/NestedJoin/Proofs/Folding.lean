import NestedJoin.Proofs.Grouping
import NestedJoin.Proofs.Layout
set_option autoImplicit false

/-!
# Folding rows

Between two steps of folding every vertex has seen a number of rows, and all that the forest
holds follows from them: its layout is the grouping of the rows seen.  A step shows one row to
one vertex; a run shows every row to every vertex.

Main statements: `Graph.Grown.exists_consume`, one step keeps the forest described, and
`Graph.Grown.exists_forestOf`, folding succeeds and its forest is described by all rows.
-/

namespace NestedJoin

namespace Graph

/-! ## Rows seen by vertices -/

/-- The layout of the forest once every vertex has seen some rows. -/
def layoutOf (g : Graph) (seen : String → List Row) : Layout where
  keys v := g.sightings (seen v.aliasName) v
  fields v k := g.fieldEntries (seen v.aliasName) v k
  children e k := g.childKeys (seen e.aliasName) e k

/-- The rows seen once one vertex has seen one more. -/
def look (seen : String → List Row) (v : Vertex) (row : Row) : String → List Row :=
  fun a => if a = v.aliasName then seen a ++ [row] else seen a

/-- A parent has seen every row that its child has seen. -/
def ParentsFirst (g : Graph) (seen : String → List Row) : Prop :=
  ∀ e ∈ g.edges, ∀ r ∈ seen e.aliasName, r ∈ seen e.parentAlias

section Step

variable {g : Graph} {seen : String → List Row} {row : Row} {v : Vertex}

theorem look_self : look seen v row v.aliasName = seen v.aliasName ++ [row] := if_pos rfl

theorem look_of_ne {w : Vertex} (h : w.aliasName ≠ v.aliasName) :
    look seen v row w.aliasName = seen w.aliasName := if_neg h

/-- A row that brings no new key changes nothing. -/
theorem agrees_look_of_known (hg : g.Grown) (hv : v ∈ g.vertices)
    (h : g.sightings (seen v.aliasName ++ [row]) v = g.sightings (seen v.aliasName) v) :
    (g.layoutOf seen).Agrees (g.layoutOf (look seen v row)) g := by
  have hkeys : ∀ w ∈ g.vertices,
      (g.layoutOf seen).keys w = (g.layoutOf (look seen v row)).keys w := by
    intro w hw
    by_cases ha : w.aliasName = v.aliasName
    · obtain rfl := hg.coherent.eq_of_aliasName hw hv ha
      simp only [layoutOf, look_self, h]
    · simp only [layoutOf, look_of_ne ha]
  refine ⟨hkeys, ?_, ?_⟩
  · intro w hw k hk
    by_cases ha : w.aliasName = v.aliasName
    · obtain rfl := hg.coherent.eq_of_aliasName hw hv ha
      simp only [layoutOf, look_self]
      exact (fieldEntries_concat_of_mem hk).symm
    · simp only [layoutOf, look_of_ne ha]
  · intro e he k _
    have hchild := hkeys e.child (hg.coherent.child_mem he)
    show ((g.layoutOf seen).keys e.child).filter k.isPrefixOf = _
    rw [hchild]
    rfl

/-- The layout with the node of a row's new key. -/
def withNode (g : Graph) (seen : String → List Row) (v : Vertex) (row : Row) : Layout :=
  (g.layoutOf seen).addNode v (g.keyIn v row) (v.table.extractEntries row)

theorem withNode_keys (hg : g.Grown) (hv : v ∈ g.vertices) (hp : v.table.isPresent row = true)
    (hnew : g.keyIn v row ∉ g.sightings (seen v.aliasName) v) {w : Vertex} (hw : w ∈ g.vertices) :
    (g.withNode seen v row).keys w = (g.layoutOf (look seen v row)).keys w := by
  by_cases ha : w.aliasName = v.aliasName
  · obtain rfl := hg.coherent.eq_of_aliasName hw hv ha
    simp only [withNode, Layout.addNode, layoutOf, look_self, if_true]
    rw [sightings_concat_of_present hp, if_neg hnew]
  · simp only [withNode, Layout.addNode, layoutOf, look_of_ne ha, if_neg ha]

theorem withNode_fields (hg : g.Grown) (hv : v ∈ g.vertices) (hp : v.table.isPresent row = true)
    (hnew : g.keyIn v row ∉ g.sightings (seen v.aliasName) v) {w : Vertex} (hw : w ∈ g.vertices)
    {k : NodeKey} (hk : k ∈ (g.withNode seen v row).keys w) :
    (g.withNode seen v row).fields w k = (g.layoutOf (look seen v row)).fields w k := by
  by_cases ha : w.aliasName = v.aliasName
  · obtain rfl := hg.coherent.eq_of_aliasName hw hv ha
    simp only [withNode, Layout.addNode, layoutOf, look_self, if_true, true_and] at hk ⊢
    split
    · next hq =>
      rw [hq, fieldEntries_concat_of_new hp hnew]
    · next hq =>
      rw [List.mem_append, List.mem_singleton, or_iff_left hq] at hk
      exact (fieldEntries_concat_of_mem hk).symm
  · simp only [withNode, Layout.addNode, layoutOf, look_of_ne ha, ha, false_and, if_false]

/-- The node of a child leaves the keys of its parent alone. -/
theorem withNode_keys_parent (hg : g.Grown) {e : Edge} (he : e ∈ g.edges) :
    (g.withNode seen e.child row).keys e.parent = g.sightings (seen e.parentAlias) e.parent :=
  if_neg (hg.parent_ne_child he)

/-- Among the keys of a parent's, a row's child hangs from the one that the row holds. -/
theorem isPrefixOf_sighting_iff (hg : g.Grown) {e : Edge} (he : e ∈ g.edges) {rows : List Row}
    {k : NodeKey} (hk : k ∈ g.sightings rows e.parent) :
    k.isPrefixOf (g.keyIn e.child row) = true ↔ k = g.keyIn e.parent row := by
  obtain ⟨r, -, -, rfl⟩ := mem_sightings_iff.1 hk
  exact hg.isPrefixOf_keyIn_iff he

/-- Nothing hangs yet from a key that is new. -/
theorem childKeys_eq_nil (hg : g.Grown) (hseen : g.ParentsFirst seen) {e : Edge}
    (he : e ∈ g.edges) (hk : ∀ c ∈ g.chainOf e.parent, (row.get? c).any Value.isScalar = true)
    (hp : e.parent.table.isPresent row = true)
    (hnew : g.keyIn e.parent row ∉ g.sightings (seen e.parentAlias) e.parent) :
    g.childKeys (seen e.aliasName) e (g.keyIn e.parent row) = [] := by
  refine List.filter_eq_nil_iff.2 fun k hchildren hstarts => hnew ?_
  obtain ⟨r, hr, hchild, rfl⟩ := mem_sightings_iff.1 hchildren
  have hsame := (hg.isPrefixOf_keyIn_iff he).1 hstarts
  have hparent := hg.isPresent_of_keyIn_eq (hg.parent_mem he) hk hp hsame
  exact mem_sightings_iff.2 ⟨r, hseen e he r hr, hparent, hsame.symm⟩

/-- A new node that hangs from no key of a parent's. -/
theorem agrees_look_of_unattached (hg : g.Grown) (hv : v ∈ g.vertices)
    (hp : v.table.isPresent row = true)
    (hnew : g.keyIn v row ∉ g.sightings (seen v.aliasName) v)
    (hnone : ∀ e ∈ g.edges, e.child = v →
      g.keyIn e.parent row ∉ g.sightings (seen e.parentAlias) e.parent) :
    (g.withNode seen v row).Agrees (g.layoutOf (look seen v row)) g where
  keys_eq _ hw := withNode_keys hg hv hp hnew hw
  fields_eq _ hw _ hk := withNode_fields hg hv hp hnew hw hk
  children_eq := by
    intro e he k hk
    by_cases ha : e.child = v
    · subst ha
      rw [withNode_keys_parent hg he] at hk
      have hnot : ¬k.isPrefixOf (g.keyIn e.child row) = true := by
        rw [isPrefixOf_sighting_iff hg he hk]
        rintro rfl
        exact hnone e he rfl hk
      show _ = (((g.layoutOf (look seen e.child row)).keys e.child).filter k.isPrefixOf)
      rw [← withNode_keys hg hv hp hnew hv]
      simp only [withNode, Layout.addNode, if_true, List.filter_append,
        List.filter_cons_of_neg hnot, List.filter_nil, List.append_nil]
      rfl
    · have hne : e.child.aliasName ≠ v.aliasName := fun q =>
        ha (hg.coherent.eq_of_aliasName (hg.coherent.child_mem he) hv q)
      show g.childKeys (seen e.child.aliasName) e k =
        g.childKeys (look seen v row e.child.aliasName) e k
      rw [look_of_ne hne]

/-- A new node that hangs from a key of its parent's. -/
theorem agrees_look_of_attached (hg : g.Grown) {e : Edge} (he : e ∈ g.edges)
    (hp : e.child.table.isPresent row = true)
    (hnew : g.keyIn e.child row ∉ g.sightings (seen e.aliasName) e.child) :
    ((g.withNode seen e.child row).addChild e (g.keyIn e.parent row) (g.keyIn e.child row)).Agrees
      (g.layoutOf (look seen e.child row)) g where
  keys_eq _ hw := withNode_keys hg (hg.coherent.child_mem he) hp hnew hw
  fields_eq _ hw _ hk := withNode_fields hg (hg.coherent.child_mem he) hp hnew hw hk
  children_eq := by
    intro e' he' k hk
    have hv := hg.coherent.child_mem he
    by_cases ha : e'.aliasName = e.aliasName
    · obtain rfl := hg.coherent.edge_unique he' he ha
      have hparent : k ∈ g.sightings (seen e'.parentAlias) e'.parent := by
        rw [← withNode_keys_parent hg he]
        exact hk
      have hstarts : k.isPrefixOf (g.keyIn e'.child row) = true ↔ k = g.keyIn e'.parent row :=
        isPrefixOf_sighting_iff hg he hparent
      show _ = (((g.layoutOf (look seen e'.child row)).keys e'.child).filter k.isPrefixOf)
      rw [← withNode_keys hg hv hp hnew hv]
      simp only [withNode, Layout.addNode, Layout.addChild, if_true, List.filter_append, true_and]
      by_cases hk' : k = g.keyIn e'.parent row
      · rw [if_pos hk', List.filter_cons_of_pos (hstarts.2 hk')]
        rfl
      · rw [if_neg hk', List.filter_cons_of_neg (fun q => hk' (hstarts.1 q)), List.filter_nil,
          List.append_nil]
        rfl
    · show (if e'.aliasName = e.aliasName ∧ _ then _ else g.childKeys (seen e'.aliasName) e' k) =
        g.childKeys (look seen e.child row e'.child.aliasName) e' k
      rw [look_of_ne ha, if_neg fun q => ha q.1]
      rfl

end Step

/-! ## One step -/

/-- The fragment of a row holds the fields found in it and an empty container for every edge. -/
theorem entries_fragmentOf {g : Graph} (ha : g.ContainersApart) {v : Vertex} (hv : v ∈ g.vertices)
    (row : Row) :
    (g.fragmentOf v row).entries =
      (v.table.extractEntries row).map (fun p => (p.1, .data p.2)) ++
        (g.edgesInto v.aliasName).map fun e => (e.container, e.emptyContent) := by
  have hkeys : ((v.table.extract row).mapValues fun _ x => Content.data x).keys =
      (v.table.extractEntries row).map Prod.fst := OrderedMap.keys_mapValues _ _
  rw [fragmentOf_eq_insertAll, OrderedMap.entries_insertAll_of_nodup]
  · rfl
  · rw [hkeys, List.map_map]
    exact (ha v hv).sublist ((v.table.extractEntries_keys_sublist row).append_right _)

section Consume

variable {g : Graph} {chains : KeyChains} {row : Row} {f : Forest} {v : Vertex}

/-- A row that has a key for a child has one for its parent, too. -/
theorem Grown.filingKey_parent (hg : g.Grown) (hc : g.IsPrepared chains) {e : Edge}
    (he : e ∈ g.edges) (hk : ∀ c ∈ g.chainOf e.child, (row.get? c).any Value.isScalar = true) :
    chains.filingKey e.parent row = .ok (g.keyIn e.parent row) := by
  refine filingKey_eq (hc e.parent (hg.parent_mem he)) fun c hm => hk c ?_
  rw [hg.chainOf_child he]
  exact List.mem_append_left _ hm

/-- A table that is present in a row has its node filed there and linked to its parent's. -/
theorem Grown.consume_of_present (hg : g.Grown) (hc : g.IsPrepared chains) (hv : v ∈ g.vertices)
    (hk : ∀ c ∈ g.chainOf v, (row.get? c).any Value.isScalar = true)
    (hp : v.table.isPresent row = true) :
    g.consume chains row f v =
      match g.edge? v.aliasName with
      | none => .ok (f.file ⟨v.aliasName, g.keyIn v row⟩ (g.fragmentOf v row))
      | some e =>
        link e (f.file ⟨v.aliasName, g.keyIn v row⟩ (g.fragmentOf v row))
          ⟨e.parentAlias, g.keyIn e.parent row⟩ ⟨v.aliasName, g.keyIn v row⟩ := by
  simp only [consume, hp, if_true, filingKey_eq (hc v hv) hk, bind, Except.bind]
  cases hedge : g.edge? v.aliasName with
  | none => rfl
  | some e =>
    obtain ⟨he, rfl⟩ := (hg.coherent.edge?_eq_some_iff hv).1 hedge
    simp only [hg.filingKey_parent hc he hk]

theorem link_of_absent {e : Edge} {parent child : NodeRef} (h : f.fragment? parent = none) :
    link e f parent child = .ok f := by
  rw [link, h]

theorem link_of_linked {e : Edge} {parent child : NodeRef}
    (h : ⟨parent, e.container, child.key⟩ ∈ f.links) : link e f parent child = .ok f := by
  unfold link
  split
  · rfl
  · exact if_pos h

variable {seen : String → List Row}

/-- A key that was seen before is filed and linked already. -/
theorem Grown.consume_of_known (hg : g.Grown) (hc : g.IsPrepared chains)
    (hf : (g.layoutOf seen).Describes g f) (hv : v ∈ g.vertices)
    (hheld : ∀ c ∈ g.chainOf v, (row.get? c).any Value.isScalar = true)
    (hp : v.table.isPresent row = true)
    (hk : g.keyIn v row ∈ g.sightings (seen v.aliasName) v) :
    g.consume chains row f v = .ok f := by
  obtain ⟨fragment, hfrag⟩ := (hf.mem_keys_iff hv).1 hk
  rw [hg.consume_of_present hc hv hheld hp, Forest.file, hfrag]
  cases hedge : g.edge? v.aliasName with
  | none => rfl
  | some e =>
    obtain ⟨he, rfl⟩ := (hg.coherent.edge?_eq_some_iff hv).1 hedge
    show link e f _ _ = .ok f
    by_cases hparent : g.keyIn e.parent row ∈ g.sightings (seen e.parentAlias) e.parent
    · have hstarts : (g.keyIn e.parent row).isPrefixOf (g.keyIn e.child row) = true :=
        (isPrefixOf_sighting_iff hg he hparent).2 rfl
      have hchild : g.keyIn e.child row ∈ g.childKeys (seen e.aliasName) e (g.keyIn e.parent row) :=
        List.mem_filter.2 ⟨hk, hstarts⟩
      exact link_of_linked ((hf.mem_links_iff e he _ _).2 ⟨hparent, hchild⟩)
    · exact link_of_absent (hf.fragment?_eq_none (hg.parent_mem he) hparent)

/-- A new key is filed, and linked if its parent's is there. -/
theorem Grown.exists_consume_of_new (hg : g.Grown) (hc : g.IsPrepared chains)
    (hapart : g.ContainersApart) (hseen : g.ParentsFirst seen)
    (hf : (g.layoutOf seen).Describes g f) (hv : v ∈ g.vertices)
    (hheld : ∀ c ∈ g.chainOf v, (row.get? c).any Value.isScalar = true)
    (hp : v.table.isPresent row = true)
    (hnew : g.keyIn v row ∉ g.sightings (seen v.aliasName) v) :
    ∃ f', g.consume chains row f v = .ok f' ∧ (g.layoutOf (look seen v row)).Describes g f' := by
  have hfile : f.file ⟨v.aliasName, g.keyIn v row⟩ (g.fragmentOf v row) =
      f.write ⟨v.aliasName, g.keyIn v row⟩ (g.fragmentOf v row) := by
    rw [Forest.file, hf.fragment?_eq_none hv hnew]
  have hnone : ∀ e ∈ g.edges, e.parent = v → (g.layoutOf seen).children e (g.keyIn v row) = [] := by
    rintro e he rfl
    exact childKeys_eq_nil hg hseen he hheld hp hnew
  have hfiled : (g.withNode seen v row).Describes g
      (f.write ⟨v.aliasName, g.keyIn v row⟩ (g.fragmentOf v row)) :=
    hf.write hg hv hnew hnone (entries_fragmentOf hapart hv row)
  rw [hg.consume_of_present hc hv hheld hp, hfile]
  cases hedge : g.edge? v.aliasName with
  | none =>
    have hroot : ∀ e ∈ g.edges, e.child = v →
        g.keyIn e.parent row ∉ g.sightings (seen e.parentAlias) e.parent := by
      intro e he hchild
      have hsome := (hg.coherent.edge?_eq_some_iff hv).2 ⟨he, hchild⟩
      rw [hedge] at hsome
      cases hsome
    exact ⟨_, rfl, hfiled.congr hg (agrees_look_of_unattached hg hv hp hnew hroot)⟩
  | some e =>
    obtain ⟨he, rfl⟩ := (hg.coherent.edge?_eq_some_iff hv).1 hedge
    have hkeys : (g.withNode seen e.child row).keys e.parent =
        g.sightings (seen e.parentAlias) e.parent := withNode_keys_parent hg he
    by_cases hparent : g.keyIn e.parent row ∈ g.sightings (seen e.parentAlias) e.parent
    · have hfresh : g.keyIn e.child row ∉
          (g.withNode seen e.child row).children e (g.keyIn e.parent row) :=
        fun hm => hnew (List.mem_filter.1 hm).1
      obtain ⟨f', hlink, hf'⟩ := hfiled.link hg he (hkeys ▸ hparent) hfresh
      exact ⟨f', hlink, hf'.congr hg (agrees_look_of_attached hg he hp hnew)⟩
    · have hgone := hfiled.fragment?_eq_none (hg.parent_mem he) (hkeys ▸ hparent)
      refine ⟨_, link_of_absent hgone, hfiled.congr hg ?_⟩
      refine agrees_look_of_unattached hg hv hp hnew fun e' he' hchild => ?_
      obtain rfl := hg.coherent.edge_unique he' he (congrArg Vertex.aliasName hchild)
      exact hparent

/-- Showing a row to a vertex keeps the forest described. -/
theorem Grown.exists_consume (hg : g.Grown) (hc : g.IsPrepared chains)
    (hapart : g.ContainersApart) (hseen : g.ParentsFirst seen)
    (hf : (g.layoutOf seen).Describes g f) (hv : v ∈ g.vertices)
    (hheld : v.table.isPresent row = true →
      ∀ c ∈ g.chainOf v, (row.get? c).any Value.isScalar = true) :
    ∃ f', g.consume chains row f v = .ok f' ∧ (g.layoutOf (look seen v row)).Describes g f' := by
  cases hp : v.table.isPresent row with
  | false =>
    have hsame : g.sightings (seen v.aliasName ++ [row]) v = g.sightings (seen v.aliasName) v :=
      sightings_concat_of_absent hp
    exact ⟨f, consume_of_absent hp, hf.congr hg (agrees_look_of_known hg hv hsame)⟩
  | true =>
    by_cases hk : g.keyIn v row ∈ g.sightings (seen v.aliasName) v
    · have hsame :
          g.sightings (seen v.aliasName ++ [row]) v = g.sightings (seen v.aliasName) v := by
        rw [sightings_concat_of_present hp, if_pos hk]
      exact ⟨f, hg.consume_of_known hc hf hv (hheld hp) hp hk,
        hf.congr hg (agrees_look_of_known hg hv hsame)⟩
    · exact hg.exists_consume_of_new hc hapart hseen hf hv (hheld hp) hp hk

end Consume

/-! ## Runs -/

/-- The rows seen while a row is shown to the vertices in order. -/
def seenAlong (done : List Row) (row : Row) (shown : List Vertex) : String → List Row :=
  fun a => if a ∈ shown.map Vertex.aliasName then done ++ [row] else done

section Runs

variable {g : Graph} {chains : KeyChains}

theorem agrees_of_seen_eq {seen seen' : String → List Row} (hg : g.Grown)
    (h : ∀ v ∈ g.vertices, seen v.aliasName = seen' v.aliasName) :
    (g.layoutOf seen).Agrees (g.layoutOf seen') g where
  keys_eq v hv := by simp only [layoutOf, h v hv]
  fields_eq v hv k _ := by simp only [layoutOf, h v hv]
  children_eq e he k _ := by
    have hchild : seen e.aliasName = seen' e.aliasName := h e.child (hg.coherent.child_mem he)
    simp only [layoutOf, hchild]

theorem look_seenAlong {done : List Row} {row : Row} {shown : List Vertex} {v : Vertex}
    (h : v.aliasName ∉ shown.map Vertex.aliasName) :
    look (seenAlong done row shown) v row = seenAlong done row (shown ++ [v]) := by
  funext a
  simp only [look, seenAlong, List.map_append, List.map_cons, List.map_nil, List.mem_append,
    List.mem_singleton]
  by_cases ha : a = v.aliasName
  · rw [if_pos ha, if_neg (ha ▸ h), if_pos (Or.inr ha)]
  · simp only [if_neg ha, or_iff_left ha]

/-- The vertices stand in an order in which parents see every row first. -/
theorem Grown.parentsFirst_seenAlong (hg : g.Grown) {shown rest : List Vertex}
    (hs : g.vertices = shown ++ rest) (done : List Row) (row : Row) :
    g.ParentsFirst (seenAlong done row shown) := by
  intro e he r hr
  simp only [seenAlong] at hr ⊢
  by_cases hchild : e.aliasName ∈ shown.map Vertex.aliasName
  · obtain ⟨w, hw, ha⟩ := List.mem_map.1 hchild
    have hmem : w ∈ g.vertices := hs ▸ List.mem_append_left _ hw
    obtain rfl := hg.coherent.eq_of_aliasName hmem (hg.coherent.child_mem he) ha
    obtain ⟨before, after, hsplit⟩ := List.append_of_mem hw
    have hvertices : g.vertices = before ++ e.child :: (after ++ rest) := by
      rw [hs, hsplit, List.append_assoc, List.cons_append]
    have hparent := hg.coherent.parent_before he hvertices
    have hshown : e.parentAlias ∈ shown.map Vertex.aliasName := by
      rw [hsplit, List.map_append]
      exact List.mem_append_left _ hparent
    rw [if_pos hchild] at hr
    rwa [if_pos hshown]
  · rw [if_neg hchild] at hr
    split
    · exact List.mem_append_left _ hr
    · exact hr

/-- Showing a row to the next vertex in order keeps the forest described. -/
theorem Grown.exists_consume_seenAlong (hg : g.Grown) (hc : g.IsPrepared chains)
    (hapart : g.ContainersApart) {done : List Row} {row : Row} {shown rest : List Vertex}
    {v : Vertex} (hs : g.vertices = shown ++ v :: rest) {f : Forest}
    (hf : (g.layoutOf (seenAlong done row shown)).Describes g f)
    (hheld : v.table.isPresent row = true →
      ∀ c ∈ g.chainOf v, (row.get? c).any Value.isScalar = true) :
    ∃ f', g.consume chains row f v = .ok f' ∧
      (g.layoutOf (seenAlong done row (shown ++ [v]))).Describes g f' := by
  have hn : (g.vertices.map Vertex.aliasName).Nodup := by
    rw [← hg.coherent.aliases_eq]
    exact Coherent.aliases_nodup g
  have hnew : v.aliasName ∉ shown.map Vertex.aliasName := by
    rw [hs, List.map_append, List.map_cons, List.nodup_append] at hn
    exact fun hm => hn.2.2 _ hm _ List.mem_cons_self rfl
  have hv : v ∈ g.vertices := hs ▸ List.mem_append_right _ List.mem_cons_self
  have hfirst := hg.parentsFirst_seenAlong hs done row
  rw [← look_seenAlong hnew]
  exact hg.exists_consume hc hapart hfirst hf hv hheld

/-- A row that is yet to be shown has not been seen by anyone. -/
theorem Grown.describes_seenAlong_nil (hg : g.Grown) {done : List Row} {f : Forest}
    (hf : (g.layoutOf fun _ => done).Describes g f) (row : Row) :
    (g.layoutOf (seenAlong done row [])).Describes g f := by
  refine hf.congr hg (agrees_of_seen_eq hg fun v _ => ?_)
  exact (if_neg List.not_mem_nil).symm

/-- Showing a row to all vertices keeps the forest described. -/
theorem Grown.exists_consumeRow (hg : g.Grown) (hc : g.IsPrepared chains)
    (hapart : g.ContainersApart) {done : List Row} {row : Row} (hrow : g.Keyed row) {f : Forest}
    (hf : (g.layoutOf fun _ => done).Describes g f) :
    ∃ f', g.consumeRow chains f row = .ok f' ∧
      (g.layoutOf fun _ => done ++ [row]).Describes g f' := by
  have hstep : ∀ shown v rest, g.vertices = shown ++ v :: rest → ∀ s,
      (g.layoutOf (seenAlong done row shown)).Describes g s →
        ∃ s', g.consume chains row s v = .ok s' ∧
          (g.layoutOf (seenAlong done row (shown ++ [v]))).Describes g s' := by
    intro shown v rest hs s hinv
    have hv : v ∈ g.vertices := hs ▸ List.mem_append_right _ List.mem_cons_self
    exact hg.exists_consume_seenAlong hc hapart hs hinv (hrow v hv)
  obtain ⟨f', hrun, hf'⟩ := foldlM_prefix _ hstep (hg.describes_seenAlong_nil hf row)
  refine ⟨f', hrun, hf'.congr hg (agrees_of_seen_eq hg fun v hv => ?_)⟩
  exact if_pos (List.mem_map_of_mem hv)

/-- No rows leave an empty forest. -/
theorem describes_ofAliases (g : Graph) :
    (g.layoutOf fun _ => []).Describes g (Forest.ofAliases g.aliases) := by
  let pairs : List (String × OrderedMap NodeKey Fragment) := g.aliases.map fun a => (a, .empty)
  have hnames : pairs.map Prod.fst = g.aliases := by
    rw [List.map_map]
    exact List.map_id _
  have hn : ((OrderedMap.empty (κ := String) (ν := OrderedMap NodeKey Fragment)).keys ++
      pairs.map Prod.fst).Nodup := by
    rw [hnames]
    exact Coherent.aliases_nodup g
  have hentries : (Forest.ofAliases g.aliases).nodes.entries = pairs :=
    OrderedMap.entries_insertAll_of_nodup hn
  constructor
  · rw [OrderedMap.keys, hentries, hnames]
  · intro v _
    rw [Forest.nodesOf_ofAliases]
    rfl
  · intro v _ k fragment hfrag
    rw [Forest.fragment?_ofAliases] at hfrag
    cases hfrag
  · intro e _ k k'
    constructor
    · intro hm
      cases hm
    · intro hm
      cases hm.1

/-- Folding rows succeeds, and what the forest holds is the grouping of the rows. -/
theorem Grown.exists_forestOf (hg : g.Grown) (hc : g.IsPrepared chains)
    (hapart : g.ContainersApart) {rows : List Row} (hrows : ∀ r ∈ rows, g.Keyed r) :
    ∃ f, g.forestOf chains rows = .ok f ∧ (g.layoutOf fun _ => rows).Describes g f := by
  have hstep : ∀ done row rest, rows = done ++ row :: rest → ∀ s,
      (g.layoutOf fun _ => done).Describes g s →
        ∃ s', g.consumeRow chains s row = .ok s' ∧
          (g.layoutOf fun _ => done ++ [row]).Describes g s' := by
    intro done row rest hs s hinv
    have hrow : g.Keyed row := hrows row (hs ▸ List.mem_append_right _ List.mem_cons_self)
    exact hg.exists_consumeRow hc hapart hrow hinv
  exact foldlM_prefix (fun done s => (g.layoutOf fun _ => done).Describes g s) hstep
    (describes_ofAliases g)

end Runs

end Graph

end NestedJoin
