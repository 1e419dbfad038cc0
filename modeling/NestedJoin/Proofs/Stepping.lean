import NestedJoin.Materialize
set_option autoImplicit false

/-!
# Steps of folding

What showing a row to a vertex can do to a forest: nothing, file a node, or file a node and put a
reference to it into one container of another node.  Whatever each of these keeps, folding rows
keeps.

Main statements: `Graph.consume_cases`, which says all that a step can do,
`Graph.linked_of_consume`, which says what it adds, and `Graph.confined_forestOf`, which confines
the nodes of a forest and the references between them.
-/

namespace NestedJoin

/-- A fold that succeeds has what each step adds to what is done so far. -/
theorem foldlM_invariant {α β : Type} {step : β → α → Except Fault β} {xs : List α}
    (inv : List α → β → Prop)
    (hstep : ∀ done x rest, xs = done ++ x :: rest → ∀ s s', inv done s → step s x = .ok s' →
      inv (done ++ [x]) s')
    {s s' : β} (hs : inv [] s) (h : xs.foldlM step s = .ok s') : inv xs s' := by
  suffices run : ∀ rest done s, xs = done ++ rest → inv done s → rest.foldlM step s = .ok s' →
      inv xs s' from run xs [] s rfl hs h
  intro rest
  induction rest with
  | nil =>
    intro done s hxs hinv hrun
    rw [List.append_nil] at hxs
    cases hrun
    exact hxs ▸ hinv
  | cons x rest ih =>
    intro done s hxs hinv hrun
    rw [List.foldlM_cons] at hrun
    cases hnext : step s x with
    | error f =>
      rw [hnext] at hrun
      cases hrun
    | ok next =>
      rw [hnext] at hrun
      exact ih (done ++ [x]) next (by rw [hxs]; simp) (hstep done x rest hxs s next hinv hnext) hrun

/-! ## References -/

/-- The nodes that a content refers to. -/
def Content.refs : Content → List NodeRef
  | .data _ => []
  | .one r => [r]
  | .many rs => rs

theorem Edge.refs_emptyContent (e : Edge) : e.emptyContent.refs = [] := by
  unfold emptyContent
  cases e.kind <;> rfl

namespace Forest

/-- A node refers to another one. -/
def RefersTo (f : Forest) (p r : NodeRef) : Prop :=
  ∃ fragment name content, f.fragment? p = some fragment ∧ fragment.get? name = some content ∧
    r ∈ content.refs

/-- The nodes of a forest are all of one sort, and so are the references between them. -/
structure Confined (isNode : NodeRef → Prop) (isLink : NodeRef → NodeRef → Prop) (f : Forest) :
    Prop where
  node : ∀ r fragment, f.fragment? r = some fragment → isNode r
  link : ∀ p r, f.RefersTo p r → isLink p r

/-- A forest has the nodes and the links of another one. -/
structure Within (f f' : Forest) : Prop where
  node : ∀ r, (f.fragment? r).isSome = true → (f'.fragment? r).isSome = true
  link : ∀ l ∈ f.links, l ∈ f'.links

theorem Within.refl (f : Forest) : f.Within f := ⟨fun _ h => h, fun _ h => h⟩

theorem Within.trans {f f' f'' : Forest} (h : f.Within f') (h' : f'.Within f'') : f.Within f'' :=
  ⟨fun r hr => h'.node r (h.node r hr), fun l hl => h'.link l (h.link l hl)⟩

theorem within_write (f : Forest) (r : NodeRef) (fragment : Fragment) :
    f.Within (f.write r fragment) where
  node r' hr := by
    rw [fragment?_write]
    split
    · rfl
    · exact hr
  link _ hl := hl

theorem within_file (f : Forest) (r : NodeRef) (fragment : Fragment) :
    f.Within (f.file r fragment) := by
  unfold file
  split
  · exact .refl f
  · exact f.within_write r fragment

theorem Confined.ofAliases {isNode : NodeRef → Prop} {isLink : NodeRef → NodeRef → Prop}
    (aliases : List String) : (Forest.ofAliases aliases).Confined isNode isLink where
  node r fragment h := by
    rw [fragment?_ofAliases] at h
    cases h
  link p r h := by
    obtain ⟨fragment, name, content, hf, -, -⟩ := h
    rw [fragment?_ofAliases] at hf
    cases hf

/-- A node is written that is of the right sort and whose references are. -/
theorem Confined.write {isNode : NodeRef → Prop} {isLink : NodeRef → NodeRef → Prop} {f : Forest}
    (h : f.Confined isNode isLink) {p : NodeRef} (hp : isNode p) {fragment : Fragment}
    (hr : ∀ name content, fragment.get? name = some content → ∀ r ∈ content.refs, isLink p r) :
    (f.write p fragment).Confined isNode isLink where
  node r fragment' hf := by
    rw [fragment?_write] at hf
    split at hf
    · next heq => exact heq ▸ hp
    · exact h.node r fragment' hf
  link q r href := by
    obtain ⟨fragment', name, content, hf, hget, hm⟩ := href
    rw [fragment?_write] at hf
    split at hf
    · next heq =>
      cases hf
      exact heq ▸ hr name content hget r hm
    · exact h.link q r ⟨fragment', name, content, hf, hget, hm⟩

end Forest

namespace Graph

variable {g : Graph} {chains : KeyChains} {row : Row} {f f' : Forest} {v : Vertex} {e : Edge}

/-! ## What a step can do -/

/-- Attaching a node changes one container: a single one holds the node, a list gets it as its
last item. -/
theorem attach_cases {fragment fragment' : Fragment} {child : NodeRef}
    (h : attach e fragment child = .ok fragment') :
    (e.kind = .single ∧ fragment' = fragment.insert e.container (.one child)) ∨
      ∃ rs, e.kind = .multiple ∧ fragment.get? e.container = some (.many rs) ∧
        fragment' = fragment.insert e.container (.many (rs ++ [child])) := by
  unfold attach at h
  split at h
  · next hk =>
    cases h
    exact Or.inl ⟨hk, rfl⟩
  · next hk =>
    split at h
    · cases h
    · next c hc =>
      cases c with
      | many rs =>
        cases h
        exact Or.inr ⟨rs, hk, hc, rfl⟩
      | _ => cases h
  · cases h

/-- Attaching changes no container but the edge's own. -/
theorem get?_attach_of_ne {fragment fragment' : Fragment} {child : NodeRef}
    (h : attach e fragment child = .ok fragment') {name : String} (hne : name ≠ e.container) :
    fragment'.get? name = fragment.get? name := by
  obtain ⟨-, rfl⟩ | ⟨rs, -, -, rfl⟩ := attach_cases h
  · rw [OrderedMap.get?_insert, if_neg hne]
  · rw [OrderedMap.get?_insert, if_neg hne]

/-- Linking leaves a forest as it is or attaches the node and notes the link. -/
theorem link_cases {parent child : NodeRef} (h : link e f parent child = .ok f') :
    (f' = f ∧ (f.fragment? parent = none ∨ ⟨parent, e.container, child.key⟩ ∈ f.links)) ∨
      ∃ fragment fragment', f.fragment? parent = some fragment ∧
        ⟨parent, e.container, child.key⟩ ∉ f.links ∧ attach e fragment child = .ok fragment' ∧
        f' = { f.write parent fragment' with
          links := f.links ++ [⟨parent, e.container, child.key⟩] } := by
  unfold link at h
  split at h
  · next hnone =>
    cases h
    exact Or.inl ⟨rfl, Or.inl hnone⟩
  · next fragment hsome =>
    dsimp only at h
    split at h
    · next hm =>
      cases h
      exact Or.inl ⟨rfl, Or.inr hm⟩
    · next hm =>
      cases ha : attach e fragment child with
      | error e' =>
        rw [ha] at h
        cases h
      | ok fragment' =>
        rw [ha] at h
        cases h
        exact Or.inr ⟨fragment, fragment', hsome, hm, ha, rfl⟩

/-- What showing a row to a vertex can do: nothing if the table is absent, else it files the node of
the row's key and, unless the vertex is the root, links it to the node of its parent's key. -/
theorem consume_cases (h : g.consume chains row f v = .ok f') :
    (v.table.isPresent row = false ∧ f' = f) ∨
      ∃ key, v.table.isPresent row = true ∧ chains.filingKey v row = .ok key ∧
        ((g.edge? v.aliasName = none ∧ f' = f.file ⟨v.aliasName, key⟩ (g.fragmentOf v row)) ∨
          ∃ e k, g.edge? v.aliasName = some e ∧ chains.filingKey e.parent row = .ok k ∧
            link e (f.file ⟨v.aliasName, key⟩ (g.fragmentOf v row)) ⟨e.parentAlias, k⟩
              ⟨v.aliasName, key⟩ = .ok f') := by
  unfold consume at h
  split at h
  · next hp =>
    cases hkey : chains.filingKey v row with
    | error e' =>
      rw [hkey] at h
      cases h
    | ok key =>
      rw [hkey] at h
      refine Or.inr ⟨key, hp, rfl, ?_⟩
      simp only [bind, Except.bind, pure, Except.pure] at h
      split at h
      · next hnone =>
        cases h
        exact Or.inl ⟨hnone, rfl⟩
      · next e hsome =>
        cases hk : chains.filingKey e.parent row with
        | error e' =>
          rw [hk] at h
          cases h
        | ok k =>
          rw [hk] at h
          exact Or.inr ⟨e, k, hsome, hk, h⟩
  · next hp =>
    cases h
    exact Or.inl ⟨Bool.eq_false_iff.2 hp, rfl⟩

/-! ## What every step adds -/

/-- Showing a row to a vertex takes away no node and no link. -/
theorem consume_within (h : g.consume chains row f v = .ok f') : f.Within f' := by
  obtain ⟨-, rfl⟩ | ⟨key, -, -, ⟨-, rfl⟩ | ⟨e, k, -, -, hl⟩⟩ := consume_cases h
  · exact .refl _
  · exact f.within_file _ _
  · refine (f.within_file ⟨v.aliasName, key⟩ (g.fragmentOf v row)).trans ?_
    obtain ⟨rfl, -⟩ | ⟨fragment, fragment', -, -, -, rfl⟩ := link_cases hl
    · exact .refl _
    · have hwrite := Forest.within_write (f.file ⟨v.aliasName, key⟩ (g.fragmentOf v row))
        ⟨e.parentAlias, k⟩ fragment'
      exact ⟨hwrite.node, fun l hm => List.mem_append_left _ hm⟩

theorem consumeRow_within (h : g.consumeRow chains f row = .ok f') : f.Within f' := by
  refine foldlM_invariant (fun _ => f.Within) ?_ (.refl f) h
  intro _ v _ _ s s' hs hconsume
  exact hs.trans (consume_within hconsume)

/-- A fold whose steps take nothing away from a forest leaves in it what each step left. -/
theorem exists_step_of_foldlM {α : Type} {step : Forest → α → Except Fault Forest} {xs : List α}
    (hstep : ∀ s x s', step s x = .ok s' → s.Within s') (h : xs.foldlM step f = .ok f') {x : α}
    (hx : x ∈ xs) : ∃ s s', step s x = .ok s' ∧ s'.Within f' := by
  refine foldlM_invariant (fun done s => x ∈ done → ∃ t t', step t x = .ok t' ∧ t'.Within s) ?_
    (fun hm => absurd hm List.not_mem_nil) h hx
  intro done y _ _ s s' hinv hy hm
  rcases List.mem_append.1 hm with hm | hm
  · obtain ⟨t, t', ht, hwithin⟩ := hinv hm
    exact ⟨t, t', ht, hwithin.trans (hstep s y s' hy)⟩
  · obtain rfl := List.mem_singleton.1 hm
    exact ⟨s, s', hy, .refl s'⟩

/-- A table that is present in a row has a node there. -/
theorem filed_of_consume (h : g.consume chains row f v = .ok f')
    (hp : v.table.isPresent row = true) :
    ∃ key, chains.filingKey v row = .ok key ∧
      (f'.fragment? ⟨v.aliasName, key⟩).isSome = true := by
  have hfiled : ∀ key, ((f.file ⟨v.aliasName, key⟩ (g.fragmentOf v row)).fragment?
      ⟨v.aliasName, key⟩).isSome = true := by
    intro key
    rw [Forest.fragment?_file]
    rfl
  obtain ⟨habsent, -⟩ | ⟨key, -, hkey, ⟨-, rfl⟩ | ⟨e, k, -, -, hl⟩⟩ := consume_cases h
  · rw [hp] at habsent
    cases habsent
  · exact ⟨key, hkey, hfiled key⟩
  · refine ⟨key, hkey, ?_⟩
    obtain ⟨rfl, -⟩ | ⟨fragment, fragment', -, -, -, rfl⟩ := link_cases hl
    · exact hfiled key
    · exact (Forest.within_write _ _ fragment').node _ (hfiled key)

/-- A child that is present in a row is linked to the node of its parent's key, if that exists. -/
theorem linked_of_consume (h : g.consume chains row f v = .ok f')
    (hp : v.table.isPresent row = true) (he : g.edge? v.aliasName = some e) :
    ∃ key k, chains.filingKey v row = .ok key ∧ chains.filingKey e.parent row = .ok k ∧
      ((f.fragment? ⟨e.parentAlias, k⟩).isSome = true →
        ⟨⟨e.parentAlias, k⟩, e.container, key⟩ ∈ f'.links) := by
  obtain ⟨habsent, -⟩ | ⟨key, -, hkey, ⟨hnone, -⟩ | ⟨e', k, he', hk, hl⟩⟩ := consume_cases h
  · rw [hp] at habsent
    cases habsent
  · rw [he] at hnone
    cases hnone
  · rw [he] at he'
    cases he'
    refine ⟨key, k, hkey, hk, fun hparent => ?_⟩
    obtain ⟨rfl, hnone | hm⟩ | ⟨fragment, fragment', -, -, -, rfl⟩ := link_cases hl
    · have hfiled := (f.within_file ⟨v.aliasName, key⟩ (g.fragmentOf v row)).node _ hparent
      rw [hnone] at hfiled
      cases hfiled
    · exact hm
    · exact List.mem_append_right _ List.mem_cons_self

/-! ## What every step keeps -/

/-- What holds of a forest without nodes and is kept by every step holds of the forest that rows
make. -/
theorem forestOf_invariant {rows : List Row} (inv : Forest → Prop)
    (h0 : inv (Forest.ofAliases g.aliases))
    (hstep : ∀ row ∈ rows, ∀ v ∈ g.vertices, ∀ s s', inv s → g.consume chains row s v = .ok s' →
      inv s')
    (h : g.forestOf chains rows = .ok f) : inv f := by
  refine foldlM_invariant (fun _ => inv) ?_ h0 h
  intro done row rest hrows s s' hs hrow
  refine foldlM_invariant (fun _ => inv) ?_ hs hrow
  intro shown v others hv s s' hs hconsume
  have hrow : row ∈ rows := hrows ▸ List.mem_append_right _ List.mem_cons_self
  have hv : v ∈ g.vertices := hv ▸ List.mem_append_right _ List.mem_cons_self
  exact hstep row hrow v hv s s' hs hconsume

/-- The fragment that a row makes refers to nothing. -/
theorem refs_fragmentOf {name : String} {content : Content}
    (h : (g.fragmentOf v row).get? name = some content) : content.refs = [] := by
  have hm := OrderedMap.get?_eq_some_iff.1 h
  rw [fragmentOf_eq_insertAll] at hm
  rcases OrderedMap.mem_entries_insertAll hm with hm | hm
  · obtain ⟨p, -, hp⟩ := List.mem_map.1 hm
    obtain rfl : .data p.2 = content := congrArg Prod.snd hp
    rfl
  · obtain ⟨e, -, he⟩ := List.mem_map.1 hm
    obtain rfl : e.emptyContent = content := congrArg Prod.snd he
    exact e.refs_emptyContent

section Confining

variable {isNode : NodeRef → Prop} {isLink : NodeRef → NodeRef → Prop}

theorem confined_file (h : f.Confined isNode isLink) {r : NodeRef} (hr : isNode r) (v : Vertex)
    (row : Row) : (f.file r (g.fragmentOf v row)).Confined isNode isLink := by
  unfold Forest.file
  split
  · exact h
  · refine h.write hr fun name content hget r hm => ?_
    rw [refs_fragmentOf hget] at hm
    cases hm

theorem confined_link (h : f.Confined isNode isLink) {parent child : NodeRef}
    (hp : isNode parent → isLink parent child) (hl : link e f parent child = .ok f') :
    f'.Confined isNode isLink := by
  obtain ⟨rfl, -⟩ | ⟨fragment, fragment', hf, -, ha, rfl⟩ := link_cases hl
  · exact h
  · have hnode : isNode parent := h.node parent fragment hf
    have hold : ∀ name content, fragment.get? name = some content → ∀ r ∈ content.refs,
        isLink parent r := fun name content hget r hm =>
      h.link parent r ⟨fragment, name, content, hf, hget, hm⟩
    have hwrite : (f.write parent fragment').Confined isNode isLink := by
      refine h.write hnode fun name content hget r hm => ?_
      obtain ⟨-, rfl⟩ | ⟨rs, -, hrs, rfl⟩ := attach_cases ha
      · rw [OrderedMap.get?_insert] at hget
        split at hget
        · cases hget
          rw [List.mem_singleton.1 hm]
          exact hp hnode
        · exact hold name content hget r hm
      · rw [OrderedMap.get?_insert] at hget
        split at hget
        · cases hget
          rcases List.mem_append.1 hm with hm | hm
          · exact hold _ _ hrs r hm
          · rw [List.mem_singleton.1 hm]
            exact hp hnode
        · exact hold name content hget r hm
    exact ⟨hwrite.node, hwrite.link⟩

/-- If the tables that are present in rows file nodes of one sort only, and link them as the other
sort says, then so are all nodes of the forest that the rows make and all references between
them. -/
theorem confined_forestOf {rows : List Row}
    (hnode : ∀ row ∈ rows, ∀ v ∈ g.vertices, v.table.isPresent row = true → ∀ key,
      chains.filingKey v row = .ok key → isNode ⟨v.aliasName, key⟩)
    (hlink : ∀ row ∈ rows, ∀ v ∈ g.vertices, v.table.isPresent row = true → ∀ key e k,
      chains.filingKey v row = .ok key → g.edge? v.aliasName = some e →
      chains.filingKey e.parent row = .ok k → isNode ⟨e.parentAlias, k⟩ →
      isLink ⟨e.parentAlias, k⟩ ⟨v.aliasName, key⟩)
    (h : g.forestOf chains rows = .ok f) : f.Confined isNode isLink := by
  refine forestOf_invariant (Forest.Confined isNode isLink) (.ofAliases g.aliases) ?_ h
  intro row hrow v hv s s' hs hconsume
  obtain ⟨-, rfl⟩ | ⟨key, hp, hkey, ⟨-, rfl⟩ | ⟨e, k, he, hk, hl⟩⟩ := consume_cases hconsume
  · exact hs
  · exact confined_file hs (hnode row hrow v hv hp key hkey) v row
  · have hfiled := confined_file (g := g) hs (hnode row hrow v hv hp key hkey) v row
    exact confined_link hfiled (hlink row hrow v hv hp key e k hkey he hk) hl

end Confining

end Graph

end NestedJoin
