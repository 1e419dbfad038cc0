import NestedJoin.Proofs.Linking
import NestedJoin.Proofs.Materializing
import NestedJoin.Proofs.Reading
import NestedJoin.Proofs.Retention
set_option autoImplicit false

/-!
# What materializing loses

Rows that hold every column are materialized without loss but for names: a container with the
name of a field takes the field's place; of two single children that share a container one takes
the other's place; and where edges for lists share a container, a child is lost if a child of
another edge has its key.  Every other field keeps the value of the first row of its node, and
every other child is in its parent's container.

Main statement: `Session.materialize_keeps`.
-/

namespace NestedJoin

namespace Graph

/-- A row holds every column of every table. -/
def Complete (g : Graph) (row : Row) : Prop :=
  ∀ v ∈ g.vertices, ∀ f ∈ v.table.fields, (row.get? (v.table.column f)).isSome = true

instance (g : Graph) (row : Row) : Decidable (g.Complete row) :=
  inferInstanceAs (Decidable (∀ v ∈ g.vertices, _))

/-- Among some rows no two single children hang from one key of a parent's. -/
def SingleChildren (g : Graph) (rows : List Row) : Prop :=
  ∀ e ∈ g.edges, e.kind = .single → ∀ k ∈ g.sightings rows e.parent,
    (g.childKeys rows e k).length ≤ 1

instance (k : Kind) : Decidable (k = .single) :=
  match k with
  | .single => isTrue rfl
  | .multiple => isFalse Kind.noConfusion
  | .other _ => isFalse Kind.noConfusion

instance (g : Graph) (rows : List Row) : Decidable (g.SingleChildren rows) :=
  inferInstanceAs (Decidable (∀ e ∈ g.edges, _ → ∀ k ∈ g.sightings rows e.parent, _))

/-- No other edge takes the place of a child: an edge that shares the container is for lists, as the
child's own edge is, and brings the parent no child of the same key. -/
def Spared (g : Graph) (rows : List Row) (e : Edge) (row : Row) : Prop :=
  ∀ e' ∈ g.edges, e'.parentAlias = e.parentAlias → e'.container = e.container →
    e'.aliasName ≠ e.aliasName → e.kind.same .multiple = true ∧ e'.kind.same .multiple = true ∧
      g.keyIn e.child row ∉ g.childKeys rows e' (g.keyIn e.parent row)

instance (g : Graph) (rows : List Row) (e : Edge) (row : Row) : Decidable (g.Spared rows e row) :=
  inferInstanceAs (Decidable (∀ e' ∈ g.edges, _ → _ → _ → _))

variable {g : Graph} {chains : KeyChains} {rows : List Row} {f : Forest}

/-- Materializing without modifiers ends with the forest of the rows. -/
theorem of_outcome_materialize {a : String}
    (h : (g.materialize chains .empty rows).outcome = .ok (f, a)) :
    g.forestOf chains rows = .ok f ∧ g.root.map Vertex.aliasName = some a := by
  unfold materialize at h
  split at h
  · cases h
  · next f' hf =>
    change (g.rootOrFault.map fun r => (f', r.aliasName)) = _ at h
    unfold rootOrFault at h
    cases hr : g.root with
    | none =>
      rw [hr] at h
      cases h
    | some r =>
      rw [hr] at h
      cases h
      exact ⟨hf, rfl⟩

/-- A complete row has every field of a table. -/
theorem Complete.mem_extractEntries {row : Row} (h : g.Complete row) {v : Vertex}
    (hv : v ∈ g.vertices) {field : String} (hfield : field ∈ v.table.fields) :
    ∃ x, row.get? (v.table.column field) = some x ∧ (field, x) ∈ v.table.extractEntries row := by
  obtain ⟨x, hx⟩ := Option.isSome_iff_exists.1 (h v hv field hfield)
  exact ⟨x, hx, List.mem_filterMap.2 ⟨field, hfield, by rw [hx]; rfl⟩⟩

/-- The first row of a node. -/
theorem exists_find?_sighting {v : Vertex} {k : NodeKey} (hk : k ∈ g.sightings rows v) :
    ∃ row ∈ rows, rows.find? (g.isSighting v k) = some row ∧
      g.fieldEntries rows v k = v.table.extractEntries row := by
  obtain ⟨r, hr, hp, hkey⟩ := mem_sightings_iff.1 hk
  have hsome : (rows.find? (g.isSighting v k)).isSome = true := by
    rw [List.find?_isSome]
    exact ⟨r, hr, by simp [isSighting, hp, hkey]⟩
  obtain ⟨row, hrow⟩ := Option.isSome_iff_exists.1 hsome
  refine ⟨row, List.mem_of_find?_eq_some hrow, hrow, ?_⟩
  rw [fieldEntries, hrow]
  rfl

section Kept

variable (hg : g.Grown) (hc : g.IsPrepared chains) (h : g.forestOf chains rows = .ok f)

include hg hc h

/-- Every field of a node that no container has the name of holds what its first row holds. -/
theorem Grown.field_mem_entity (hcomplete : ∀ r ∈ rows, g.Complete r) {v : Vertex}
    (hv : v ∈ g.vertices) {k : NodeKey} (hk : k ∈ g.sightings rows v) :
    ∃ entries row, f.entity ⟨v.aliasName, k⟩ = .dict entries ∧ (entries.map Prod.fst).Nodup ∧
      rows.find? (g.isSighting v k) = some row ∧
      ∀ field ∈ v.table.fields, field ∉ g.containersOf v →
        ∃ x, row.get? (v.table.column field) = some x ∧ (Value.str field, x) ∈ entries := by
  have hkept := hg.keptIn_forestOf hc h
  have hdown := hg.coherent.leadsDown_forestOf h
  obtain ⟨fragment, hf⟩ := (hkept.mem_keys_iff hv).1 hk
  obtain ⟨entries, hentity, hnodup, hentries⟩ :=
    hdown.mem_entity hkept.aliases_eq (hdown.node _ fragment hf) hf
  obtain ⟨row, hrow, hfirst, hfields⟩ := exists_find?_sighting hk
  refine ⟨entries, row, hentity, hnodup, hfirst, fun field hfield hname => ?_⟩
  obtain ⟨x, hx, hmem⟩ := (hcomplete row hrow).mem_extractEntries hv hfield
  have hget : fragment.get? field = some (.data x) := by
    refine hkept.field_eq v hv k fragment hf (field, x) ?_ hname
    show (field, x) ∈ g.fieldEntries rows v k
    rwa [hfields]
  have hread : f.readContent (.data x) = x := f.read_data _ x
  exact ⟨x, hx, hread ▸ hentries field _ hget⟩

/-- A single child hangs from its parent in the container of an edge that shares it with no
other. -/
theorem Grown.single_mem_entity (hsingle : g.SingleChildren rows) {e : Edge} (he : e ∈ g.edges)
    (hkind : e.kind = .single) (hs : g.Sole e) {row : Row} (hrow : row ∈ rows)
    (hp : e.parent.table.isPresent row = true) (hchild : e.child.table.isPresent row = true) :
    ∃ entries, f.entity ⟨e.parentAlias, g.keyIn e.parent row⟩ = .dict entries ∧
      (Value.str e.container, f.entity ⟨e.aliasName, g.keyIn e.child row⟩) ∈ entries := by
  have hkept := hg.keptIn_forestOf hc h
  have hdown := hg.coherent.leadsDown_forestOf h
  have hparent : g.keyIn e.parent row ∈ g.sightings rows e.parent :=
    mem_sightings_iff.2 ⟨row, hrow, hp, rfl⟩
  have hkey : g.keyIn e.child row ∈ g.childKeys rows e (g.keyIn e.parent row) :=
    List.mem_filter.2 ⟨mem_sightings_iff.2 ⟨row, hrow, hchild, rfl⟩,
      (isPrefixOf_sighting_iff hg he hparent).2 rfl⟩
  have hone : g.childKeys rows e (g.keyIn e.parent row) = [g.keyIn e.child row] := by
    obtain ⟨k, hk⟩ := List.length_eq_one_iff.1 (Nat.le_antisymm
      (hsingle e he hkind _ hparent) (List.length_pos_of_mem hkey))
    rw [hk] at hkey ⊢
    rw [List.mem_singleton.1 hkey]
  obtain ⟨fragment, hf⟩ := (hkept.mem_keys_iff (hg.parent_mem he)).1 hparent
  obtain ⟨entries, hentity, -, hentries⟩ :=
    hdown.mem_entity hkept.aliases_eq (hdown.node _ fragment hf) hf
  have hget := hentries e.container _ (hkept.container_eq e he hs _ fragment hf)
  rw [show (g.layoutOf fun _ => rows).children e _ = _ from hone] at hget
  simp only [Edge.contentOf, hkind] at hget
  exact ⟨entries, hentity, hget⟩

variable (hrows : ∀ r ∈ rows, g.Keyed r)

include hrows

/-- A child is an item of its parent's list if all edges that share the container are for lists and
no other of them brings the parent a child of this key. -/
theorem Grown.item_mem_entity {e : Edge} (he : e ∈ g.edges)
    (hmany : ∀ e' ∈ g.edges, e'.parentAlias = e.parentAlias → e'.container = e.container →
      e'.kind = .multiple) {row : Row}
    (hapart : ∀ e' ∈ g.edges, e'.parentAlias = e.parentAlias → e'.container = e.container →
      e'.aliasName ≠ e.aliasName →
        g.keyIn e.child row ∉ g.childKeys rows e' (g.keyIn e.parent row))
    (hrow : row ∈ rows) (hp : e.parent.table.isPresent row = true)
    (hchild : e.child.table.isPresent row = true) :
    ∃ entries items, f.entity ⟨e.parentAlias, g.keyIn e.parent row⟩ = .dict entries ∧
      (Value.str e.container, .list items) ∈ entries ∧
      f.entity ⟨e.aliasName, g.keyIn e.child row⟩ ∈ items := by
  have hdown := hg.coherent.leadsDown_forestOf h
  have haliases : f.nodes.keys = g.aliases := (hg.keptIn_forestOf hc h).aliases_eq
  -- the link of the child in this row
  obtain ⟨k, key, hk, hkey, hlink⟩ :=
    hg.coherent.linkedIn_forestOf he (hg.parent_eq e he) rfl h row hrow hp hchild
  rw [hg.filingKey_parent hc he (hrows row hrow _ (hg.coherent.child_mem he) hchild)] at hk
  rw [filingKey_eq (hc _ (hg.coherent.child_mem he))
    (hrows row hrow _ (hg.coherent.child_mem he) hchild)] at hkey
  cases hk
  cases hkey
  -- the item behind it
  obtain ⟨fragment, hf, items, hget, e', he', hparent, hcontainer, hitem, row', hrow', hp', hk',
    hkey'⟩ := hg.coherent.itemized_forestOf hmany h _ _ hlink
  rw [hg.filingKey_parent hc he' (hrows row' hrow' _ (hg.coherent.child_mem he') hp')] at hk'
  rw [filingKey_eq (hc _ (hg.coherent.child_mem he'))
    (hrows row' hrow' _ (hg.coherent.child_mem he') hp')] at hkey'
  have hown : e'.aliasName = e.aliasName := by
    by_contra hne
    refine hapart e' he' hparent hcontainer hne (List.mem_filter.2 ⟨?_, ?_⟩)
    · exact mem_sightings_iff.2 ⟨row', hrow', hp', Except.ok.inj hkey'⟩
    · rw [← Except.ok.inj hk', ← Except.ok.inj hkey']
      exact (hg.isPrefixOf_keyIn_iff he').2 rfl
  obtain ⟨entries, hentity, -, hentries⟩ :=
    hdown.mem_entity haliases (hdown.node _ fragment hf) hf
  have halias : ∀ r ∈ items, r.aliasName ∈ g.aliases := fun r hr =>
    (hdown.link _ r ⟨fragment, _, _, hf, hget, hr⟩).1
  have hread := hentries e.container _ hget
  rw [Forest.readContent_many haliases halias] at hread
  exact ⟨entries, _, hentity, hread, List.mem_map_of_mem (hown ▸ hitem)⟩

/-- A child whose place no other edge takes hangs from its parent. -/
theorem Grown.child_mem_entity (hsingle : g.SingleChildren rows) {e : Edge} (he : e ∈ g.edges)
    {row : Row} (hs : g.Spared rows e row) (hrow : row ∈ rows)
    (hp : e.parent.table.isPresent row = true) (hchild : e.child.table.isPresent row = true) :
    ∃ entries, f.entity ⟨e.parentAlias, g.keyIn e.parent row⟩ = .dict entries ∧
      ((e.kind = .multiple ∧ ∃ items, (Value.str e.container, .list items) ∈ entries ∧
          f.entity ⟨e.aliasName, g.keyIn e.child row⟩ ∈ items) ∨
        (e.kind = .single ∧
          (Value.str e.container, f.entity ⟨e.aliasName, g.keyIn e.child row⟩) ∈ entries)) := by
  rcases hg.kind_eq e he with hkind | hkind
  · have hsole : g.Sole e := by
      intro e' he' hparent hcontainer
      by_contra hne
      have hlist := (hs e' he' hparent hcontainer hne).1
      rw [hkind] at hlist
      cases hlist
    obtain ⟨entries, hentity, hmem⟩ :=
      hg.single_mem_entity hc h hsingle he hkind hsole hrow hp hchild
    exact ⟨entries, hentity, Or.inr ⟨hkind, hmem⟩⟩
  · have hmany : ∀ e' ∈ g.edges, e'.parentAlias = e.parentAlias → e'.container = e.container →
        e'.kind = .multiple := by
      intro e' he' hparent hcontainer
      rcases hg.kind_eq e' he' with hkind' | hkind'
      · have hne : e'.aliasName ≠ e.aliasName := by
          intro hq
          rw [hg.coherent.edge_unique he' he hq, hkind] at hkind'
          cases hkind'
        have hlist := (hs e' he' hparent hcontainer hne).2.1
        rw [hkind'] at hlist
        cases hlist
      · exact hkind'
    obtain ⟨entries, items, hentity, hlist, hmem⟩ := hg.item_mem_entity hc h hrows he hmany
      (fun e' he' hparent hcontainer hne => (hs e' he' hparent hcontainer hne).2.2) hrow hp hchild
    exact ⟨entries, hentity, Or.inl ⟨hkind, items, hlist, hmem⟩⟩

end Kept

end Graph

namespace Session

open NestedJoin.Graph

/-- For every builder that calls have made, and rows that hold every column, have keys and give no
parent two single children.  Materializing them succeeds if edges onto one table that share a
container are of one kind.  If it succeeds, there is one entity for every key of the root in the
order of first sight.  Every node holds, under every field that no container has the name of, what
the first row with its key holds; and every child that is present in a row with its parent is in the
parent's container, as an item of the list or as the one child, unless an edge that shares this
container takes its place. -/
theorem materialize_keeps (schema : Schema) (cs : List Command) {name : String} {b : Builder}
    (hb : ((ofSchema schema).obeyAll cs).builder? name = some b) {chains chains' : KeyChains}
    (hp : b.graph.prepare chains = .ok chains') {rows : List Row}
    (hrows : ∀ r ∈ rows, b.graph.Keyed r) (hcomplete : ∀ r ∈ rows, b.graph.Complete r)
    (hsingle : b.graph.SingleChildren rows) :
    (b.graph.KindsAgree →
      ∃ f a, (b.graph.materialize chains' .empty rows).outcome = .ok (f, a)) ∧
    ∀ f a, (b.graph.materialize chains' .empty rows).outcome = .ok (f, a) →
      (∃ root, b.graph.root = some root ∧ (b.graph.materialize chains' .empty rows).entities =
        .ok ((b.graph.sightings rows root).map fun k => f.entity ⟨root.aliasName, k⟩)) ∧
      (∀ v ∈ b.graph.vertices, ∀ k ∈ b.graph.sightings rows v,
        ∃ entries row, f.entity ⟨v.aliasName, k⟩ = .dict entries ∧ (entries.map Prod.fst).Nodup ∧
          rows.find? (b.graph.isSighting v k) = some row ∧
          ∀ field ∈ v.table.fields, field ∉ b.graph.containersOf v →
            ∃ x, row.get? (v.table.column field) = some x ∧ (Value.str field, x) ∈ entries) ∧
      ∀ e ∈ b.graph.edges, ∀ row ∈ rows, b.graph.Spared rows e row →
        e.parent.table.isPresent row = true → e.child.table.isPresent row = true →
        ∃ entries, f.entity ⟨e.parentAlias, b.graph.keyIn e.parent row⟩ = .dict entries ∧
          ((e.kind = .multiple ∧ ∃ items, (Value.str e.container, .list items) ∈ entries ∧
              f.entity ⟨e.aliasName, b.graph.keyIn e.child row⟩ ∈ items) ∨
            (e.kind = .single ∧ (Value.str e.container,
              f.entity ⟨e.aliasName, b.graph.keyIn e.child row⟩) ∈ entries)) := by
  have hg := grown_run schema cs hb
  have hc := hg.isPrepared_prepare hp
  obtain ⟨root, hroot⟩ := Option.isSome_iff_exists.1 hg.has_root
  constructor
  · intro hk
    obtain ⟨f, hf⟩ := hg.exists_forestOf_of_kindsAgree hc hk hrows
    refine ⟨f, root.aliasName, ?_⟩
    rw [Graph.materialize, hf]
    show (b.graph.rootOrFault.map fun r => (f, r.aliasName)) = _
    rw [rootOrFault, hroot]
    rfl
  · intro f a hout
    obtain ⟨hf, ha⟩ := of_outcome_materialize hout
    refine ⟨⟨root, hroot, ?_⟩, ?_, ?_⟩
    · rw [hroot] at ha
      cases ha
      have hkeys := (hg.keptIn_forestOf hc hf).keys_eq root (hg.coherent.root_mem hroot)
      rw [MaterializeRun.entities, hout]
      show Except.ok (f.entitiesOf root.aliasName) = _
      rw [Forest.entitiesOf, Forest.refsOf, hkeys, List.map_map]
      rfl
    · intro v hv k hk
      exact hg.field_mem_entity hc hf hcomplete hv hk
    · intro e he row hrow hs hparent hchild
      exact hg.child_mem_entity hc hf hrows hsingle he hs hrow hparent hchild

/-- Calls that join two lists under the name of a field, and a single entity. -/
def clashingCalls : List Command :=
  let spec : JoinSpec := { kind := .ok .multiple, on := [(.str "x", .str "id")] }
  [.select "q" (.named "a") "a" false,
    .join "q" true (.named "b") (some "x") "b" "a" spec,
    .join "q" true (.named "c") (some "x") "c" "a" spec,
    .join "q" false (.named "d") (some "d") "d" "a" spec]

def clashingBuilder : Builder :=
  (((ofSchema sampleSchema).obeyAll clashingCalls).builder? "q").getD default

def clashingChains : KeyChains := (clashingBuilder.graph.prepare .empty).toOption.getD .empty

/-- A row with a child of every edge; the first one has the key 2. -/
def clashingRow (second : Int) : Row :=
  .ofList [("a_id", .int 1), ("a_x", .int 5), ("b_id", .int 2), ("b_x", .int 6),
    ("c_id", .int second), ("c_x", .int 7), ("d_id", .int 3), ("d_x", .int 8)]

/-- The field whose name no container has is kept, and so is a child of another key in the shared
container. -/
theorem materialize_keeps_clashing :
    ∃ f a, (clashingBuilder.graph.materialize clashingChains .empty [clashingRow 4]).outcome =
        .ok (f, a) ∧
      (∃ entries, f.entity ⟨"a", [.ofInt 1]⟩ = .dict entries ∧
        (Value.str "id", .int 1) ∈ entries) ∧
      ∃ entries items, f.entity ⟨"a", [.ofInt 1]⟩ = .dict entries ∧
        (Value.str "x", .list items) ∈ entries ∧ f.entity ⟨"c", [.ofInt 1, .ofInt 4]⟩ ∈ items := by
  have hb : ((ofSchema sampleSchema).obeyAll clashingCalls).builder? "q" =
    some clashingBuilder := rfl
  have hp : clashingBuilder.graph.prepare .empty = .ok clashingChains := rfl
  have hrows : ∀ r ∈ [clashingRow 4], clashingBuilder.graph.Keyed r := by decide
  have hcomplete : ∀ r ∈ [clashingRow 4], clashingBuilder.graph.Complete r := by decide
  have hsingle : clashingBuilder.graph.SingleChildren [clashingRow 4] :=
    by decide
  obtain ⟨hsuccess, hkeeps⟩ :=
    materialize_keeps sampleSchema clashingCalls hb hp hrows hcomplete hsingle
  obtain ⟨f, a, hout⟩ := hsuccess (by decide)
  obtain ⟨-, hfields, hchildren⟩ := hkeeps f a hout
  obtain ⟨root, others, hvertices, ha, hid, hfree, hseen, hcolumn⟩ :
      ∃ root others, clashingBuilder.graph.vertices = root :: others ∧ root.aliasName = "a" ∧
        "id" ∈ root.table.fields ∧ "id" ∉ clashingBuilder.graph.containersOf root ∧
        [.ofInt 1] ∈ clashingBuilder.graph.sightings [clashingRow 4] root ∧
        (clashingRow 4).get? (root.table.column "id") = some (.int 1) :=
    ⟨_, _, rfl, rfl, by decide, by decide, by decide, rfl⟩
  refine ⟨f, a, hout, ?_, ?_⟩
  · have hmem : root ∈ clashingBuilder.graph.vertices := hvertices ▸ List.mem_cons_self
    obtain ⟨entries, row, hentity, -, hfirst, hheld⟩ := hfields root hmem _ hseen
    obtain rfl := List.mem_singleton.1 (List.mem_of_find?_eq_some hfirst)
    obtain ⟨x, hx, hm⟩ := hheld "id" hid hfree
    rw [hcolumn] at hx
    cases hx
    exact ⟨entries, ha ▸ hentity, hm⟩
  · obtain ⟨c, hmem, hspared, hparent, hchild, hkind, halias, hown, hcontainer, hkey, hkey'⟩ :
        ∃ c ∈ clashingBuilder.graph.edges,
          clashingBuilder.graph.Spared [clashingRow 4] c (clashingRow 4) ∧
          c.parent.table.isPresent (clashingRow 4) = true ∧
          c.child.table.isPresent (clashingRow 4) = true ∧ c.kind ≠ .single ∧
          c.parentAlias = "a" ∧ c.aliasName = "c" ∧ c.container = "x" ∧
          clashingBuilder.graph.keyIn c.parent (clashingRow 4) = [.ofInt 1] ∧
          clashingBuilder.graph.keyIn c.child (clashingRow 4) = [.ofInt 1, .ofInt 4] :=
      ⟨_, List.mem_cons_of_mem _ List.mem_cons_self, by decide, by decide, by decide, nofun, rfl,
        rfl, rfl, rfl, rfl⟩
    obtain ⟨entries, hentity, ⟨-, items, hlist, hm⟩ | ⟨hone, -⟩⟩ :=
      hchildren c hmem _ List.mem_cons_self hspared hparent hchild
    · rw [halias, hkey] at hentity
      rw [hcontainer] at hlist
      rw [hown, hkey'] at hm
      exact ⟨entries, items, hentity, hlist, hm⟩
    · exact absurd hone hkind

/-- What the root is materialized to if the second child in the shared container has the key of the
first one. -/
def clashingEntries : List (Value × Value) :=
  [(.str "id", .int 1), (.str "x", .list [.dict [(.str "id", .int 2), (.str "x", .int 6)]]),
    (.str "d", .dict [(.str "id", .int 3), (.str "x", .int 8)])]

/-- A field whose name a container has is lost, and so is the child whose key a child of another
edge with this container has. -/
theorem materialize_keeps_not_clashing :
    ((ofSchema sampleSchema).obeyAll clashingCalls).builder? "q" = some clashingBuilder ∧
    clashingBuilder.graph.prepare .empty = .ok clashingChains ∧
    (∀ r ∈ [clashingRow 2], clashingBuilder.graph.Keyed r ∧ clashingBuilder.graph.Complete r) ∧
    clashingBuilder.graph.SingleChildren [clashingRow 2] ∧
    ∃ f a,
      (clashingBuilder.graph.materialize clashingChains .empty [clashingRow 2]).outcome =
        .ok (f, a) ∧
      f.entity ⟨"a", [.ofInt 1]⟩ = .dict clashingEntries ∧
      (Value.str "x", .int 5) ∉ clashingEntries ∧
      ∃ e ∈ clashingBuilder.graph.edges, e.parentAlias = "a" ∧ e.aliasName = "c" ∧
        e.kind = .multiple ∧ e.container = "x" ∧ e.parent.table.isPresent (clashingRow 2) = true ∧
        e.child.table.isPresent (clashingRow 2) = true ∧
        ∀ items, (Value.str "x", .list items) ∈ clashingEntries →
          f.entity ⟨e.aliasName, clashingBuilder.graph.keyIn e.child (clashingRow 2)⟩ ∉ items := by
  have hclaimed : ∀ r ∈ [clashingRow 2],
      clashingBuilder.graph.Keyed r ∧ clashingBuilder.graph.Complete r := by decide
  refine ⟨rfl, rfl, hclaimed, by decide, _, _, rfl, rfl, ?_, _,
    List.mem_cons_of_mem _ List.mem_cons_self, rfl, rfl, rfl, rfl, by decide, by decide, ?_⟩
  · simp [clashingEntries]
  · intro items hitems
    show Value.dict [(.str "id", .int 2), (.str "x", .int 7)] ∉ items
    obtain rfl : items = [.dict [(.str "id", .int 2), (.str "x", .int 6)]] := by
      simpa [clashingEntries] using hitems
    simp

end Session

end NestedJoin
