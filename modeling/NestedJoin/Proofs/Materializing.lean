import NestedJoin.Proofs.Folding
set_option autoImplicit false

/-!
# Materializing is grouping

A forest that is described by the grouping of some rows reads as their entities: references
lead from a vertex to vertices that were joined later, so the depth of the forest suffices to
follow them.  Together with the run of the fold this says what a graph makes of its rows.

Main statement: `Session.materialize_groups`.
-/

namespace NestedJoin

namespace Forest

theorem read_data (f : Forest) (depth : Nat) (v : Value) : f.read depth (.data v) = v := by
  cases depth <;> rfl

/-- Containers read as the entities of the attached nodes. -/
theorem read_contentOf (f : Forest) (depth : Nat) (e : Edge) (ks : List NodeKey) :
    f.read (depth + 1) (e.contentOf ks) =
      e.gathered (ks.map fun k => .dict
        (entriesWith (f.read depth) ((f.fragment? ⟨e.aliasName, k⟩).getD .empty))) := by
  rw [Edge.contentOf, Edge.gathered, List.getLast?_map]
  cases e.kind with
  | multiple =>
    simp only [read, List.map_map]
    rfl
  | single =>
    cases ks.getLast? with
    | none => exact f.read_data _ _
    | some k => rfl
  | other raw =>
    cases ks.getLast? with
    | none => exact f.read_data _ _
    | some k => rfl

end Forest

namespace Graph

variable {g : Graph} {rows : List Row} {f : Forest}

/-- A fragment reads as the fields of its node and the containers along the edges onto it. -/
theorem entriesWith_read (hf : (g.layoutOf fun _ => rows).Describes g f) {v : Vertex}
    (hv : v ∈ g.vertices) {k : NodeKey} (hk : k ∈ g.sightings rows v) (depth : Nat) :
    Forest.entriesWith (f.read depth) ((f.fragment? ⟨v.aliasName, k⟩).getD .empty) =
      (g.fieldEntries rows v k ++ (g.edgesInto v.aliasName).map fun e =>
        (e.container, f.read depth (e.contentOf (g.childKeys rows e k)))).map
          fun p => (.str p.1, p.2) := by
  obtain ⟨fragment, hfrag⟩ := (hf.mem_keys_iff hv).1 hk
  rw [hfrag, Option.getD_some, Forest.entriesWith, hf.entries_eq v hv k fragment hfrag,
    Layout.entries, List.map_append, List.map_append, List.map_map, List.map_map, List.map_map]
  congr 1
  exact List.map_congr_left fun p _ => by
    show (Value.str p.1, f.read depth (.data p.2)) = _
    rw [f.read_data]

/-- The containers along some last edges of a graph read as the branches along them. -/
theorem Grown.read_branches (hg : g.Grown) (hf : (g.layoutOf fun _ => rows).Describes g f)
    {es : List Edge} {depth : Nat} (hd : es.length ≤ depth) :
    ∀ before, g.edges = before ++ es → ∀ (v : Vertex) (k : NodeKey),
      ((es.filter fun e => e.parentAlias == v.aliasName).map fun e =>
        (e.container, f.read depth (e.contentOf (g.childKeys rows e k)))) =
          branches (g.fieldEntries rows) (g.childKeys rows) es v k := by
  induction es generalizing depth with
  | nil =>
    intro _ _ _ _
    rfl
  | cons e es ih =>
    intro before hs v k
    have hs' : g.edges = (before ++ [e]) ++ es := by rw [hs, List.append_cons]
    rw [List.length_cons] at hd
    have hrest := ih (Nat.le_of_succ_le hd) _ hs' v k
    by_cases hp : e.parentAlias = v.aliasName
    · cases depth with
      | zero => omega
      | succ depth =>
        have he : e ∈ g.edges := hs ▸ List.mem_append_right _ List.mem_cons_self
        -- one level down the same edges are left, and the depth still suffices
        have hread : (e.container, f.read (depth + 1) (e.contentOf (g.childKeys rows e k))) =
            (e.container, e.gathered ((g.childKeys rows e k).map fun k' => .dict
              ((g.fieldEntries rows e.child k' ++
                branches (g.fieldEntries rows) (g.childKeys rows) es e.child k').map
                  fun p => (.str p.1, p.2)))) := by
          rw [f.read_contentOf]
          congr 2
          refine List.map_congr_left fun k' hk' => ?_
          have hchild : k' ∈ g.sightings rows e.child := (List.mem_filter.1 hk').1
          have hinto : g.edgesInto e.child.aliasName =
              es.filter fun e' => e'.parentAlias == e.child.aliasName :=
            hg.coherent.edgesInto_child hs
          have hfrag := entriesWith_read hf (hg.coherent.child_mem he) hchild depth
          rw [hinto, ih (Nat.le_of_succ_le_succ hd) _ hs' e.child k'] at hfrag
          exact congrArg Value.dict hfrag
        rw [List.filter_cons_of_pos (by simp [hp]), List.map_cons, hread, hrest, branches,
          if_pos hp]
    · rw [List.filter_cons_of_neg (by simp [hp]), hrest, branches, if_neg hp]

/-- Every node of a described forest reads as its entity. -/
theorem Grown.entity_eq (hg : g.Grown) (hf : (g.layoutOf fun _ => rows).Describes g f)
    {v : Vertex} (hv : v ∈ g.vertices) {k : NodeKey} (hk : k ∈ g.sightings rows v) :
    f.entity ⟨v.aliasName, k⟩ = g.entityOf rows v k := by
  have hdepth : f.depth = g.edges.length + 1 := by
    have hkeys : f.nodes.entries.length = g.aliases.length := by
      rw [← hf.aliases_eq, OrderedMap.keys, List.length_map]
    obtain ⟨r, hr⟩ := Option.isSome_iff_exists.1 hg.has_root
    rw [Forest.depth, OrderedMap.size, hkeys, hg.coherent.aliases_eq_root_append, hr]
    simp [Nat.add_comm]
  have hbranches : (g.edgesInto v.aliasName).map (fun e =>
      (e.container, f.read g.edges.length (e.contentOf (g.childKeys rows e k)))) =
        branches (g.fieldEntries rows) (g.childKeys rows) g.edges v k := by
    rw [hg.coherent.edgesInto_eq]
    exact hg.read_branches hf (Nat.le_refl _) [] rfl v k
  rw [Forest.entity, Forest.readContent, hdepth]
  show Value.dict _ = _
  rw [entriesWith_read hf hv hk, hbranches]
  rfl

/-- What a grown and prepared graph makes of rows. -/
theorem Grown.entities_materialize (hg : g.Grown) {chains : KeyChains} (hc : g.IsPrepared chains)
    (hapart : g.ContainersApart) (hrows : ∀ r ∈ rows, g.Keyed r) {root : Vertex}
    (hroot : g.root = some root) :
    (g.materialize chains .empty rows).entities = .ok (g.grouped rows root) := by
  obtain ⟨f, hforest, hf⟩ := hg.exists_forestOf hc hapart hrows
  have hmem := hg.coherent.root_mem hroot
  have hentities : f.entitiesOf root.aliasName = g.grouped rows root := by
    rw [Forest.entitiesOf, Forest.refsOf, hf.keys_eq root hmem, List.map_map]
    exact List.map_congr_left fun k hk => hg.entity_eq hf hmem hk
  rw [materialize, hforest]
  show ((g.rootOrFault.map fun r => (f, r.aliasName)).map fun p => p.1.entitiesOf p.2) = _
  rw [rootOrFault, hroot]
  exact congrArg Except.ok hentities

/-- A child that is seen without its parent hangs from nothing. -/
theorem Grown.notMem_childKeys (hg : g.Grown) (hrows : ∀ r ∈ rows, g.Keyed r) {e : Edge}
    (he : e ∈ g.edges) {row : Row} (hp : e.parent.table.isPresent row = false) {k : NodeKey}
    (hk : k ∈ g.sightings rows e.parent) : g.keyIn e.child row ∉ g.childKeys rows e k := by
  intro hm
  obtain ⟨r, hr, hpresent, rfl⟩ := mem_sightings_iff.1 hk
  have hsame := (hg.isPrefixOf_keyIn_iff he).1 (List.mem_filter.1 hm).2
  have hparent := hg.isPresent_of_keyIn_eq (hg.parent_mem he)
    (hrows r hr _ (hg.parent_mem he) hpresent) hpresent hsame
  rw [hp] at hparent
  cases hparent

end Graph

namespace Session

/-- For every builder that calls have made, materializing rows groups them: there is one entity
for every key of the root in the order of first sight, an entity holds the fields of the first
row with its key and, for every edge onto its table, the children whose keys start with its own,
and a child that is seen without its parent is nobody's. -/
theorem materialize_groups (schema : Schema) (cs : List Command) {name : String} {b : Builder}
    (hb : ((ofSchema schema).obeyAll cs).builder? name = some b)
    (hapart : b.graph.ContainersApart) {chains chains' : KeyChains}
    (hp : b.graph.prepare chains = .ok chains') {rows : List Row}
    (hrows : ∀ r ∈ rows, b.graph.Keyed r) :
    ∃ root, b.graph.root = some root ∧
      (b.graph.materialize chains' .empty rows).entities =
        .ok ((b.graph.sightings rows root).map (b.graph.entityOf rows root)) ∧
      (∀ v k, b.graph.entityOf rows v k = .dict ((b.graph.fieldEntries rows v k ++
        (b.graph.edgesInto v.aliasName).map fun e => (e.container,
          e.gathered ((b.graph.childKeys rows e k).map (b.graph.entityOf rows e.child)))).map
            fun p => (.str p.1, p.2))) ∧
      ∀ e ∈ b.graph.edges, ∀ row ∈ rows, e.parent.table.isPresent row = false →
        ∀ k ∈ b.graph.sightings rows e.parent,
          b.graph.keyIn e.child row ∉ b.graph.childKeys rows e k := by
  have hg := grown_run schema cs hb
  obtain ⟨root, hroot⟩ := Option.isSome_iff_exists.1 hg.has_root
  refine ⟨root, hroot, ?_, ?_, ?_⟩
  · exact hg.entities_materialize (hg.isPrepared_prepare hp) hapart hrows hroot
  · exact hg.nested_eq _ _
  · intro e he row _ habsent k hk
    exact hg.notMem_childKeys hrows he habsent hk

/-- A schema of one description. -/
def sampleSchema : Schema := .ofSource (.uniform ⟨["id", "x"], ["id"]⟩)

/-- Calls that join a list and a single entity onto one table, and a list onto the former. -/
def sampleCalls : List Command :=
  let spec : JoinSpec := { kind := .ok .multiple, on := [(.str "x", .str "id")] }
  [.select "q" (.named "a") "a" false,
    .join "q" true (.named "b") (some "bs") "b" "a" spec,
    .join "q" false (.named "c") (some "c") "c" "a" spec,
    .join "q" true (.named "d") (some "ds") "d" "b" spec]

def sampleBuilder : Builder :=
  (((ofSchema sampleSchema).obeyAll sampleCalls).builder? "q").getD default

def sampleChains : KeyChains := (sampleBuilder.graph.prepare .empty).toOption.getD .empty

/-- Rows in which two entities share a child's key, a pair is repeated, a child comes without
its parent and a single child is replaced. -/
def sampleRows : List Row :=
  let row (a b c d : Value) : Row := .ofList [("a_id", a), ("b_id", b), ("c_id", c), ("d_id", d)]
  [row (.int 1) (.int 2) (.int 7) (.int 3), row (.int 1) (.int 2) (.int 8) (.int 4),
    row .null (.int 5) .null .null, row (.int 6) (.int 2) .null (.int 3)]

theorem materialize_groups_sample :
    ∃ root, sampleBuilder.graph.root = some root ∧
      sampleBuilder.graph.sightings sampleRows root = [[.ofInt 1], [.ofInt 6]] ∧
      (sampleBuilder.graph.materialize sampleChains .empty sampleRows).entities =
        .ok ([[.ofInt 1], [.ofInt 6]].map (sampleBuilder.graph.entityOf sampleRows root)) := by
  have hb : ((ofSchema sampleSchema).obeyAll sampleCalls).builder? "q" = some sampleBuilder := rfl
  have hp : sampleBuilder.graph.prepare .empty = .ok sampleChains := rfl
  have hapart : sampleBuilder.graph.ContainersApart := by decide
  have hrows : ∀ r ∈ sampleRows, sampleBuilder.graph.Keyed r := by decide
  obtain ⟨root, hroot, hentities, -, -⟩ :=
    materialize_groups sampleSchema sampleCalls hb hapart hp hrows
  obtain rfl := Option.some.inj hroot
  exact ⟨_, rfl, rfl, hentities⟩

end Session

end NestedJoin
