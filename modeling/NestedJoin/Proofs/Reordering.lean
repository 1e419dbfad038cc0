import Mathlib.Data.List.Pairwise
import NestedJoin.Proofs.Lossless
set_option autoImplicit false

/-!
# Rows in another order

The order of rows decides in which order keys are seen, and with it the order of entities.  If
rows that show one key of a table agree on the table, it decides nothing else: the keys are the
same, so are the fields of their nodes and the keys below them.  An entity is then the same but
for the order of its lists, at every depth.

Main statement: `Session.materialize_perm`.
-/

namespace NestedJoin

namespace Graph

/-! ## Definitions -/

/-- If two rows show one key of a table, they hold the same values for the table. -/
def AlikeAt (g : Graph) (v : Vertex) (r r' : Row) : Prop :=
  v.table.isPresent r = true → v.table.isPresent r' = true → g.keyIn v r = g.keyIn v r' →
    v.table.extractEntries r = v.table.extractEntries r'

/-- Rows that show one key of a table hold the same values for the table. -/
def Consistent (g : Graph) (rows : List Row) : Prop :=
  ∀ v ∈ g.vertices, ∀ r ∈ rows, ∀ r' ∈ rows, g.AlikeAt v r r'

/-- The entity of a vertex with some fields, and with some children along each edge onto it. -/
def assembled (g : Graph) (v : Vertex) (fields : List (String × Value))
    (children : Edge → List Value) : Value :=
  .dict <| (fields ++ (g.edgesInto v.aliasName).map fun e =>
    (e.container, e.gathered (children e))).map fun p => (.str p.1, p.2)

/-- Two entities of a vertex are the same but for the order of their lists: they have the same
fields, and along every edge their children can be paired off so that those of a pair are the same
in this sense.  Only along an edge for lists may the second children stand in another order. -/
inductive Reordered (g : Graph) : Vertex → Value → Value → Prop where
  | intro {v : Vertex} (fields : List (String × Value)) (pairs : Edge → List (Value × Value))
    (children : Edge → List Value)
    (alike : ∀ e ∈ g.edgesInto v.aliasName, ∀ p ∈ pairs e, Reordered g e.child p.1 p.2)
    (rearranged : ∀ e ∈ g.edgesInto v.aliasName, (children e).Perm ((pairs e).map Prod.snd))
    (kept : ∀ e ∈ g.edgesInto v.aliasName, e.kind ≠ .multiple →
      children e = (pairs e).map Prod.snd) :
    Reordered g v (g.assembled v fields fun e => (pairs e).map Prod.fst)
      (g.assembled v fields children)

/-! ## Keys and fields -/

variable {g : Graph} {rows rows' : List Row}

/-- It is enough to compare every row with the later ones. -/
theorem consistent_of_pairwise (h : ∀ v ∈ g.vertices, rows.Pairwise (g.AlikeAt v)) :
    g.Consistent rows := by
  intro v hv r hr r' hr'
  have hsymm : Std.Symm (g.AlikeAt v) := ⟨fun _ _ h hp hp' hk => (h hp' hp hk.symm).symm⟩
  exact (h v hv).forall_of_forall (fun _ _ _ _ _ => rfl) hr hr'

/-- The same keys are seen in rows in another order. -/
theorem sightings_perm (h : rows.Perm rows') (v : Vertex) :
    (g.sightings rows v).Perm (g.sightings rows' v) := by
  refine (List.perm_ext_iff_of_nodup (nodup_sightings g rows v) (nodup_sightings g rows' v)).2 ?_
  intro k
  rw [mem_sightings_iff, mem_sightings_iff]
  exact exists_congr fun r => and_congr_left' h.mem_iff

theorem childKeys_perm (h : rows.Perm rows') (e : Edge) (k : NodeKey) :
    (g.childKeys rows e k).Perm (g.childKeys rows' e k) := (sightings_perm h e.child).filter _

/-- The first rows of a node hold the same values, whichever they are. -/
theorem Consistent.fieldEntries_eq (hc : g.Consistent rows) (h : rows.Perm rows') {v : Vertex}
    (hv : v ∈ g.vertices) {k : NodeKey} (hk : k ∈ g.sightings rows v) :
    g.fieldEntries rows v k = g.fieldEntries rows' v k := by
  obtain ⟨r, hr, hfirst, hfields⟩ := exists_find?_sighting hk
  obtain ⟨r', hr', hfirst', hfields'⟩ := exists_find?_sighting ((sightings_perm h v).mem_iff.1 hk)
  have hsight := List.find?_some hfirst
  have hsight' := List.find?_some hfirst'
  rw [isSighting, Bool.and_eq_true, beq_iff_eq] at hsight hsight'
  rw [hfields, hfields']
  exact hc v hv r hr r' (h.mem_iff.2 hr') hsight.1 hsight'.1 (hsight.2.trans hsight'.2.symm)

/-- At most one child cannot be reordered. -/
theorem SingleChildren.childKeys_eq (hs : g.SingleChildren rows) (h : rows.Perm rows') {e : Edge}
    (he : e ∈ g.edges) (hkind : e.kind = .single) {k : NodeKey}
    (hk : k ∈ g.sightings rows e.parent) : g.childKeys rows e k = g.childKeys rows' e k := by
  have hperm := childKeys_perm h (g := g) e k
  have hlength := hs e he hkind k hk
  match hkeys : g.childKeys rows e k with
  | [] =>
    rw [hkeys] at hperm
    exact hperm.symm.eq_nil.symm
  | [k'] =>
    rw [hkeys] at hperm
    exact hperm.symm.eq_singleton.symm
  | k' :: l :: ls =>
    rw [hkeys, List.length_cons, List.length_cons] at hlength
    omega

/-! ## Entities -/

/-- An entity holds its fields and its children. -/
theorem Grown.entityOf_eq (hg : g.Grown) (rows : List Row) (v : Vertex) (k : NodeKey) :
    g.entityOf rows v k = g.assembled v (g.fieldEntries rows v k) fun e =>
      (g.childKeys rows e k).map (g.entityOf rows e.child) :=
  hg.nested_eq (g.fieldEntries rows) (g.childKeys rows) v k

/-- Entities are the same but for the order of their lists.  Children are joined later than their
parents, so the induction is on the number of aliases from the entity's own on. -/
theorem Grown.reordered_entityOf (hg : g.Grown) (h : rows.Perm rows')
    (hc : g.Consistent rows) (hs : g.SingleChildren rows) {n : Nat} :
    ∀ v ∈ g.vertices, g.aliases.length ≤ n + g.aliases.idxOf v.aliasName →
      ∀ k ∈ g.sightings rows v, g.Reordered v (g.entityOf rows v k) (g.entityOf rows' v k) := by
  induction n with
  | zero =>
    intro v hv hn
    have hlt := List.idxOf_lt_length_of_mem (hg.coherent.alias_mem hv)
    omega
  | succ n ih =>
    intro v hv hn k hk
    let pairs (e : Edge) : List (Value × Value) :=
      (g.childKeys rows e k).map fun k' => (g.entityOf rows e.child k', g.entityOf rows' e.child k')
    have hfst : ∀ e, (pairs e).map Prod.fst =
        (g.childKeys rows e k).map (g.entityOf rows e.child) := fun e => List.map_map
    have hsnd : ∀ e, (pairs e).map Prod.snd =
        (g.childKeys rows e k).map (g.entityOf rows' e.child) := fun e => List.map_map
    rw [hg.entityOf_eq, hg.entityOf_eq, ← hc.fieldEntries_eq h hv hk]
    simp only [← hfst]
    refine .intro _ pairs _ ?_ ?_ ?_
    · intro e he p hp
      obtain ⟨hmem, rfl⟩ := (hg.mem_edgesInto_iff hv).1 he
      obtain ⟨k', hk', rfl⟩ := List.mem_map.1 hp
      have hlater := hg.coherent.isRootedTree.parent_first e hmem
      refine ih e.child (hg.coherent.child_mem hmem) ?_ k' (List.mem_filter.1 hk').1
      show g.aliases.length ≤ n + g.aliases.idxOf e.aliasName
      change g.aliases.length ≤ n + 1 + g.aliases.idxOf e.parentAlias at hn
      omega
    · intro e he
      rw [hsnd]
      exact ((childKeys_perm h e k).map _).symm
    · intro e he hkind
      obtain ⟨hmem, rfl⟩ := (hg.mem_edgesInto_iff hv).1 he
      have hsingle := (hg.kind_eq e hmem).resolve_right hkind
      rw [hsnd, hs.childKeys_eq h hmem hsingle hk]

end Graph

namespace Session

/-- For every builder that calls have made, and rows in two orders that agree wherever they show one
key and give a single edge one child at most: both are materialized, and the entities of the second
are those of the first in some order, the same but for the order of the lists for multiple edges, at
every depth. -/
theorem materialize_perm (schema : Schema) (cs : List Command) {name : String} {b : Builder}
    (hb : ((ofSchema schema).obeyAll cs).builder? name = some b)
    (hapart : b.graph.ContainersApart) {chains chains' : KeyChains}
    (hp : b.graph.prepare chains = .ok chains') {rows rows' : List Row} (hperm : rows.Perm rows')
    (hrows : ∀ r ∈ rows, b.graph.Keyed r) (hconsistent : b.graph.Consistent rows)
    (hsingle : b.graph.SingleChildren rows) :
    ∃ root es es', b.graph.root = some root ∧
      (b.graph.materialize chains' .empty rows).entities = .ok es ∧
      (b.graph.materialize chains' .empty rows').entities = .ok es' ∧
      ∃ pairs : List (Value × Value), es = pairs.map Prod.fst ∧ es'.Perm (pairs.map Prod.snd) ∧
        ∀ p ∈ pairs, b.graph.Reordered root p.1 p.2 := by
  have hg := grown_run schema cs hb
  obtain ⟨root, hroot⟩ := Option.isSome_iff_exists.1 hg.has_root
  have hprepared := hg.isPrepared_prepare hp
  have hrows' : ∀ r ∈ rows', b.graph.Keyed r := fun r hr => hrows r (hperm.mem_iff.2 hr)
  refine ⟨root, _, _, hroot, hg.entities_materialize hprepared hapart hrows hroot,
    hg.entities_materialize hprepared hapart hrows' hroot, ?_⟩
  refine ⟨(b.graph.sightings rows root).map fun k =>
    (b.graph.entityOf rows root k, b.graph.entityOf rows' root k), ?_, ?_, ?_⟩
  · rw [List.map_map]
    rfl
  · rw [List.map_map]
    exact ((Graph.sightings_perm hperm root).map _).symm
  · intro p hp
    obtain ⟨k, hk, rfl⟩ := List.mem_map.1 hp
    exact hg.reordered_entityOf hperm hconsistent hsingle root (hg.coherent.root_mem hroot)
      (Nat.le_add_right _ _) k hk

/-- Rows of two entities; the second has a single child, and two others with a child each. -/
def scatteredRows : List Row :=
  let row (a b c d : Value) : Row :=
    .ofList [("a_id", a), ("a_x", a), ("b_id", b), ("b_x", b), ("c_id", c), ("c_x", c),
      ("d_id", d), ("d_x", d)]
  [row (.int 6) (.int 2) .null .null, row (.int 1) (.int 2) (.int 7) (.int 3),
    row (.int 1) (.int 5) (.int 7) (.int 3)]

/-- The rows in reverse order show the second entity first. -/
theorem materialize_perm_scattered : ∃ root es es', sampleBuilder.graph.root = some root ∧
    sampleBuilder.graph.sightings scatteredRows root = [[.ofInt 6], [.ofInt 1]] ∧
    sampleBuilder.graph.sightings scatteredRows.reverse root = [[.ofInt 1], [.ofInt 6]] ∧
    (sampleBuilder.graph.materialize sampleChains .empty scatteredRows).entities = .ok es ∧
    (sampleBuilder.graph.materialize sampleChains .empty scatteredRows.reverse).entities = .ok es' ∧
    ∃ pairs : List (Value × Value), es = pairs.map Prod.fst ∧ es'.Perm (pairs.map Prod.snd) ∧
      ∀ p ∈ pairs, sampleBuilder.graph.Reordered root p.1 p.2 := by
  have hb : ((ofSchema sampleSchema).obeyAll sampleCalls).builder? "q" = some sampleBuilder := rfl
  have hp : sampleBuilder.graph.prepare .empty = .ok sampleChains := rfl
  have hapart : sampleBuilder.graph.ContainersApart := by decide
  have hrows : ∀ r ∈ scatteredRows, sampleBuilder.graph.Keyed r := by decide
  have hsingle : sampleBuilder.graph.SingleChildren scatteredRows := by decide
  have hconsistent : sampleBuilder.graph.Consistent scatteredRows := by
    have hpairs : ∀ {related : Row → Row → Prop} {r s t : Row}, related r s → related r t →
        related s t → [r, s, t].Pairwise related := fun hrs hrt hst =>
      .cons (List.forall_mem_cons.2 ⟨hrs, List.forall_mem_singleton.2 hrt⟩)
        (List.pairwise_pair.2 hst)
    refine Graph.consistent_of_pairwise fun v hv => ?_
    rcases List.mem_cons.1 hv with rfl | hv
    · exact hpairs (fun _ _ hk => absurd hk (by decide)) (fun _ _ hk => absurd hk (by decide))
        fun _ _ _ => rfl
    rcases List.mem_cons.1 hv with rfl | hv
    · exact hpairs (fun _ _ hk => absurd hk (by decide)) (fun _ _ hk => absurd hk (by decide))
        fun _ _ hk => absurd hk (by decide)
    rcases List.mem_cons.1 hv with rfl | hv
    · exact hpairs (fun habsent => absurd habsent (by decide))
        (fun habsent => absurd habsent (by decide)) fun _ _ _ => rfl
    obtain rfl := List.mem_singleton.1 hv
    exact hpairs (fun habsent => absurd habsent (by decide))
      (fun habsent => absurd habsent (by decide)) fun _ _ hk => absurd hk (by decide)
  obtain ⟨root, es, es', hroot, hfirst, hsecond, hpaired⟩ :=
    materialize_perm sampleSchema sampleCalls hb hapart hp (List.reverse_perm scatteredRows).symm
      hrows hconsistent hsingle
  obtain rfl := Option.some.inj hroot
  exact ⟨_, es, es', rfl, rfl, rfl, hfirst, hsecond, hpaired⟩

end Session

end NestedJoin
