import NestedJoin.Builder
import NestedJoin.Proofs.FirstSeen
import NestedJoin.Proofs.KeyChains
set_option autoImplicit false

/-!
# Grouping rows

What it means to group flat rows by node keys, said without nodes, links or fragments.  A row
in which a table is present is a sighting of the table's key in it.  The entities of a table
are its distinct keys in the order of first sight.  An entity holds the fields of the first
row in which its key was seen, and for every edge onto its table the children whose keys
start with its own.

Main statement: `Graph.Grown.nested_eq`, a node holds its own fields and what its children hold.
-/

namespace NestedJoin

/-- What a row holds under some columns; what cannot be part of a key counts as null. -/
def Row.atoms (row : Row) (columns : List String) : NodeKey :=
  columns.map fun c => ((row.get? c).bind Value.atom?).getD .null

theorem Row.atoms_append (row : Row) (cs ds : List String) :
    row.atoms (cs ++ ds) = row.atoms cs ++ row.atoms ds := List.map_append

namespace Graph

/-! ## Definitions -/

/-- The key of a vertex in a row. -/
def keyIn (g : Graph) (v : Vertex) (row : Row) : NodeKey := row.atoms (g.chainOf v)

/-- Whether a row is a sighting of a key of a vertex. -/
def isSighting (g : Graph) (v : Vertex) (k : NodeKey) (row : Row) : Bool :=
  v.table.isPresent row && g.keyIn v row == k

/-- The distinct keys of a vertex in the order of first sight. -/
def sightings (g : Graph) (rows : List Row) (v : Vertex) : List NodeKey :=
  ((rows.filter v.table.isPresent).map (g.keyIn v)).eraseDups

/-- The fields of a node, with the values of the first row in which its key was seen. -/
def fieldEntries (g : Graph) (rows : List Row) (v : Vertex) (k : NodeKey) :
    List (String × Value) :=
  ((rows.find? (g.isSighting v k)).map v.table.extractEntries).getD []

/-- The keys of an edge's children that start with a parent's key, in the order of first sight. -/
def childKeys (g : Graph) (rows : List Row) (e : Edge) (k : NodeKey) : List NodeKey :=
  (g.sightings rows e.child).filter k.isPrefixOf

end Graph

namespace Edge

/-- What the container of an edge holds, given its children in the order of first sight: all of
them, or the one that was seen first after all others. -/
def gathered (e : Edge) (children : List Value) : Value :=
  match e.kind with
  | .multiple => .list children
  | _ => (children.getLast?).getD .null

end Edge

namespace Graph

section Nesting

variable {α : Type} (fields : Vertex → α → List (String × Value)) (children : Edge → α → List α)

/-- The containers of a node of a vertex along some edges, by the fields of nodes and by the
nodes attached to others. -/
def branches : List Edge → Vertex → α → List (String × Value)
  | [], _, _ => []
  | e :: es, v, n =>
    let nested (n' : α) : Value := .dict <|
      (fields e.child n' ++ branches es e.child n').map fun p => (.str p.1, p.2)
    if e.parentAlias = v.aliasName then
      (e.container, e.gathered ((children e n).map nested)) :: branches es v n
    else branches es v n

/-- What a node holds: its fields, and its containers along all edges. -/
def nested (g : Graph) (v : Vertex) (n : α) : Value := .dict <|
  (fields v n ++ branches fields children g.edges v n).map fun p => (.str p.1, p.2)

end Nesting

/-- The entity of a node. -/
def entityOf (g : Graph) (rows : List Row) : Vertex → NodeKey → Value :=
  g.nested (g.fieldEntries rows) (g.childKeys rows)

/-- The entities of the root in the order of first sight. -/
def grouped (g : Graph) (rows : List Row) (root : Vertex) : List Value :=
  (g.sightings rows root).map (g.entityOf rows root)

/-- A row holds, for every table present in it, every column of the table's key chain, and the
values there can be part of a key. -/
def Keyed (g : Graph) (row : Row) : Prop :=
  ∀ v ∈ g.vertices, v.table.isPresent row = true →
    ∀ c ∈ g.chainOf v, (row.get? c).any Value.isScalar = true

instance (g : Graph) (row : Row) : Decidable (g.Keyed row) :=
  inferInstanceAs (Decidable (∀ v ∈ g.vertices, _ → ∀ c ∈ g.chainOf v, _))

/-- The containers of every table are different, from each other and from its fields. -/
def ContainersApart (g : Graph) : Prop :=
  ∀ v ∈ g.vertices, (v.table.fields ++ (g.edgesInto v.aliasName).map Edge.container).Nodup

instance (g : Graph) : Decidable g.ContainersApart :=
  inferInstanceAs (Decidable (∀ v ∈ g.vertices, _))

/-! ## Keys in rows -/

theorem length_keyIn (g : Graph) (v : Vertex) (row : Row) :
    (g.keyIn v row).length = (g.chainOf v).length := List.length_map _

namespace Grown

variable {g : Graph}

/-- The key of a child starts with the key of its parent. -/
theorem keyIn_child (h : g.Grown) {e : Edge} (he : e ∈ g.edges) (row : Row) :
    g.keyIn e.child row = g.keyIn e.parent row ++ row.atoms e.child.table.keyColumns := by
  rw [keyIn, h.chainOf_child he, Row.atoms_append]
  rfl

/-- A key of the parent's that a child's key starts with is the parent's in the same row. -/
theorem isPrefixOf_keyIn_iff (h : g.Grown) {e : Edge} (he : e ∈ g.edges) {row row' : Row} :
    (g.keyIn e.parent row').isPrefixOf (g.keyIn e.child row) = true ↔
      g.keyIn e.parent row' = g.keyIn e.parent row := by
  rw [List.isPrefixOf_iff_prefix, h.keyIn_child he]
  constructor
  · intro hp
    have hq := List.prefix_append (g.keyIn e.parent row) (row.atoms e.child.table.keyColumns)
    have hlen : (g.keyIn e.parent row').length = (g.keyIn e.parent row).length := by
      rw [length_keyIn, length_keyIn]
    exact (List.prefix_of_prefix_length_le hp hq (Nat.le_of_eq hlen)).eq_of_length hlen
  · intro hq
    rw [hq]
    exact List.prefix_append _ _

/-- Whether a table is present can be told from its key: a sighting of the key of a row is a
row in which the table is present as well. -/
theorem isPresent_of_keyIn_eq (h : g.Grown) {v : Vertex} (hv : v ∈ g.vertices) {row row' : Row}
    (hk : ∀ c ∈ g.chainOf v, (row.get? c).any Value.isScalar = true)
    (hp : v.table.isPresent row = true) (hq : g.keyIn v row = g.keyIn v row') :
    v.table.isPresent row' = true := by
  obtain ⟨c, hc, hholds⟩ := List.any_eq_true.1 hp
  have hchain := h.keyColumns_subset_chainOf hv c hc
  obtain ⟨x, hx, hscalar⟩ := (Option.any_eq_true _ _).1 (hk c hchain)
  obtain ⟨a, ha⟩ := Option.isSome_iff_exists.1 hscalar
  have hne : a ≠ .null := by
    rintro rfl
    rw [Value.denoted?_eq_null_iff.1 (Value.denoted?_of_atom ha)] at hx
    rw [Row.holds, hx] at hholds
    cases hholds
  have hatom : a = ((row'.get? c).bind Value.atom?).getD .null := by
    have hmap := List.map_inj_left.1 hq c hchain
    rwa [hx, Option.bind_some, ha, Option.getD_some] at hmap
  refine List.any_eq_true.2 ⟨c, hc, ?_⟩
  unfold Row.holds
  cases hy : row'.get? c with
  | none => exact absurd (by rw [hatom, hy]; rfl) hne
  | some y =>
    cases y with
    | null => exact absurd (by rw [hatom, hy]; rfl) hne
    | _ => rfl

end Grown

/-- The values under a chain of columns that a row holds are filed by their atoms. -/
theorem filingKey_eq {g : Graph} {chains : KeyChains} {v : Vertex} {row : Row}
    (hc : chains.chainOf v = g.chainOf v)
    (hk : ∀ c ∈ g.chainOf v, (row.get? c).any Value.isScalar = true) :
    chains.filingKey v row = .ok (g.keyIn v row) := by
  rw [KeyChains.filingKey_eq_ok_iff, hc, keyIn, Row.atoms, List.map_map]
  refine List.map_congr_left fun c hm => ?_
  obtain ⟨x, hx, hscalar⟩ := (Option.any_eq_true _ _).1 (hk c hm)
  obtain ⟨a, ha⟩ := Option.isSome_iff_exists.1 hscalar
  rw [Function.comp_apply, hx, Option.bind_some, ha, Option.getD_some]

/-- A row that can be filed holds every column of the chain, and its key is what it holds there. -/
theorem of_filingKey_eq_ok {g : Graph} {chains : KeyChains} {v : Vertex} {row : Row} {k : NodeKey}
    (hc : chains.chainOf v = g.chainOf v) (h : chains.filingKey v row = .ok k) :
    (∀ c ∈ g.chainOf v, (row.get? c).any Value.isScalar = true) ∧ k = g.keyIn v row := by
  have hmap := KeyChains.filingKey_eq_ok_iff.1 h
  rw [hc] at hmap
  have hheld : ∀ c ∈ g.chainOf v, (row.get? c).any Value.isScalar = true := by
    intro c hm
    have hx := List.mem_map_of_mem (f := fun c => (row.get? c).bind Value.atom?) hm
    rw [hmap] at hx
    obtain ⟨a, -, ha⟩ := List.mem_map.1 hx
    obtain ⟨x, hget, hatom⟩ := Option.bind_eq_some_iff.1 ha.symm
    rw [hget, Option.any_some, Value.isScalar, hatom]
    rfl
  exact ⟨hheld, Except.ok.inj (h.symm.trans (filingKey_eq hc hheld))⟩

/-! ## Sightings -/

section Sightings

variable {g : Graph} {rows : List Row} {row : Row} {v : Vertex} {k : NodeKey}

theorem mem_sightings_iff :
    k ∈ g.sightings rows v ↔ ∃ r ∈ rows, v.table.isPresent r = true ∧ g.keyIn v r = k := by
  simp [sightings, List.mem_eraseDups, and_assoc]

theorem nodup_sightings (g : Graph) (rows : List Row) (v : Vertex) :
    (g.sightings rows v).Nodup := nodup_eraseDups _

/-- A row in which a table is absent is no sighting of it. -/
theorem sightings_concat_of_absent (h : v.table.isPresent row = false) :
    g.sightings (rows ++ [row]) v = g.sightings rows v := by
  rw [sightings, List.filter_append]
  simp [h, sightings]

/-- A row in which a table is present adds its key at the end, unless it was seen before. -/
theorem sightings_concat_of_present (h : v.table.isPresent row = true) :
    g.sightings (rows ++ [row]) v =
      if g.keyIn v row ∈ g.sightings rows v then g.sightings rows v
      else g.sightings rows v ++ [g.keyIn v row] := by
  have hmap : ((rows ++ [row]).filter v.table.isPresent).map (g.keyIn v) =
      (rows.filter v.table.isPresent).map (g.keyIn v) ++ [g.keyIn v row] := by
    rw [List.filter_append]
    simp [h]
  rw [sightings, hmap, eraseDups_concat]
  simp only [sightings, List.mem_eraseDups]

/-- The fields of a key that was seen already stay. -/
theorem fieldEntries_concat_of_mem (h : k ∈ g.sightings rows v) :
    g.fieldEntries (rows ++ [row]) v k = g.fieldEntries rows v k := by
  obtain ⟨r, hr, hp, hk⟩ := mem_sightings_iff.1 h
  have hs : (rows.find? (g.isSighting v k)).isSome = true := by
    rw [List.find?_isSome]
    exact ⟨r, hr, by simp [isSighting, hp, hk]⟩
  rw [fieldEntries, List.find?_append, Option.or_of_isSome hs]
  rfl

/-- The fields of a key that was not seen before are those of the row. -/
theorem fieldEntries_concat_of_new (hp : v.table.isPresent row = true)
    (hn : g.keyIn v row ∉ g.sightings rows v) :
    g.fieldEntries (rows ++ [row]) v (g.keyIn v row) = v.table.extractEntries row := by
  have hs : rows.find? (g.isSighting v (g.keyIn v row)) = none := by
    refine List.find?_eq_none.2 fun r hr hsight => hn ?_
    simp only [isSighting, Bool.and_eq_true, beq_iff_eq] at hsight
    exact mem_sightings_iff.2 ⟨r, hr, hsight.1, hsight.2⟩
  rw [fieldEntries, List.find?_append, hs]
  simp [isSighting, hp]

end Sightings

/-! ## Containers of a node -/

section Nesting

variable {α : Type} (fields : Vertex → α → List (String × Value)) (children : Edge → α → List α)

/-- The containers along some edges are one for each edge onto the vertex. -/
theorem branches_eq_map (entity : Edge → α → Value) {es : List Edge} {v : Vertex} {n : α}
    (h : ∀ before e after, es = before ++ e :: after → e.parentAlias = v.aliasName → ∀ n',
      entity e n' = .dict ((fields e.child n' ++ branches fields children after e.child n').map
        fun p => (.str p.1, p.2))) :
    branches fields children es v n =
      (es.filter fun e => e.parentAlias == v.aliasName).map fun e =>
        (e.container, e.gathered ((children e n).map (entity e))) := by
  induction es with
  | nil => rfl
  | cons e es ih =>
    have ih' := ih fun before f after hs => h (e :: before) f after (by rw [hs]; rfl)
    by_cases hp : e.parentAlias = v.aliasName
    · have he : entity e = _ := funext (h [] e es rfl hp)
      simp only [branches, hp, if_true, beq_self_eq_true, List.filter_cons_of_pos, List.map_cons,
        he, ih']
    · have hb : (e.parentAlias == v.aliasName) = false := beq_eq_false_iff_ne.2 hp
      simp only [branches, hp, if_false, hb, List.filter_cons_of_neg, ih', Bool.false_eq_true,
        not_false_eq_true]

/-- Edges onto other tables contribute no containers. -/
theorem branches_append_of_not_mem {es fs : List Edge} {v : Vertex} {n : α}
    (h : v.aliasName ∉ es.map Edge.parentAlias) :
    branches fields children (es ++ fs) v n = branches fields children fs v n := by
  induction es with
  | nil => rfl
  | cons e es ih =>
    rw [List.map_cons, List.mem_cons, not_or] at h
    rw [List.cons_append, branches, if_neg (fun q => h.1 q.symm), ih h.2]

/-- A node holds its own fields and, for every edge onto its vertex, what its children hold. -/
theorem Grown.nested_eq {g : Graph} (h : g.Grown) (v : Vertex) (n : α) :
    g.nested fields children v n = .dict ((fields v n ++
      (g.edgesInto v.aliasName).map fun e =>
        (e.container, e.gathered ((children e n).map (g.nested fields children e.child)))).map
          fun p => (.str p.1, p.2)) := by
  rw [nested, h.coherent.edgesInto_eq]
  congr 3
  refine branches_eq_map fields children (fun e => g.nested fields children e.child) ?_
  intro before e after hs hp n'
  have hnot := h.coherent.alias_notMem_parents hs
  rw [nested, hs, List.append_cons, branches_append_of_not_mem fields children hnot]

end Nesting

end Graph

end NestedJoin
