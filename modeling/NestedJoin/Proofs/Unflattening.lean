import NestedJoin.Proofs.Decoding
import NestedJoin.Proofs.Flattening
import NestedJoin.Proofs.Materializing
set_option autoImplicit false

/-!
# Materializing undoes flattening

The rows of some entities repeat every entity as often as its neighbours have rows.  Among the
rows that hold the key of an entity, though, what is seen below it comes in the order of the
entity's own choices; that is all that grouping goes by, so it gives the entities back.

Main statements: `Graph.Grown.branches_eq` and `Session.materialize_flatten`.
-/

namespace NestedJoin

namespace Graph

/-! ## Rows of choices -/

section Rows

variable {g : Graph} {v : Vertex} {c : Choice} {x : Entity}

/-- The row of a choice holds a value for every field. -/
theorem Coherent.get?_rowOf (h : g.Coherent) (hv : v ∈ g.vertices) {f : String}
    (hf : f ∈ v.table.fields) (c : Choice) :
    (g.rowOf c).get? (v.table.column f) = some (c.valueAt v f) := h.get?_rowWith c.valueAt hv hf

theorem extractEntries_rowOf (h : g.Coherent) (hv : v ∈ g.vertices)
    (hx : c v.aliasName = some x) : v.table.extractEntries (g.rowOf c) = x.fieldsOf v := by
  refine (h.extractEntries_rowWith c.valueAt hv).trans (List.map_congr_left fun f _ => ?_)
  rw [Choice.valueAt, hx]
  rfl

theorem atoms_rowOf (h : g.Coherent) (hv : v ∈ g.vertices) (c : Choice) :
    (g.rowOf c).atoms v.table.keyColumns = c.keyOf v := by
  rw [Row.atoms, Table.keyColumns, List.map_map]
  refine List.map_congr_left fun f hf => ?_
  show (((g.rowOf c).get? (v.table.column f)).bind Value.atom?).getD .null = _
  rw [h.get?_rowOf hv (v.table.primaryKey_subset f hf)]
  rfl

theorem keyIn_root_rowOf (h : g.Grown) (hr : g.root = some v) (c : Choice) :
    g.keyIn v (g.rowOf c) = c.keyOf v := by
  rw [keyIn, h.chainOf_root hr]
  exact atoms_rowOf h.coherent (h.coherent.root_mem hr) c

theorem keyIn_child_rowOf (h : g.Grown) {e : Edge} (he : e ∈ g.edges) (c : Choice) :
    g.keyIn e.child (g.rowOf c) = g.keyIn e.parent (g.rowOf c) ++ c.keyOf e.child := by
  rw [h.keyIn_child he, atoms_rowOf h.coherent (h.coherent.child_mem he)]

/-- A table of which nothing is chosen is absent. -/
theorem isPresent_rowOf_of_none (h : g.Coherent) (hv : v ∈ g.vertices)
    (hc : c v.aliasName = none) : v.table.isPresent (g.rowOf c) = false := by
  rw [Table.isPresent, List.any_eq_false]
  intro column hcolumn
  obtain ⟨f, hf, rfl⟩ := List.mem_map.1 hcolumn
  rw [Row.holds, h.get?_rowOf hv (v.table.primaryKey_subset f hf), Choice.valueAt, hc]
  exact Bool.false_ne_true

theorem isPresent_rowOf_of_some (h : g.Coherent) (hv : v ∈ g.vertices)
    (hc : c v.aliasName = some x) (hx : ∃ f ∈ v.table.primaryKey, x.value f ≠ .null) :
    v.table.isPresent (g.rowOf c) = true := by
  obtain ⟨f, hf, hne⟩ := hx
  rw [Table.isPresent, List.any_eq_true]
  refine ⟨v.table.column f, List.mem_map_of_mem hf, ?_⟩
  refine Row.holds_of_get? (h.get?_rowOf hv (v.table.primaryKey_subset f hf) c) ?_
  rw [Choice.valueAt, hc]
  exact hne

/-- A choice of entities with scalar keys makes a row in which every key can be filed. -/
theorem keyed_rowOf (h : g.Coherent) (hc : ∀ w ∈ g.vertices, ∀ y, c w.aliasName = some y →
    ∀ f ∈ w.table.primaryKey, (y.value f).isScalar = true) : g.Keyed (g.rowOf c) := by
  intro v _ _ column hcolumn
  obtain ⟨w, hw, hkey⟩ := exists_of_mem_chainOf hcolumn
  obtain ⟨f, hf, rfl⟩ := List.mem_map.1 hkey
  rw [h.get?_rowOf hw (w.table.primaryKey_subset f hf), Choice.valueAt, Option.any_some]
  cases hchosen : c w.aliasName with
  | none => rfl
  | some y => exact hc w hw y hchosen f hf

end Rows

/-! ## Shapes -/

namespace Shaped

variable {g : Graph} {v : Vertex} {x : Entity}

theorem scalar (h : g.Shaped v x) : ∀ f ∈ v.table.primaryKey, (x.value f).isScalar = true := by
  obtain ⟨hscalar, -, -, -, -⟩ := h
  exact hscalar

theorem held (h : g.Shaped v x) : ∃ f ∈ v.table.primaryKey, x.value f ≠ .null := by
  obtain ⟨-, hheld, -, -, -⟩ := h
  exact hheld

theorem child (h : g.Shaped v x) {e : Edge} (he : e ∈ g.edgesInto v.aliasName) {y : Entity}
    (hy : y ∈ Entity.childrenOf e x) : g.Shaped e.child y := by
  obtain ⟨-, -, -, -, hchildren⟩ := h
  exact hchildren e he y hy

/-- No two children along one edge have one key, whatever the edge's kind. -/
theorem keys_nodup (h : g.Shaped v x) (hg : g.Grown) (hv : v ∈ g.vertices) {e : Edge}
    (he : e ∈ g.edgesInto v.aliasName) :
    ((Entity.childrenOf e x).map (Entity.keyOf e.child)).Nodup := by
  obtain ⟨-, -, hsingle, hdistinct, -⟩ := h
  rcases hg.kind_eq e ((hg.mem_edgesInto_iff hv).1 he).1 with hk | hk
  · have hlength := hsingle e he hk
    match hys : Entity.childrenOf e x with
    | [] => exact List.nodup_nil
    | [y] => exact List.nodup_singleton _
    | y :: z :: zs =>
      rw [hys, List.length_cons, List.length_cons] at hlength
      omega
  · exact hdistinct e he hk

/-- Whatever is chosen below an entity has the shape of the vertex it is chosen for. -/
theorem of_choice (hg : g.Grown) {es : List Edge} (hes : ∀ e ∈ es, e ∈ g.edges)
    (hv : v ∈ g.vertices) (hx : g.Shaped v x) {c : Choice} (hc : c ∈ choices es v x) {a : String}
    {y : Entity} (ha : c a = some y) : ∃ w ∈ g.vertices, w.aliasName = a ∧ g.Shaped w y := by
  induction es generalizing v x c with
  | nil =>
    rw [List.mem_singleton.1 hc] at ha
    cases ha
  | cons e es ih =>
    have he := hes e List.mem_cons_self
    have hrest : ∀ e' ∈ es, e' ∈ g.edges := fun e' hm => hes e' (List.mem_cons_of_mem e hm)
    by_cases hp : e.parentAlias = v.aliasName
    · rw [choices_cons hp, List.mem_flatMap] at hc
      obtain ⟨d, hd, hc⟩ := hc
      obtain ⟨d', hd', rfl⟩ := List.mem_map.1 hc
      have hparent := hg.coherent.eq_of_aliasName (hg.parent_mem he) hv hp
      have hinto := (hg.mem_edgesInto_iff hv).2 ⟨he, hparent⟩
      rcases Option.or_eq_some_iff.1 ha with ha | ⟨-, ha⟩
      · rcases mem_ownChoices hd with rfl | hd
        · cases ha
        · obtain ⟨z, hz, d₀, hd₀, rfl⟩ := mem_picks_iff.1 hd
          have hshape := hx.child hinto hz
          by_cases hq : a = e.aliasName
          · rw [Choice.pick, if_pos hq] at ha
            obtain rfl := Option.some.inj ha
            exact ⟨e.child, hg.coherent.child_mem he, hq.symm, hshape⟩
          · rw [Choice.pick, if_neg hq] at ha
            exact ih hrest (hg.coherent.child_mem he) hshape hd₀ ha
      · exact ih hrest hv hx hd' ha
    · rw [choices_cons_of_ne hp] at hc
      exact ih hrest hv hx hc ha

end Shaped

/-! ## Rows of one entity -/

/-- Among some choices, those whose rows hold the key of an entity pick that entity, and show what
is below it in the order of its own choices. -/
structure Spreads (g : Graph) (cs : List Choice) (es : List Edge) (v : Vertex) (k : NodeKey)
    (x : Entity) : Prop where
  picked : ∀ c ∈ cs, g.isSighting v k (g.rowOf c) = true → c v.aliasName = some x
  order : SameOrder ((cs.filter fun c => g.isSighting v k (g.rowOf c)).map
    (Choice.within (below es v))) (choices es v x)

/-- Among some choices, those that pick something for a vertex pick some entities in order. -/
def Shows (cs : List Choice) (es : List Edge) (w : Vertex) (ys : List Entity) : Prop :=
  SameOrder ((cs.filter fun c => (c w.aliasName).isSome).map
    (Choice.within (w.aliasName :: below es w))) (Choice.picks (choices es w) w.aliasName ys)

section Shows

variable {g : Graph} {cs : List Choice} {es : List Edge} {w : Vertex} {ys : List Entity}

theorem Shows.mem (h : Shows cs es w ys) {c : Choice} (hc : c ∈ cs) {y : Entity}
    (hy : c w.aliasName = some y) : y ∈ ys := by
  have hmem : c.within (w.aliasName :: below es w) ∈
      (cs.filter fun c => (c w.aliasName).isSome).map
        (Choice.within (w.aliasName :: below es w)) :=
    List.mem_map_of_mem (List.mem_filter.2 ⟨hc, by rw [hy]; rfl⟩)
  obtain ⟨z, hz, d, -, hd⟩ := mem_picks_iff.1 (SameOrder.mem h hmem)
  have hpicked := congrFun hd w.aliasName
  rw [Choice.pick_self, Choice.within, if_pos List.mem_cons_self, hy] at hpicked
  rwa [Option.some.inj hpicked]

/-- A vertex is present in just the rows for which something is picked. -/
theorem Shows.isPresent_eq (h : Shows cs es w ys) (hg : g.Grown) (hw : w ∈ g.vertices)
    (hys : ∀ y ∈ ys, g.Shaped w y) {c : Choice} (hc : c ∈ cs) :
    w.table.isPresent (g.rowOf c) = (c w.aliasName).isSome := by
  cases hy : c w.aliasName with
  | none => exact isPresent_rowOf_of_none hg.coherent hw hy
  | some y => exact isPresent_rowOf_of_some hg.coherent hw hy (hys y (h.mem hc hy)).held

/-- The distinct keys of the rows in which a vertex is present are those of the entities. -/
theorem Shows.keys_eq (h : Shows cs es w ys) (hg : g.Grown) (hw : w ∈ g.vertices)
    (hys : ∀ y ∈ ys, g.Shaped w y) (hn : (ys.map (Entity.keyOf w)).Nodup) {k : NodeKey}
    (hkey : ∀ c ∈ cs, g.keyIn w (g.rowOf c) = k ++ c.keyOf w) :
    g.sightings (cs.map g.rowOf) w = ys.map fun y => k ++ y.keyOf w := by
  let key (c : Choice) : NodeKey := k ++ c.keyOf w
  have hrows : ((cs.map g.rowOf).filter w.table.isPresent).map (g.keyIn w) =
      ((cs.filter fun c => (c w.aliasName).isSome).map
        (Choice.within (w.aliasName :: below es w))).map key := by
    have hpresent : cs.filter (w.table.isPresent ∘ g.rowOf) =
        cs.filter fun c => (c w.aliasName).isSome :=
      List.filter_congr fun c hc => h.isPresent_eq hg hw hys hc
    rw [List.filter_map, List.map_map, List.map_map, hpresent]
    refine List.map_congr_left fun c hc => ?_
    show g.keyIn w (g.rowOf c) = k ++ (c.within (w.aliasName :: below es w)).keyOf w
    rw [hkey c (List.mem_filter.1 hc).1, Choice.keyOf_within List.mem_cons_self]
  have hpicks : (Choice.picks (choices es w) w.aliasName ys).map key =
      ys.flatMap fun y => (choices es w y).map fun _ => k ++ y.keyOf w := by
    rw [Choice.picks, List.map_flatMap]
    refine List.flatMap_congr fun y _ => ?_
    rw [List.map_map]
    refine List.map_congr_left fun c _ => ?_
    show k ++ (Choice.pick w.aliasName y c).keyOf w = _
    rw [Choice.keyOf_eq_of_some Choice.pick_self]
  have horder := SameOrder.map h key
  rw [← hrows, hpicks] at horder
  have hdistinct : (ys.map fun y => k ++ y.keyOf w).Nodup := by
    have happ := hn.map (List.append_right_injective k)
    rwa [List.map_map] at happ
  have hconst := SameOrder.flatMap_const (f := fun y => k ++ y.keyOf w) fun y (_ : y ∈ ys) =>
    choices_ne_nil es w y
  rw [sightings, (horder.trans hconst).eraseDups_eq, eraseDups_of_nodup hdistinct]

/-- The choices of one of several entities with different keys. -/
theorem filter_picks {y : Entity} (hn : (ys.map (Entity.keyOf w)).Nodup) (hy : y ∈ ys) :
    (Choice.picks (choices es w) w.aliasName ys).filter (fun c => c.keyOf w == y.keyOf w) =
      (choices es w y).map (Choice.pick w.aliasName y) := by
  have hblock : ∀ z : Entity, ((choices es w z).map (Choice.pick w.aliasName z)).filter
      (fun c => c.keyOf w == y.keyOf w) =
        if z.keyOf w = y.keyOf w then (choices es w z).map (Choice.pick w.aliasName z) else [] := by
    intro z
    have hkey : ∀ c ∈ (choices es w z).map (Choice.pick w.aliasName z), c.keyOf w = z.keyOf w := by
      intro c hc
      obtain ⟨d, -, rfl⟩ := List.mem_map.1 hc
      exact Choice.keyOf_eq_of_some Choice.pick_self
    split
    · next hq =>
      exact List.filter_eq_self.2 fun c hc => by rw [hkey c hc, hq, beq_self_eq_true]
    · next hq =>
      exact List.filter_eq_nil_iff.2 fun c hc => by rw [hkey c hc, beq_iff_eq]; exact hq
  rw [Choice.picks, List.filter_flatMap]
  simp only [hblock]
  induction ys with
  | nil => cases hy
  | cons z zs ih =>
    rw [List.map_cons, List.nodup_cons] at hn
    rw [List.flatMap_cons]
    rcases List.mem_cons.1 hy with rfl | hy
    · have hrest : (zs.flatMap fun z => if z.keyOf w = y.keyOf w then
          (choices es w z).map (Choice.pick w.aliasName z) else []) = [] := by
        refine List.flatMap_eq_nil_iff.2 fun z hz => if_neg fun q => hn.1 ?_
        rw [← q]
        exact List.mem_map_of_mem hz
      rw [if_pos rfl, hrest, List.append_nil]
    · have hne : z.keyOf w ≠ y.keyOf w := fun q => hn.1 (q ▸ List.mem_map_of_mem hy)
      rw [if_neg hne, List.nil_append, ih hn.2 hy]

/-- Each of the entities is spread over the rows that hold its key. -/
theorem Shows.spreads (h : Shows cs es w ys) (hg : g.Grown) (hw : w ∈ g.vertices)
    (hys : ∀ y ∈ ys, g.Shaped w y) (hn : (ys.map (Entity.keyOf w)).Nodup) {k : NodeKey}
    (hkey : ∀ c ∈ cs, g.keyIn w (g.rowOf c) = k ++ c.keyOf w)
    (hnot : w.aliasName ∉ below es w) {y : Entity} (hy : y ∈ ys) :
    g.Spreads cs es w (k ++ y.keyOf w) y := by
  have hsight : ∀ c ∈ cs, g.isSighting w (k ++ y.keyOf w) (g.rowOf c) =
      ((c w.aliasName).isSome && c.keyOf w == y.keyOf w) := by
    intro c hc
    rw [isSighting, h.isPresent_eq hg hw hys hc, hkey c hc, Bool.eq_iff_iff]
    simp only [Bool.and_eq_true, beq_iff_eq, List.append_cancel_left_eq]
  have hparts : ((cs.filter fun c => g.isSighting w (k ++ y.keyOf w) (g.rowOf c)).map
      (Choice.within (w.aliasName :: below es w))) =
        ((cs.filter fun c => (c w.aliasName).isSome).map
          (Choice.within (w.aliasName :: below es w))).filter fun c => c.keyOf w == y.keyOf w := by
    rw [List.filter_congr hsight, List.filter_map, List.filter_filter]
    congr 1
    refine List.filter_congr fun c _ => ?_
    show _ = ((c.within (w.aliasName :: below es w)).keyOf w == y.keyOf w &&
      (c w.aliasName).isSome)
    rw [Choice.keyOf_within List.mem_cons_self, Bool.and_comm]
  have horder := SameOrder.filter h fun c => c.keyOf w == y.keyOf w
  rw [← hparts, filter_picks hn hy] at horder
  constructor
  · intro c hc hs
    have hmem : c.within (w.aliasName :: below es w) ∈
        (choices es w y).map (Choice.pick w.aliasName y) :=
      horder.mem (List.mem_map_of_mem (List.mem_filter.2 ⟨hc, hs⟩))
    obtain ⟨d, -, hd⟩ := List.mem_map.1 hmem
    have hpicked := congrFun hd w.aliasName
    rw [Choice.pick_self, Choice.within, if_pos List.mem_cons_self] at hpicked
    exact hpicked.symm
  · have hwithin := horder.map (Choice.within (below es w))
    rw [List.map_map, List.map_map] at hwithin
    have hdrop : (choices es w y).map
        (Choice.within (below es w) ∘ Choice.pick w.aliasName y) = choices es w y := by
      refine (List.map_congr_left fun c hc => ?_).trans (List.map_id _)
      funext b
      show (if b ∈ below es w then Choice.pick w.aliasName y c b else none) = c b
      split
      · next hb =>
        have hne : b ≠ w.aliasName := by
          rintro rfl
          exact hnot hb
        exact if_neg hne
      · next hb =>
        cases hcb : c b with
        | none => rfl
        | some z => exact absurd (mem_below_of_choice hc (by rw [hcb]; rfl)) hb
    have hsame : ∀ c : Choice, (Choice.within (below es w) ∘
        Choice.within (w.aliasName :: below es w)) c = c.within (below es w) := fun c =>
      Choice.within_within fun b hb => List.mem_cons_of_mem _ hb
    rwa [hdrop, List.map_congr_left fun c _ => hsame c] at hwithin

end Shows

/-! ## Rows of an entity's children -/

section Children

variable {g : Graph} {cs : List Choice} {es : List Edge} {e : Edge} {v : Vertex} {k : NodeKey}
  {x : Entity}

/-- The choices whose rows hold a key of a vertex. -/
def sighted (g : Graph) (cs : List Choice) (v : Vertex) (k : NodeKey) : List Choice :=
  cs.filter fun c => g.isSighting v k (g.rowOf c)

/-- A row that holds a child whose key starts with a seen key of the parent's holds the parent. -/
theorem isSighting_parent (hg : g.Grown) (he : e ∈ g.edges)
    (hkeyed : ∀ c ∈ cs, g.Keyed (g.rowOf c)) (hseen : g.sighted cs e.parent k ≠ []) {c : Choice}
    (hstart : k.isPrefixOf (g.keyIn e.child (g.rowOf c)) = true) :
    g.isSighting e.parent k (g.rowOf c) = true := by
  obtain ⟨d, ds, hd⟩ := List.exists_cons_of_ne_nil hseen
  have hmem : d ∈ g.sighted cs e.parent k := hd ▸ List.mem_cons_self
  obtain ⟨hdc, hsight⟩ := List.mem_filter.1 hmem
  rw [isSighting, Bool.and_eq_true, beq_iff_eq] at hsight
  obtain ⟨hpresent, rfl⟩ := hsight
  have hsame := (hg.isPrefixOf_keyIn_iff he).1 hstart
  rw [isSighting, Bool.and_eq_true, beq_iff_eq]
  exact ⟨hg.isPresent_of_keyIn_eq (hg.parent_mem he) (hkeyed d hdc _ (hg.parent_mem he) hpresent)
    hpresent hsame, hsame.symm⟩

/-- The children of a key are seen in the rows that hold the key. -/
theorem childKeys_eq_sightings (hg : g.Grown) (he : e ∈ g.edges)
    (hkeyed : ∀ c ∈ cs, g.Keyed (g.rowOf c)) (hseen : g.sighted cs e.parent k ≠ []) :
    g.childKeys (cs.map g.rowOf) e k =
      g.sightings ((g.sighted cs e.parent k).map g.rowOf) e.child := by
  rw [childKeys, sightings, sightings, ← eraseDups_filter]
  congr 1
  rw [List.filter_map, List.filter_map, List.filter_map, List.filter_filter, List.filter_map,
    sighted, List.filter_filter]
  congr 2
  refine List.filter_congr fun c hc => ?_
  simp only [Function.comp_apply]
  cases hpresent : e.child.table.isPresent (g.rowOf c) with
  | false => rw [Bool.and_false, Bool.false_and]
  | true =>
    rw [Bool.and_true, Bool.true_and, Bool.eq_iff_iff]
    constructor
    · exact isSighting_parent hg he hkeyed hseen
    · intro hs
      rw [isSighting, Bool.and_eq_true, beq_iff_eq] at hs
      rw [hg.keyIn_child he, hs.2]
      exact List.isPrefixOf_iff_prefix.2 (List.prefix_append _ _)

/-- A child is spread over all rows as it is over those that hold its parent's key. -/
theorem Spreads.of_sighted (hg : g.Grown) (he : e ∈ g.edges)
    (hkeyed : ∀ c ∈ cs, g.Keyed (g.rowOf c)) (hseen : g.sighted cs e.parent k ≠ [])
    {more : NodeKey} (h : g.Spreads (g.sighted cs e.parent k) es e.child (k ++ more) x) :
    g.Spreads cs es e.child (k ++ more) x := by
  have hparent : ∀ c ∈ cs, g.isSighting e.child (k ++ more) (g.rowOf c) = true →
      g.isSighting e.parent k (g.rowOf c) = true := by
    intro c _ hs
    rw [isSighting, Bool.and_eq_true, beq_iff_eq] at hs
    refine isSighting_parent hg he hkeyed hseen ?_
    rw [hs.2]
    exact List.isPrefixOf_iff_prefix.2 (List.prefix_append _ _)
  constructor
  · intro c hc hs
    exact h.picked c (List.mem_filter.2 ⟨hc, hparent c hc hs⟩) hs
  · have hsame : (g.sighted cs e.parent k).filter
        (fun c => g.isSighting e.child (k ++ more) (g.rowOf c)) =
          cs.filter fun c => g.isSighting e.child (k ++ more) (g.rowOf c) := by
      rw [sighted, List.filter_filter]
      refine List.filter_congr fun c hc => ?_
      rw [Bool.eq_iff_iff, Bool.and_eq_true]
      exact ⟨fun q => q.1, fun q => ⟨q, hparent c hc q⟩⟩
    rw [← hsame]
    exact h.order

/-- The rows that hold an entity's key show its children along the first edge. -/
theorem Spreads.shows (h : g.Spreads cs (e :: es) v k x) (hp : e.parentAlias = v.aliasName)
    (hn : ((e :: es).map Edge.aliasName).Nodup) (hv : v.aliasName ∉ (e :: es).map Edge.aliasName) :
    Shows (g.sighted cs v k) es e.child (Entity.childrenOf e x) := by
  have hall : ∀ a ∈ e.aliasName :: below es e.child, a ∈ below (e :: es) v := by
    intro a ha
    rw [below, if_pos hp]
    rcases List.mem_cons.1 ha with rfl | ha
    · exact List.mem_cons_self
    · exact List.mem_cons_of_mem _ (List.mem_append_left _ ha)
  have horder := h.order.map (Choice.within (e.aliasName :: below es e.child))
  rw [List.map_map] at horder
  have hsame : ∀ c : Choice, (Choice.within (e.aliasName :: below es e.child) ∘
      Choice.within (below (e :: es) v)) c = c.within (e.aliasName :: below es e.child) :=
    fun c => Choice.within_within hall
  rw [List.map_congr_left fun c _ => hsame c] at horder
  have hown := (horder.trans (sameOrder_choices_left hp hn hv)).filter
    fun c => (c e.aliasName).isSome
  have hpicks : (ownChoices es e x).filter (fun c => (c e.aliasName).isSome) =
      Choice.picks (choices es e.child) e.aliasName (Entity.childrenOf e x) := by
    unfold ownChoices
    split
    · next hempty =>
      rw [List.isEmpty_iff.1 hempty]
      rfl
    · refine List.filter_eq_self.2 fun c hc => ?_
      obtain ⟨y, -, d, -, rfl⟩ := mem_picks_iff.1 hc
      rw [Choice.pick_self]
      rfl
  rw [hpicks, List.filter_map] at hown
  have hpart : (g.sighted cs v k).filter ((fun c : Choice => (c e.aliasName).isSome) ∘
      Choice.within (e.aliasName :: below es e.child)) =
        (g.sighted cs v k).filter fun c => (c e.aliasName).isSome := by
    refine List.filter_congr fun c _ => ?_
    show (if e.aliasName ∈ e.aliasName :: below es e.child then c e.aliasName
      else none).isSome = _
    rw [if_pos List.mem_cons_self]
  unfold Shows
  show SameOrder (((g.sighted cs v k).filter fun c => (c e.aliasName).isSome).map _) _
  rw [← hpart]
  exact hown

/-- The rows that hold an entity's key go on to show its children along the other edges. -/
theorem Spreads.tail (h : g.Spreads cs (e :: es) v k x) (hp : e.parentAlias = v.aliasName)
    (hn : ((e :: es).map Edge.aliasName).Nodup) (hv : v.aliasName ∉ (e :: es).map Edge.aliasName) :
    g.Spreads cs es v k x := by
  refine ⟨h.picked, ?_⟩
  have hall : ∀ a ∈ below es v, a ∈ below (e :: es) v := by
    intro a ha
    rw [below, if_pos hp]
    exact List.mem_cons_of_mem _ (List.mem_append_right _ ha)
  have horder := h.order.map (Choice.within (below es v))
  rw [List.map_map] at horder
  have hsame : ∀ c : Choice, (Choice.within (below es v) ∘
      Choice.within (below (e :: es) v)) c = c.within (below es v) :=
    fun c => Choice.within_within hall
  rw [List.map_congr_left fun c _ => hsame c] at horder
  exact horder.trans (sameOrder_choices_right hp hn hv)

theorem Spreads.sighted_ne_nil (h : g.Spreads cs es v k x) : g.sighted cs v k ≠ [] := by
  intro q
  have horder := h.order
  rw [show cs.filter (fun c => g.isSighting v k (g.rowOf c)) = [] from q] at horder
  exact choices_ne_nil es v x horder.symm.eq_nil

theorem Spreads.fieldEntries_eq (h : g.Spreads cs es v k x) (hg : g.Grown) (hv : v ∈ g.vertices) :
    g.fieldEntries (cs.map g.rowOf) v k = x.fieldsOf v := by
  obtain ⟨c, rest, hc⟩ := List.exists_cons_of_ne_nil h.sighted_ne_nil
  have hfound : cs.find? (fun c => g.isSighting v k (g.rowOf c)) = some c := by
    rw [← List.head?_filter]
    show (g.sighted cs v k).head? = some c
    rw [hc]
    rfl
  have hsight := List.find?_some hfound
  have hpicked := h.picked c (List.mem_of_find?_eq_some hfound) hsight
  rw [fieldEntries, List.find?_map]
  show ((((cs.find? fun c => g.isSighting v k (g.rowOf c)).map g.rowOf).map
    v.table.extractEntries).getD []) = _
  rw [hfound]
  exact extractEntries_rowOf hg.coherent hv hpicked

end Children

/-! ## Entities from rows -/

/-- Grouping the rows over which an entity is spread gives the entity's containers. -/
theorem Grown.branches_eq {g : Graph} (hg : g.Grown) {cs : List Choice}
    (hkeyed : ∀ c ∈ cs, g.Keyed (g.rowOf c)) {es : List Edge} (hes : ∀ e ∈ es, e ∈ g.edges)
    (hn : (es.map Edge.aliasName).Nodup) {v : Vertex} (hv : v ∈ g.vertices)
    (hnot : v.aliasName ∉ es.map Edge.aliasName) {k : NodeKey} {x : Entity} (hx : g.Shaped v x)
    (h : g.Spreads cs es v k x) :
    branches (g.fieldEntries (cs.map g.rowOf)) (g.childKeys (cs.map g.rowOf)) es v k =
      branches Entity.fieldsOf Entity.childrenOf es v x := by
  induction es generalizing v k x with
  | nil => rfl
  | cons e es ih =>
    have he := hes e List.mem_cons_self
    have hrest : ∀ e' ∈ es, e' ∈ g.edges := fun e' hm => hes e' (List.mem_cons_of_mem e hm)
    have hchild := hg.coherent.child_mem he
    have hn' := hn
    have hnot' := hnot
    rw [List.map_cons, List.nodup_cons] at hn'
    rw [List.map_cons, List.mem_cons, not_or] at hnot'
    by_cases hp : e.parentAlias = v.aliasName
    · obtain rfl := hg.coherent.eq_of_aliasName (hg.parent_mem he) hv hp
      have hinto := (hg.mem_edgesInto_iff hv).2 ⟨he, rfl⟩
      have hseen := h.sighted_ne_nil
      have hshows := h.shows hp hn hnot
      have hshaped : ∀ y ∈ Entity.childrenOf e x, g.Shaped e.child y := fun _ => hx.child hinto
      have hdistinct := hx.keys_nodup hg hv hinto
      have hkey : ∀ c ∈ g.sighted cs e.parent k,
          g.keyIn e.child (g.rowOf c) = k ++ c.keyOf e.child := by
        intro c hc
        have hs := (List.mem_filter.1 hc).2
        rw [isSighting, Bool.and_eq_true, beq_iff_eq] at hs
        rw [keyIn_child_rowOf hg he, hs.2]
      have hkeys : g.childKeys (cs.map g.rowOf) e k =
          (Entity.childrenOf e x).map fun y => k ++ y.keyOf e.child := by
        rw [childKeys_eq_sightings hg he hkeyed hseen]
        exact hshows.keys_eq hg hchild hshaped hdistinct hkey
      -- what a child holds is known by induction, its key being its parent's and its own
      have hnested : ∀ y ∈ Entity.childrenOf e x,
          g.fieldEntries (cs.map g.rowOf) e.child (k ++ y.keyOf e.child) ++
            branches (g.fieldEntries (cs.map g.rowOf)) (g.childKeys (cs.map g.rowOf)) es e.child
              (k ++ y.keyOf e.child) =
          y.fieldsOf e.child ++ branches Entity.fieldsOf Entity.childrenOf es e.child y := by
        intro y hy
        have hbelow : e.child.aliasName ∉ below es e.child := fun q => hn'.1 (mem_of_mem_below q)
        have hspreads := (hshows.spreads hg hchild hshaped hdistinct hkey hbelow hy).of_sighted
          hg he hkeyed hseen
        rw [hspreads.fieldEntries_eq hg hchild,
          ih hrest hn'.2 hchild hn'.1 (hshaped y hy) hspreads]
      rw [branches, branches, if_pos hp, if_pos hp, hkeys, List.map_map,
        ih hrest hn'.2 hv hnot'.2 hx (h.tail hp hn hnot)]
      congr 3
      refine List.map_congr_left fun y hy => ?_
      show Value.dict _ = Value.dict _
      rw [hnested y hy]
    · have htail : g.Spreads cs es v k x := by
        refine ⟨h.picked, ?_⟩
        have horder := h.order
        rwa [below, if_neg hp, choices_cons_of_ne hp] at horder
      rw [branches, branches, if_neg hp, if_neg hp]
      exact ih hrest hn'.2 hv hnot'.2 hx htail

section Roots

variable {g : Graph} {root : Vertex} {xs : List Entity}

theorem keyed_rootChoices (hg : g.Grown) (hroot : g.root = some root)
    (hxs : ∀ x ∈ xs, g.Shaped root x) : ∀ c ∈ g.rootChoices root xs, g.Keyed (g.rowOf c) := by
  have hmem := hg.coherent.root_mem hroot
  intro c hc
  obtain ⟨x, hx, d, hd, rfl⟩ := mem_picks_iff.1 hc
  refine keyed_rowOf hg.coherent fun w hw y hy => ?_
  by_cases hq : w.aliasName = root.aliasName
  · obtain rfl := hg.coherent.eq_of_aliasName hw hmem hq
    rw [Choice.pick_self] at hy
    obtain rfl := Option.some.inj hy
    exact (hxs x hx).scalar
  · rw [Choice.pick, if_neg hq] at hy
    obtain ⟨w', hw', ha, hshaped⟩ := (hxs x hx).of_choice hg (fun _ => id) hmem hd hy
    obtain rfl := hg.coherent.eq_of_aliasName hw' hw ha
    exact hshaped.scalar

theorem shows_rootChoices (g : Graph) (root : Vertex) (xs : List Entity) :
    Shows (g.rootChoices root xs) g.edges root xs := by
  have hsome : (g.rootChoices root xs).filter (fun c => (c root.aliasName).isSome) =
      g.rootChoices root xs := by
    refine List.filter_eq_self.2 fun c hc => ?_
    obtain ⟨y, -, d, -, rfl⟩ := mem_picks_iff.1 hc
    rw [Choice.pick_self]
    rfl
  have hwithin : (g.rootChoices root xs).map
      (Choice.within (root.aliasName :: below g.edges root)) = g.rootChoices root xs := by
    refine (List.map_congr_left fun c hc => ?_).trans (List.map_id _)
    obtain ⟨y, -, d, hd, rfl⟩ := mem_picks_iff.1 hc
    refine Choice.within_eq_self fun b hb => ?_
    by_cases hq : b = root.aliasName
    · exact hq ▸ List.mem_cons_self
    · rw [Choice.pick, if_neg hq] at hb
      exact List.mem_cons_of_mem _ (mem_below_of_choice hd hb)
  rw [Shows, hsome, hwithin]
  exact SameOrder.refl _

/-- Grouping the rows of some entities gives the entities. -/
theorem Grown.grouped_flatten (hg : g.Grown) (hroot : g.root = some root)
    (hxs : ∀ x ∈ xs, g.Shaped root x) (hn : (xs.map (Entity.keyOf root)).Nodup) :
    g.grouped (g.flatten root xs) root =
      xs.map (g.nested Entity.fieldsOf Entity.childrenOf root) := by
  have hmem := hg.coherent.root_mem hroot
  have hshows := shows_rootChoices g root xs
  have hkey : ∀ c ∈ g.rootChoices root xs, g.keyIn root (g.rowOf c) = [] ++ c.keyOf root :=
    fun c _ => keyIn_root_rowOf hg hroot c
  have hnot : root.aliasName ∉ g.edges.map Edge.aliasName := by
    intro hm
    obtain ⟨e, he, hq⟩ := List.mem_map.1 hm
    exact hg.coherent.root_ne_edge hroot he hq
  rw [grouped, flatten, hshows.keys_eq hg hmem hxs hn hkey, List.map_map]
  refine List.map_congr_left fun x hx => ?_
  have hspreads := hshows.spreads hg hmem hxs hn hkey (fun q => hnot (mem_of_mem_below q)) hx
  have hbranches := hg.branches_eq (keyed_rootChoices hg hroot hxs) (fun _ => id)
    hg.coherent.edge_aliases_nodup hmem hnot (hxs x hx) hspreads
  show g.nested _ _ root ([] ++ x.keyOf root) = _
  rw [nested, nested, hbranches, hspreads.fieldEntries_eq hg hmem]

end Roots

end Graph

namespace Session

/-- For every builder that calls have made, the rows of any entities of its shape, those of a list
and of roots with different keys, materialize to these entities. -/
theorem materialize_flatten (schema : Schema) (cs : List Command) {name : String} {b : Builder}
    (hb : ((ofSchema schema).obeyAll cs).builder? name = some b)
    (hapart : b.graph.ContainersApart) {root : Vertex} (hroot : b.graph.root = some root)
    {xs : List Entity} (hxs : ∀ x ∈ xs, b.graph.Shaped root x)
    (hn : (xs.map (Entity.keyOf root)).Nodup) (chains : KeyChains) :
    ({ b with modifiers := .empty }.materialize chains (b.graph.flatten root xs)).1.entities =
      .ok (xs.map (b.graph.nested Entity.fieldsOf Entity.childrenOf root)) := by
  have hg := grown_run schema cs hb
  obtain ⟨chains', hp⟩ := hg.exists_prepare chains
  have hrows : ∀ r ∈ b.graph.flatten root xs, b.graph.Keyed r := by
    intro r hr
    obtain ⟨c, hc, rfl⟩ := List.mem_map.1 hr
    exact Graph.keyed_rootChoices hg hroot hxs c hc
  rw [Builder.materialize, hp, ← hg.grouped_flatten hroot hxs hn]
  exact hg.entities_materialize (hg.isPrepared_prepare hp) hapart hrows hroot

def sampleRoot : Vertex := sampleBuilder.graph.root.get rfl

/-- An entity that holds one number in every field. -/
def sampleEntity (n : Int) (attached : String → List Entity) : Entity :=
  .mk (fun _ => .int n) attached

def sampleLeaf (n : Int) : Entity := sampleEntity n fun _ => []

/-- An entity with others along the last edge. -/
def sampleParent (n : Int) (ds : List Entity) : Entity :=
  sampleEntity n fun a => if a = "d" then ds else []

/-- Two roots: one has two entities along the first edge, with a child in common, and one along
the second; the other has no children. -/
def sampleEntities : List Entity :=
  [sampleEntity 1 fun a =>
      if a = "b" then [sampleParent 2 [sampleLeaf 3, sampleLeaf 4], sampleParent 5 [sampleLeaf 3]]
      else if a = "c" then [sampleLeaf 7] else [],
    sampleLeaf 6]

theorem shaped_sampleEntity {g : Graph} {v : Vertex} {n : Int} {attached : String → List Entity}
    (hsingle : ∀ e ∈ g.edgesInto v.aliasName, e.kind = .single → (attached e.aliasName).length ≤ 1)
    (hdistinct : ∀ e ∈ g.edgesInto v.aliasName, e.kind = .multiple →
      ((attached e.aliasName).map (Entity.keyOf e.child)).Nodup)
    (hchildren : ∀ e ∈ g.edgesInto v.aliasName, ∀ y ∈ attached e.aliasName, g.Shaped e.child y) :
    g.Shaped v (sampleEntity n attached) := by
  obtain ⟨f, fs, hf⟩ := List.exists_cons_of_ne_nil v.table.primaryKey_ne_nil
  refine .intro (fun _ _ => rfl) ⟨f, ?_, ?_⟩ hsingle hdistinct hchildren
  · rw [hf]
    exact List.mem_cons_self
  · intro q
    cases q

theorem shaped_sampleLeaf (g : Graph) (v : Vertex) (n : Int) : g.Shaped v (sampleLeaf n) := by
  refine shaped_sampleEntity (fun _ _ _ => Nat.zero_le 1) (fun _ _ _ => List.nodup_nil) ?_
  intro e _ y hy
  cases hy

theorem shaped_sampleParent (n : Int) (ms : List Int)
    (hn : ∀ e ∈ sampleBuilder.graph.edgesInto "b",
      ((ms.map sampleLeaf).map (Entity.keyOf e.child)).Nodup) :
    ∀ e ∈ sampleBuilder.graph.edges.head?,
      sampleBuilder.graph.Shaped e.child (sampleParent n (ms.map sampleLeaf)) := by
  intro e he
  cases he
  have hnone : ∀ e ∈ sampleBuilder.graph.edgesInto "b", e.aliasName = "d" := by decide
  refine shaped_sampleEntity ?_ ?_ ?_
  · intro e he hk
    cases he with
    | head => cases hk
    | tail _ he => cases he
  · intro e he _
    rw [if_pos (hnone e he)]
    exact hn e he
  · intro e he y hy
    rw [if_pos (hnone e he)] at hy
    obtain ⟨m, -, rfl⟩ := List.mem_map.1 hy
    exact shaped_sampleLeaf _ _ m

theorem shaped_sampleEntities : ∀ x ∈ sampleEntities, sampleBuilder.graph.Shaped sampleRoot x := by
  intro x hx
  rcases List.mem_cons.1 hx with rfl | hx
  · refine shaped_sampleEntity ?_ ?_ ?_
    · intro e he hk
      cases he with
      | head => cases hk
      | tail _ he =>
        cases he with
        | head => exact Nat.le_refl 1
        | tail _ he => cases he
    · intro e he hk
      cases he with
      | head => decide
      | tail _ he =>
        cases he with
        | head => cases hk
        | tail _ he => cases he
    · intro e he y hy
      cases he with
      | head =>
        cases hy with
        | head => exact shaped_sampleParent 2 [3, 4] (by decide) _ rfl
        | tail _ hy =>
          cases hy with
          | head => exact shaped_sampleParent 5 [3] (by decide) _ rfl
          | tail _ hy => cases hy
      | tail _ he =>
        cases he with
        | head =>
          cases hy with
          | head => exact shaped_sampleLeaf _ _ 7
          | tail _ hy => cases hy
        | tail _ he => cases he
  · rw [List.mem_singleton.1 hx]
    exact shaped_sampleLeaf _ _ 6

theorem materialize_flatten_sample :
    (sampleBuilder.graph.flatten sampleRoot sampleEntities).length = 4 ∧
      ({ sampleBuilder with modifiers := .empty }.materialize .empty
        (sampleBuilder.graph.flatten sampleRoot sampleEntities)).1.entities =
          .ok (sampleEntities.map
            (sampleBuilder.graph.nested Entity.fieldsOf Entity.childrenOf sampleRoot)) := by
  have hb : ((ofSchema sampleSchema).obeyAll sampleCalls).builder? "q" = some sampleBuilder := rfl
  have hapart : sampleBuilder.graph.ContainersApart := by decide
  have hroot : sampleBuilder.graph.root = some sampleRoot := rfl
  have hn : (sampleEntities.map (Entity.keyOf sampleRoot)).Nodup := by decide
  exact ⟨rfl, materialize_flatten sampleSchema sampleCalls hb hapart hroot shaped_sampleEntities hn
    .empty⟩

end Session

end NestedJoin
