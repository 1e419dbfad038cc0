import NestedJoin.Proofs.Grouping
set_option autoImplicit false

/-!
# Flattening entities

The way from entities to rows.  A row stands for a choice of entities, at most one for each
alias: a root, along every edge onto it one of its children, and so on down.  Along an edge
without children nothing is chosen, and every column below it is null.  An entity's rows run
through all choices, those of the first edge slowest.

Main statements: `Graph.sameOrder_choices_left` and `Graph.sameOrder_choices_right`, what an
entity's choices show of its first edge and of the others.
-/

namespace NestedJoin

/-- An entity: the values of its fields, and the entities attached to it, by the aliases of
their tables. -/
inductive Entity where
  | mk (value : String → Value) (attached : String → List Entity)

namespace Entity

def value : Entity → String → Value
  | .mk value _ => value

def attached : Entity → String → List Entity
  | .mk _ attached => attached

/-- The fields of an entity of a vertex, in field order. -/
def fieldsOf (v : Vertex) (x : Entity) : List (String × Value) :=
  v.table.fields.map fun f => (f, x.value f)

/-- The entities attached along an edge. -/
def childrenOf (e : Edge) (x : Entity) : List Entity := x.attached e.aliasName

/-- What tells an entity of a vertex apart from others. -/
def keyOf (v : Vertex) (x : Entity) : NodeKey :=
  v.table.primaryKey.map fun f => ((x.value f).atom?).getD .null

end Entity

/-- A choice of entities, at most one for each alias. -/
abbrev Choice : Type := String → Option Entity

namespace Choice

def nothing : Choice := fun _ => none

/-- The choice with an entity picked for an alias. -/
def pick (a : String) (x : Entity) (c : Choice) : Choice := fun b => if b = a then some x else c b

def union (c d : Choice) : Choice := fun a => (c a).or (d a)

/-- The part of a choice that concerns some aliases. -/
def within (as : List String) (c : Choice) : Choice := fun a => if a ∈ as then c a else none

/-- The value of a vertex's field; null if no entity is chosen. -/
def valueAt (c : Choice) (v : Vertex) (f : String) : Value :=
  ((c v.aliasName).map fun x => x.value f).getD .null

def keyOf (v : Vertex) (c : Choice) : NodeKey :=
  v.table.primaryKey.map fun f => ((c.valueAt v f).atom?).getD .null

/-- The choices that pick one of some entities for an alias and go on below it. -/
def picks (below : Entity → List Choice) (a : String) (xs : List Entity) : List Choice :=
  xs.flatMap fun x => (below x).map (pick a x)

end Choice

namespace Graph

/-! ## Definitions -/

/-- The choices below an entity of a vertex along some edges. -/
def choices : List Edge → Vertex → Entity → List Choice
  | [], _, _ => [.nothing]
  | e :: es, v, x =>
    if e.parentAlias = v.aliasName then
      let ys := Entity.childrenOf e x
      let own := if ys.isEmpty then [.nothing] else Choice.picks (choices es e.child) e.aliasName ys
      own.flatMap fun c => (choices es v x).map c.union
    else choices es v x

/-- The aliases below a vertex along some edges. -/
def below : List Edge → Vertex → List String
  | [], _ => []
  | e :: es, v =>
    if e.parentAlias = v.aliasName then e.aliasName :: (below es e.child ++ below es v)
    else below es v

/-- The row of a choice. -/
def rowOf (g : Graph) (c : Choice) : Row :=
  .ofList (g.vertices.flatMap fun v =>
    v.table.fields.map fun f => (v.table.column f, c.valueAt v f))

/-- The choices of some entities of the root, one after the other. -/
def rootChoices (g : Graph) (root : Vertex) (xs : List Entity) : List Choice :=
  Choice.picks (choices g.edges root) root.aliasName xs

/-- The rows of some entities of the root. -/
def flatten (g : Graph) (root : Vertex) (xs : List Entity) : List Row :=
  (g.rootChoices root xs).map g.rowOf

/-- An entity has the shape of a vertex: its key is of scalars that are not all null, and so are
the keys of its children, of which there is at most one along a single edge, and along a multiple
edge no two with one key. -/
inductive Shaped (g : Graph) : Vertex → Entity → Prop where
  | intro {v : Vertex} {x : Entity}
    (scalar : ∀ f ∈ v.table.primaryKey, (x.value f).isScalar = true)
    (held : ∃ f ∈ v.table.primaryKey, x.value f ≠ .null)
    (single : ∀ e ∈ g.edgesInto v.aliasName, e.kind = .single →
      (Entity.childrenOf e x).length ≤ 1)
    (distinct : ∀ e ∈ g.edgesInto v.aliasName, e.kind = .multiple →
      ((Entity.childrenOf e x).map (Entity.keyOf e.child)).Nodup)
    (children : ∀ e ∈ g.edgesInto v.aliasName, ∀ y ∈ Entity.childrenOf e x, Shaped g e.child y) :
    Shaped g v x

end Graph

/-! ## Parts of choices -/

namespace Choice

variable {as : List String} {a : String} {x : Entity} {c d : Choice}

theorem within_eq_self (h : ∀ b, (c b).isSome = true → b ∈ as) : c.within as = c := by
  funext b
  unfold within
  split
  · rfl
  · next hb =>
    cases hc : c b with
    | none => rfl
    | some y => exact absurd (h b (by rw [hc]; rfl)) hb

theorem within_eq_nothing (h : ∀ b, (c b).isSome = true → b ∉ as) : c.within as = nothing := by
  funext b
  unfold within
  split
  · next hb =>
    cases hc : c b with
    | none => rfl
    | some y => exact absurd hb (h b (by rw [hc]; rfl))
  · rfl

theorem within_union : (c.union d).within as = (c.within as).union (d.within as) := by
  funext b
  simp only [within, union]
  split <;> rfl

theorem within_within {bs : List String} (h : ∀ b ∈ as, b ∈ bs) :
    (c.within bs).within as = c.within as := by
  funext b
  unfold within
  split
  · next hb => rw [if_pos (h b hb)]
  · rfl

theorem union_nothing : c.union nothing = c := by
  funext b
  exact Option.or_none

theorem nothing_union : nothing.union c = c := by
  funext b
  exact Option.none_or

theorem pick_self : pick a x c a = some x := if_pos rfl

theorem keyOf_eq_of_some {v : Vertex} (h : c v.aliasName = some x) :
    c.keyOf v = x.keyOf v := by
  simp only [keyOf, Entity.keyOf, valueAt, h, Option.map_some, Option.getD_some]

theorem keyOf_within {v : Vertex} (h : v.aliasName ∈ as) : (c.within as).keyOf v = c.keyOf v := by
  simp only [keyOf, valueAt, within, if_pos h]

end Choice

namespace Graph

/-! ## Aliases below a vertex -/

section Below

variable {es : List Edge} {v w : Vertex} {a : String}

theorem mem_of_mem_below (h : a ∈ below es v) : a ∈ es.map Edge.aliasName := by
  induction es generalizing v with
  | nil => exact h
  | cons e es ih =>
    rw [List.map_cons, List.mem_cons]
    unfold below at h
    split at h
    · rcases List.mem_cons.1 h with rfl | h
      · exact Or.inl rfl
      · exact Or.inr ((List.mem_append.1 h).elim ih ih)
    · exact Or.inr (ih h)

/-- Different vertices have different aliases below them. -/
theorem notMem_below (hn : (es.map Edge.aliasName).Nodup) (hne : v.aliasName ≠ w.aliasName)
    (hv : v.aliasName ∉ es.map Edge.aliasName) (hw : w.aliasName ∉ es.map Edge.aliasName)
    (h : a ∈ below es v) : a ∉ below es w := by
  induction es generalizing v w with
  | nil => exact absurd h List.not_mem_nil
  | cons e es ih =>
    rw [List.map_cons, List.nodup_cons] at hn
    rw [List.map_cons, List.mem_cons, not_or] at hv hw
    have hchild : e.child.aliasName ∉ es.map Edge.aliasName := hn.1
    rw [below] at h ⊢
    by_cases hpv : e.parentAlias = v.aliasName
    · have hpw : e.parentAlias ≠ w.aliasName := fun q => hne (hpv.symm.trans q)
      rw [if_pos hpv, List.mem_cons, List.mem_append] at h
      rw [if_neg hpw]
      rcases h with rfl | h | h
      · exact fun q => hn.1 (mem_of_mem_below q)
      · exact ih hn.2 (Ne.symm hw.1) hchild hw.2 h
      · exact ih hn.2 hne hv.2 hw.2 h
    · rw [if_neg hpv] at h
      split
      · rw [List.mem_cons, List.mem_append, not_or, not_or]
        refine ⟨?_, ih hn.2 hv.1 hv.2 hchild h, ih hn.2 hne hv.2 hw.2 h⟩
        rintro rfl
        exact hn.1 (mem_of_mem_below h)
      · exact ih hn.2 hne hv.2 hw.2 h

end Below

/-! ## Choices below an entity -/

/-- What the children along an edge contribute: nothing is chosen if there are none. -/
def ownChoices (es : List Edge) (e : Edge) (x : Entity) : List Choice :=
  if (Entity.childrenOf e x).isEmpty then [.nothing]
  else Choice.picks (choices es e.child) e.aliasName (Entity.childrenOf e x)

section Choices

variable {es : List Edge} {e : Edge} {v : Vertex} {x : Entity} {c : Choice}

theorem choices_cons (h : e.parentAlias = v.aliasName) :
    choices (e :: es) v x =
      (ownChoices es e x).flatMap fun c => (choices es v x).map c.union := if_pos h

theorem choices_cons_of_ne (h : e.parentAlias ≠ v.aliasName) :
    choices (e :: es) v x = choices es v x := if_neg h

theorem choices_ne_nil (es : List Edge) (v : Vertex) (x : Entity) : choices es v x ≠ [] := by
  induction es generalizing v x with
  | nil => exact List.cons_ne_nil _ _
  | cons e es ih =>
    by_cases hp : e.parentAlias = v.aliasName
    · have hown : ownChoices es e x ≠ [] := by
        unfold ownChoices
        split
        · exact List.cons_ne_nil _ _
        · next hne =>
          obtain ⟨y, ys, hc⟩ := List.exists_cons_of_ne_nil (fun q => hne (List.isEmpty_iff.2 q))
          rw [hc, Choice.picks, List.flatMap_cons]
          exact fun q => ih e.child y (List.map_eq_nil_iff.1 (List.append_eq_nil_iff.1 q).1)
      obtain ⟨d, ds, hd⟩ := List.exists_cons_of_ne_nil hown
      rw [choices_cons hp, hd, List.flatMap_cons]
      exact fun q => ih v x (List.map_eq_nil_iff.1 (List.append_eq_nil_iff.1 q).1)
    · rw [choices_cons_of_ne hp]
      exact ih v x

theorem mem_picks_iff {more : Entity → List Choice} {a : String} {xs : List Entity} :
    c ∈ Choice.picks more a xs ↔ ∃ y ∈ xs, ∃ d ∈ more y, c = Choice.pick a y d := by
  simp only [Choice.picks, List.mem_flatMap, List.mem_map, eq_comm]

theorem mem_ownChoices (h : c ∈ ownChoices es e x) :
    c = .nothing ∨ c ∈ Choice.picks (choices es e.child) e.aliasName (Entity.childrenOf e x) := by
  unfold ownChoices at h
  split at h
  · exact Or.inl (List.mem_singleton.1 h)
  · exact Or.inr h

/-- An entity is chosen only for aliases below. -/
theorem mem_below_of_choice (h : c ∈ choices es v x) {a : String} (ha : (c a).isSome = true) :
    a ∈ below es v := by
  induction es generalizing v x c with
  | nil =>
    rw [List.mem_singleton.1 h] at ha
    cases ha
  | cons e es ih =>
    by_cases hp : e.parentAlias = v.aliasName
    · rw [choices_cons hp, List.mem_flatMap] at h
      obtain ⟨d, hd, hc⟩ := h
      obtain ⟨d', hd', rfl⟩ := List.mem_map.1 hc
      rw [below, if_pos hp, List.mem_cons, List.mem_append]
      rw [Choice.union, Option.isSome_or, Bool.or_eq_true] at ha
      rcases ha with ha | ha
      · rcases mem_ownChoices hd with rfl | hd
        · cases ha
        · obtain ⟨y, -, d₀, hd₀, rfl⟩ := mem_picks_iff.1 hd
          by_cases hq : a = e.aliasName
          · exact Or.inl hq
          · rw [Choice.pick, if_neg hq] at ha
            exact Or.inr (Or.inl (ih hd₀ ha))
      · exact Or.inr (Or.inr (ih hd' ha))
    · rw [choices_cons_of_ne hp] at h
      rw [below, if_neg hp]
      exact ih h ha

theorem mem_below_of_ownChoice (h : c ∈ ownChoices es e x) {a : String}
    (ha : (c a).isSome = true) : a ∈ e.aliasName :: below es e.child := by
  rcases mem_ownChoices h with rfl | h
  · cases ha
  · obtain ⟨y, -, d, hd, rfl⟩ := mem_picks_iff.1 h
    by_cases hq : a = e.aliasName
    · exact hq ▸ List.mem_cons_self
    · rw [Choice.pick, if_neg hq] at ha
      exact List.mem_cons_of_mem _ (mem_below_of_choice hd ha)

/-- The choices of an entity and those of another vertex concern different aliases. -/
theorem notMem_below_of_own {a : String} (hn : ((e :: es).map Edge.aliasName).Nodup)
    (hv : v.aliasName ∉ (e :: es).map Edge.aliasName)
    (h : a ∈ e.aliasName :: below es e.child) : a ∉ below es v := by
  rw [List.map_cons, List.nodup_cons] at hn
  rw [List.map_cons, List.mem_cons, not_or] at hv
  rcases List.mem_cons.1 h with rfl | h
  · exact fun q => hn.1 (mem_of_mem_below q)
  · exact notMem_below hn.2 (Ne.symm hv.1) hn.1 hv.2 h

/-- Seen from the first edge, an entity's choices show the children along it. -/
theorem sameOrder_choices_left (hp : e.parentAlias = v.aliasName)
    (hn : ((e :: es).map Edge.aliasName).Nodup) (hv : v.aliasName ∉ (e :: es).map Edge.aliasName) :
    SameOrder ((choices (e :: es) v x).map (Choice.within (e.aliasName :: below es e.child)))
      (ownChoices es e x) := by
  have hparts : ∀ c ∈ ownChoices es e x, ∀ d ∈ choices es v x,
      (c.union d).within (e.aliasName :: below es e.child) = c := by
    intro c hc d hd
    have hown : c.within (e.aliasName :: below es e.child) = c :=
      Choice.within_eq_self fun a ha => mem_below_of_ownChoice hc ha
    have hother : d.within (e.aliasName :: below es e.child) = .nothing :=
      Choice.within_eq_nothing fun a ha hm =>
        notMem_below_of_own hn hv hm (mem_below_of_choice hd ha)
    rw [Choice.within_union, hown, hother, Choice.union_nothing]
  have hmap : (choices (e :: es) v x).map (Choice.within (e.aliasName :: below es e.child)) =
      (ownChoices es e x).flatMap fun c => (choices es v x).map fun _ => c := by
    rw [choices_cons hp, List.map_flatMap]
    refine List.flatMap_congr fun c hc => ?_
    rw [List.map_map]
    exact List.map_congr_left fun d hd => hparts c hc d hd
  rw [hmap]
  have hall := SameOrder.flatMap_const (f := fun c : Choice => c)
    fun c (_ : c ∈ ownChoices es e x) => choices_ne_nil es v x
  rwa [List.map_id'] at hall

/-- Seen from the other edges, an entity's choices show the children along those. -/
theorem sameOrder_choices_right (hp : e.parentAlias = v.aliasName)
    (hn : ((e :: es).map Edge.aliasName).Nodup) (hv : v.aliasName ∉ (e :: es).map Edge.aliasName) :
    SameOrder ((choices (e :: es) v x).map (Choice.within (below es v))) (choices es v x) := by
  have hparts : ∀ c ∈ ownChoices es e x, ∀ d ∈ choices es v x,
      (c.union d).within (below es v) = d := by
    intro c hc d hd
    have hown : c.within (below es v) = .nothing :=
      Choice.within_eq_nothing fun a ha =>
        notMem_below_of_own hn hv (mem_below_of_ownChoice hc ha)
    have hother : d.within (below es v) = d :=
      Choice.within_eq_self fun a ha => mem_below_of_choice hd ha
    rw [Choice.within_union, hown, hother, Choice.nothing_union]
  have hmap : (choices (e :: es) v x).map (Choice.within (below es v)) =
      (ownChoices es e x).flatMap fun _ => choices es v x := by
    rw [choices_cons hp, List.map_flatMap]
    refine List.flatMap_congr fun c hc => ?_
    rw [List.map_map]
    exact (List.map_congr_left fun d hd => hparts c hc d hd).trans (List.map_id _)
  rw [hmap]
  refine SameOrder.flatMap_same (fun q => ?_) _
  have hne := choices_ne_nil (e :: es) v x
  rw [choices_cons hp, q] at hne
  exact hne rfl

end Choices

end Graph

end NestedJoin
