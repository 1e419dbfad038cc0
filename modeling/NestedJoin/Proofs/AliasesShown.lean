import NestedJoin.Proofs.TablesShown
set_option autoImplicit false

/-!
# The aliases that a compiled statement shows

The aliases of a statement are listed by walking what it reads from, from left to right, and
brackets stay closed.  The list keeps the order in which the tables are printed and leaves out
exactly the tables that a later right join puts into brackets.

Main statement: `Session.aliases_shown`.
-/

namespace NestedJoin

open Sql

namespace Source

variable {γ : Type}

/-! ## Aliases of a tree of joins -/

/-- The aliases of a tree of joins are those of its parts. -/
theorem aliasNames_eq_flatMap_parts (s : Source γ) :
    s.aliasNames = s.parts.flatMap aliasNames := by
  induction s with
  | join l r outer on ihl ihr =>
    show l.aliasNames ++ r.aliasNames = (l.parts ++ r.parts).flatMap aliasNames
    rw [List.flatMap_append, ← ihl, ← ihr]
  | _ => exact (List.flatMap_singleton _ _).symm

/-- A part without a name is a tree in brackets, and shows no alias. -/
theorem aliasNames_of_mem_parts {s p : Source γ} (hp : p ∈ s.parts) (hn : p.name? = none) :
    p.aliasNames = [] := by
  induction s with
  | join l r outer on ihl ihr =>
    rcases List.mem_append.1 hp with hp | hp
    · exact ihl hp
    · exact ihr hp
  | grouped s _ =>
    obtain rfl := List.mem_singleton.1 hp
    rfl
  | _ =>
    obtain rfl := List.mem_singleton.1 hp
    cases hn

theorem aliasNames_bracketed_sublist (s : Source γ) :
    s.bracketed.aliasNames.Sublist s.aliasNames := by
  cases s with
  | join l r outer on => exact List.nil_sublist _
  | _ => exact List.Sublist.refl _

/-- A reference whose alias is not found is answered with the list of aliases. -/
theorem eq_of_resolve_aliasNotFound {roots : List (Source γ)} {ref owner : String}
    {known : List String} (h : resolve roots ref = .error (.aliasNotFound owner known)) :
    known = allAliasNames roots := by
  unfold resolve at h
  split at h
  · cases h
  · split at h
    · cases h
      rfl
    · split at h <;> cases h

end Source

namespace Graph

/-! ## Aliases of joined tables -/

theorem aliasNames_joinLeaf_sublist {acc : Source OnClause} {names : List String}
    (h : acc.aliasNames.Sublist names) (v : Vertex) (type : JoinType) (on : OnClause) :
    (joinLeaf acc (leaf v) type on).aliasNames.Sublist
      (if type = .right then v.aliasName :: names else names ++ [v.aliasName]) := by
  cases type with
  | inner => exact h.append_right _
  | left => exact h.append_right _
  | right => exact (acc.aliasNames_bracketed_sublist.trans h).cons_cons _

/-- The walk over the tree of joins meets aliases in the order of the tables. -/
theorem aliasNames_joined_sublist (params : OrderedMap String Value) (root : Vertex)
    (es : List Edge) :
    (joined params root es).aliasNames.Sublist ((shownOrder root es).map Vertex.aliasName) := by
  induction es using List.reverseRecOn with
  | nil => exact List.Sublist.refl _
  | append_singleton es e ih =>
    rw [joined_concat, map_shownOrder_concat]
    exact aliasNames_joinLeaf_sublist ih e.child e.joinType _

variable {g : Graph} {root : Vertex}

/-- It meets the alias of a table exactly if the table is not hidden. -/
theorem Covers.mem_aliasNames_iff {source : Source OnClause} (h : Covers root g.edges source)
    (hg : g.Coherent) (hroot : g.root = some root) {v : Vertex} (hv : v ∈ g.vertices) :
    v.aliasName ∈ source.aliasNames ↔ ¬g.IsHidden v := by
  have hvertices := hg.vertices_eq_cons hroot
  have hshown : leaf v ∈ source.parts ↔ ¬g.IsHidden v := by
    rw [IsHidden, hroot]
    exact h.leaf_mem_iff v (hvertices ▸ hv)
  rw [Source.aliasNames_eq_flatMap_parts, List.mem_flatMap, ← hshown]
  constructor
  · rintro ⟨p, hp, ha⟩
    rcases h.parts_of p hp with ⟨w, hw, rfl⟩ | hnone
    · obtain rfl := hg.eq_of_aliasName hv (hvertices ▸ hw) (List.mem_singleton.1 ha)
      exact hp
    · rw [Source.aliasNames_of_mem_parts hp hnone] at ha
      cases ha
  · exact fun hm => ⟨leaf v, hm, List.mem_singleton.2 rfl⟩

theorem Coherent.nodup_map_shownOrder (hg : g.Coherent) (hroot : g.root = some root) :
    ((shownOrder root g.edges).map Vertex.aliasName).Nodup := by
  have haliases := Coherent.aliases_nodup g
  rw [hg.aliases_eq, hg.vertices_eq_cons hroot] at haliases
  exact ((shownOrder_perm root g.edges).map _).nodup_iff.2 haliases

/-- All aliases are met exactly if no join but the first is a right join. -/
theorem Coherent.eq_map_shownOrder_iff (hg : g.Coherent) (hroot : g.root = some root)
    {names : List String}
    (hsub : names.Sublist ((shownOrder root g.edges).map Vertex.aliasName))
    (hmem : ∀ v ∈ g.vertices, v.aliasName ∈ names ↔ ¬g.IsHidden v) :
    names = (shownOrder root g.edges).map Vertex.aliasName ↔
      ∀ e ∈ g.edges.tail, e.joinType ≠ .right := by
  have hvertices : ∀ v, v ∈ shownOrder root g.edges ↔ v ∈ g.vertices := fun v => by
    rw [hg.vertices_eq_cons hroot]
    exact (shownOrder_perm root g.edges).mem_iff
  have hright : (∀ e ∈ g.edges.tail, e.joinType ≠ .right) ↔ ∀ v ∈ g.vertices, ¬g.IsHidden v := by
    have hhidden := not_congr (exists_isHidden_iff hg)
    push Not at hhidden
    exact hhidden.symm
  rw [hright]
  constructor
  · rintro rfl v hv
    exact (hmem v hv).1 (List.mem_map_of_mem ((hvertices v).2 hv))
  · intro hall
    refine hsub.eq_of_length_le ((hg.nodup_map_shownOrder hroot).subperm ?_).length_le
    intro a ha
    obtain ⟨v, hv, rfl⟩ := List.mem_map.1 ha
    exact (hmem v ((hvertices v).1 hv)).2 (hall v ((hvertices v).1 hv))

end Graph

namespace Session

/-- For every builder that calls have made.  A table is hidden in the compiled statement exactly if
a right join, other than the first join, comes after it.  Compiling without filters succeeds, and
the statement can be written unless a table has an empty name or field.  After any filters the list
of aliases is given exactly if the statement can be written.  Then the text after FROM reads the
tables in an order in which each that is joined from the right stands in front of the earlier ones;
the list has the aliases of the tables that are not hidden, in this order and each once, so that it
has all of them exactly if no join but the first is a right join, while the list of table names has
all tables.  It is this list that a reference to an alias which is not found is answered with. -/
theorem aliases_shown (schema : Schema) (cs : List Command) {name : String} {b : Builder}
    (hb : ((ofSchema schema).obeyAll cs).builder? name = some b) (chains : KeyChains) :
    ((∃ v ∈ b.graph.vertices, b.graph.IsHidden v) ↔
      ∃ e ∈ b.graph.edges.tail, e.joinType = .right) ∧
    (∃ c, (b.graph.compile [] chains).outcome = .ok c ∧
      (c.statement.IsWritable ↔ ∀ v ∈ b.graph.vertices, v.table.name ≠ "" ∧ "" ∉ v.table.fields)) ∧
    ∃ root, b.graph.root = some root ∧
      (Graph.shownOrder root b.graph.edges).Perm b.graph.vertices ∧
      ∀ filters c, (b.graph.compile filters chains).outcome = .ok c →
        ((∃ names, c.statement.sources.map Source.allAliasNames = .ok names) ↔
          c.statement.IsWritable) ∧
        ∀ sql, c.statement.text = .ok sql →
          (∃ pre text post, sql = pre ++ " \nFROM " ++ text ++ post ∧
            FromText
              (b.graph.edges.map fun e => e.conditionWritten .standard c.params fun n _ => ":" ++ n)
              text ((Graph.shownOrder root b.graph.edges).map fun v =>
                (v.table.name, v.aliasName))) ∧
          c.statement.sources.map Source.allTableNames =
            .ok ((Graph.shownOrder root b.graph.edges).map fun v => v.table.name).eraseDups ∧
          ∃ names, c.statement.sources.map Source.allAliasNames = .ok names ∧
            names.Sublist ((Graph.shownOrder root b.graph.edges).map Vertex.aliasName) ∧
            names.Nodup ∧ (∀ v ∈ b.graph.vertices, v.aliasName ∈ names ↔ ¬b.graph.IsHidden v) ∧
            (names = (Graph.shownOrder root b.graph.edges).map Vertex.aliasName ↔
              ∀ e ∈ b.graph.edges.tail, e.joinType ≠ .right) ∧
            ∀ ref owner known,
              Filter.column c.statement ref = .error (.aliasNotFound owner known) →
                known = names := by
  have hg := grown_run schema cs hb
  obtain ⟨root, hroot⟩ := Option.isSome_iff_exists.1 hg.has_root
  have hperm : (Graph.shownOrder root b.graph.edges).Perm b.graph.vertices :=
    hg.coherent.vertices_eq_cons hroot ▸ Graph.shownOrder_perm root b.graph.edges
  refine ⟨Graph.exists_isHidden_iff hg.coherent,
    ⟨_, hg.outcome_compile hroot [] chains, hg.isWritable_plain_iff hroot⟩, root, hroot, hperm,
    fun filters c hc => ⟨Statement.exists_sources_map_iff _, fun sql hsql => ?_⟩⟩
  have hcovers := hg.covers_compiled hroot hc
  obtain ⟨s, hs, rfl⟩ := hg.of_outcome_compile hroot hc
  have hsource : (b.graph.compiledAs s).statement.source =
      Graph.joined (Parameters.ofEdges b.graph.edges).values root b.graph.edges :=
    (Filter.applyAll_source hs).1
  have hsub : (b.graph.compiledAs s).statement.source.aliasNames.Sublist
      ((Graph.shownOrder root b.graph.edges).map Vertex.aliasName) := by
    rw [hsource]
    exact Graph.aliasNames_joined_sublist _ root b.graph.edges
  have hnodup := hsub.nodup (hg.coherent.nodup_map_shownOrder hroot)
  have hall : Source.allAliasNames [(b.graph.compiledAs s).statement.source] =
      (b.graph.compiledAs s).statement.source.aliasNames := by
    rw [Source.allAliasNames, List.flatMap_singleton, eraseDups_of_nodup hnodup]
  have hmem : ∀ v ∈ b.graph.vertices, v.aliasName ∈
      (b.graph.compiledAs s).statement.source.aliasNames ↔ ¬b.graph.IsHidden v :=
    fun v hv => hcovers.mem_aliasNames_iff hg.coherent hroot hv
  refine ⟨?_, Graph.allTableNames_joined hsource hsql, _, ?_, hsub, hnodup, hmem,
    hg.coherent.eq_map_shownOrder_iff hroot hsub hmem, ?_⟩
  · obtain ⟨pre, text, post, hsplit, htext, -⟩ := Statement.text_source hsql
    rw [hsource] at htext
    exact ⟨pre, text, post, hsplit,
      Graph.reads_joined root b.graph.edges Statement.writes_pieceText _ text htext⟩
  · rw [← hall, Statement.sources, hsql]
    rfl
  · intro ref owner known hfault
    rw [Filter.column_of_written hsql] at hfault
    rw [Source.eq_of_resolve_aliasNotFound hfault, hall]

/-- A table is joined from the left and then one from the right: of three tables one is listed by
its alias. -/
theorem aliases_shown_crossed :
    ∃ c names, (crossedBuilder.graph.compile [] .empty).outcome = .ok c ∧
    c.statement.sources.map Source.allTableNames = .ok ["c", "a", "b"] ∧
    c.statement.sources.map Source.allAliasNames = .ok names ∧
    "c" ∈ names ∧ "a" ∉ names ∧ "b" ∉ names := by
  have hb : ((ofSchema (.ofSource (.uniform ⟨["id", "x"], ["id"]⟩))).obeyAll crossedCalls).builder?
      "q" = some crossedBuilder := rfl
  obtain ⟨-, ⟨c, hc, hwritable⟩, root, hroot, -, hshown⟩ := aliases_shown _ _ hb .empty
  obtain ⟨sql, hsql⟩ := hwritable.2 (by decide)
  obtain ⟨-, hlists⟩ := hshown [] c hc
  obtain ⟨-, htables, names, hnames, -, -, hmem, -⟩ := hlists sql hsql
  obtain ⟨root', e, e', hroot', hs, hright, hvertices, horder, haliases⟩ :
      ∃ root' e e', crossedBuilder.graph.root = some root' ∧
        crossedBuilder.graph.edges = [e] ++ [e'] ∧ e'.joinType = .right ∧
        crossedBuilder.graph.vertices = [root', e.child, e'.child] ∧
        (Graph.shownOrder root' crossedBuilder.graph.edges).map (fun v => v.table.name) =
          ["c", "a", "b"] ∧
        [root', e.child, e'.child].map Vertex.aliasName = ["a", "b", "c"] :=
    ⟨_, _, _, rfl, rfl, rfl, rfl, rfl, rfl⟩
  obtain rfl := Option.some.inj (hroot.symm.trans hroot')
  rw [hvertices] at hmem
  simp only [List.map_cons, List.map_nil, List.cons.injEq, and_true] at haliases
  obtain ⟨ha, hb', hc'⟩ := haliases
  have hhidden : ∀ v ∈ [root, e.child], crossedBuilder.graph.IsHidden v := by
    intro v hv
    rw [Graph.IsHidden, hroot, hs]
    exact ⟨[e], e', [], rfl, List.cons_ne_nil e [], hright, hv⟩
  have hlast : ¬crossedBuilder.graph.IsHidden e'.child := by
    rw [Graph.IsHidden, hroot, hs]
    refine Graph.Covers.not_hiddenAlong_child ?_
    show e'.child.aliasName ∉ [root.aliasName, e.child.aliasName]
    rw [ha, hb', hc']
    decide
  refine ⟨c, names, hc, ?_, hnames, ?_, ?_, ?_⟩
  · rw [htables, horder]
    rfl
  · rw [← hc']
    exact (hmem e'.child (by simp)).2 hlast
  · rw [← ha]
    exact fun h => (hmem root (by simp)).1 h (hhidden root (by simp))
  · rw [← hb']
    exact fun h => (hmem e.child (by simp)).1 h (hhidden e.child (by simp))

end Session

end NestedJoin
