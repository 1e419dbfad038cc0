import Mathlib.Data.List.Induction
import NestedJoin.Proofs.Compiling
import NestedJoin.Proofs.References
import NestedJoin.Proofs.Writing
set_option autoImplicit false

/-!
# Looking columns up in compiled statements

A graph that lacks no parent column, such as a grown one, reads from its root joined with the edges
in their order, so a reference finds what `Graph.Covers` says: every table, unless a later right
join hides it.
Nothing is found if the statement cannot be written; before any filter that is so only if a
table has an empty name or an empty field.

Main statement: `Session.column_compiled`.
-/

namespace NestedJoin

open Sql

namespace Graph

/-! ## What a graph reads from -/

/-- A coherent graph with a root, whose own tables have the parent columns of its edges. -/
structure ReadsFrom (g : Graph) (root : Vertex) : Prop where
  coherent : g.Coherent
  root_eq : g.root = some root
  offers : ∀ e ∈ g.edges, ∀ p ∈ e.on.entries, g.Offers e p

variable {g : Graph} {params : OrderedMap String Value} {root : Vertex}

/-- The parents of a grown graph's edges are its own tables, so no parent column is missing. -/
theorem Grown.readsFrom (hg : g.Grown) (hroot : g.root = some root) : g.ReadsFrom root where
  coherent := hg.coherent
  root_eq := hroot
  offers := fun e he p hp => ⟨e.parent, hg.parent_eq e he, e.parent_mem p hp⟩

theorem ReadsFrom.source_eq (hg : g.ReadsFrom root) (params : OrderedMap String Value) :
    g.source params root = .ok (joined params root g.edges) := by
  rw [Graph.source_eq, find?_isLost_eq_none_iff.2 hg.offers]

/-- What a graph reads from shows its tables, unless they are hidden. -/
theorem ReadsFrom.covers_joined (hg : g.ReadsFrom root) (params : OrderedMap String Value) :
    Covers root g.edges (joined params root g.edges) := by
  have run : ∀ done rest, g.edges = done ++ rest → Covers root done (joined params root done) := by
    intro done
    induction done using List.reverseRecOn with
    | nil => exact fun _ _ => Covers.of_root root
    | append_singleton done e ih =>
      intro rest hs
      rw [List.append_assoc, List.singleton_append] at hs
      have hnew : e.aliasName ∉ (root :: done.map Edge.child).map Vertex.aliasName := by
        have hn := Coherent.aliases_nodup g
        rw [hg.coherent.aliases_split hs, hg.root_eq, List.nodup_append] at hn
        exact fun hm => hn.2.2 _ hm _ List.mem_cons_self rfl
      rw [joined_concat]
      exact (ih (e :: rest) hs).joinLeaf hnew _
  exact run g.edges [] (List.append_nil _).symm

/-! ## Names in what a graph reads from -/

/-- The identifiers in an edge's condition are its aliases and its join columns. -/
theorem of_identifier_mem_matching {e : Edge} {n : String}
    (h : .identifier n ∈ (e.matching params).pieces) :
    n = e.aliasName ∨ n = e.parentAlias ∨ ∃ p ∈ e.on.entries, n = p.1 ∨ n = p.2 := by
  rcases of_mem_separated h with h | ⟨l, hl, h⟩
  · cases h
  · rcases List.mem_append.1 hl with hl | hl
    · obtain ⟨pair, hpair, rfl⟩ := List.mem_map.1 hl
      obtain ⟨p, hp, rfl⟩ := List.mem_map.1 hpair
      simp only [ColumnRef.pieces, List.mem_append, List.mem_cons, Piece.identifier.injEq,
        reduceCtorEq, false_or, List.not_mem_nil, or_false] at h
      rcases h with (rfl | rfl) | rfl | rfl
      · exact Or.inl rfl
      · exact Or.inr (Or.inr ⟨p, hp, Or.inl rfl⟩)
      · exact Or.inr (Or.inl rfl)
      · exact Or.inr (Or.inr ⟨p, hp, Or.inr rfl⟩)
    · obtain ⟨t, -, rfl⟩ := List.mem_map.1 hl
      cases List.mem_singleton.1 h

/-- The identifiers in what a graph reads from are the names and the aliases of its tables, and
those in the conditions of its edges. -/
theorem identifier_mem_joined_iff {es : List Edge} {n : String} :
    .identifier n ∈ sourcePieces (joined params root es) ↔
      (∃ v ∈ root :: es.map Edge.child, n = v.table.name ∨ n = v.aliasName) ∨
        ∃ e ∈ es, .identifier n ∈ (e.matching params).pieces := by
  have hleaf : ∀ v, .identifier n ∈ sourcePieces (leaf v) ↔ n = v.table.name ∨ n = v.aliasName := by
    intro v
    show .identifier n ∈
      [Piece.identifier v.table.name, .verbatim " AS ", .identifier v.aliasName] ↔ _
    simp only [List.mem_cons, Piece.identifier.injEq, reduceCtorEq, false_or, List.not_mem_nil,
      or_false]
  induction es using List.reverseRecOn with
  | nil =>
    rw [show joined params root [] = leaf root from rfl, hleaf]
    simp
  | append_singleton es e ih =>
    rw [joined_concat, mem_sourcePieces_joinLeaf_iff (p := .identifier n) nofun, hleaf,
      List.map_append, ← List.cons_append]
    refine (or_congr_left ih).trans ?_
    simp only [List.mem_append, or_and_right, exists_or, List.map_cons, List.map_nil,
      List.mem_singleton, exists_eq_left]
    exact or_or_or_comm

/-- Before any filter a statement can be written unless a table has an empty name or field. -/
theorem ReadsFrom.isWritable_plain_iff (hg : g.ReadsFrom root) :
    (Statement.plain g.outputColumns (joined params root g.edges)).IsWritable ↔
      ∀ v ∈ g.vertices, v.table.name ≠ "" ∧ "" ∉ v.table.fields := by
  have hvertices := hg.coherent.vertices_eq_cons hg.root_eq
  rw [Statement.isWritable_plain_iff, identifier_mem_joined_iff, ← hvertices]
  constructor
  · rintro ⟨hcolumns, hnames⟩ v hv
    constructor
    · exact fun hname => hnames (Or.inl ⟨v, hv, Or.inl hname.symm⟩)
    · intro hfield
      have hc := hcolumns ⟨⟨v.aliasName, ""⟩, v.table.column ""⟩
        (List.mem_flatMap.2 ⟨v, hv, List.mem_map.2 ⟨"", hfield, rfl⟩⟩)
      exact hc.2.1 rfl
  · intro h
    constructor
    · intro c hc
      obtain ⟨v, hv, hc⟩ := List.mem_flatMap.1 hc
      obtain ⟨f, hf, rfl⟩ := List.mem_map.1 hc
      refine ⟨v.table.alias_ne_empty, ?_, flatName_ne_empty _ f⟩
      rintro rfl
      exact (h v hv).2 hf
    · rintro (⟨v, hv, hname | halias⟩ | ⟨e, he, hm⟩)
      · exact (h v hv).1 hname.symm
      · exact v.table.alias_ne_empty halias.symm
      · rcases of_identifier_mem_matching hm with halias | halias | ⟨p, hp, hchild | hparent⟩
        · exact e.child.table.alias_ne_empty halias.symm
        · exact e.parent.table.alias_ne_empty halias.symm
        · refine (h e.child (hg.coherent.child_mem he)).2 ?_
          rw [hchild]
          exact e.child_mem p hp
        · obtain ⟨own, hown, hfield⟩ := hg.offers e he p hp
          refine (h own (OrderedMap.mem_values_of_get? hown)).2 ?_
          rwa [hparent]

theorem Grown.isWritable_plain_iff (hg : g.Grown) (hroot : g.root = some root) :
    (Statement.plain g.outputColumns (joined params root g.edges)).IsWritable ↔
      ∀ v ∈ g.vertices, v.table.name ≠ "" ∧ "" ∉ v.table.fields :=
  (hg.readsFrom hroot).isWritable_plain_iff

/-! ## Compiled statements -/

/-- The statement of a graph before any filter. -/
def unfiltered (g : Graph) (root : Vertex) : Statement :=
  .plain g.outputColumns (joined (Parameters.ofEdges g.edges).values root g.edges)

/-- Compiling applies the filters to the graph's own statement. -/
theorem ReadsFrom.outcome_compile (hg : g.ReadsFrom root) (filters : List Filter)
    (chains : KeyChains) : (g.compile filters chains).outcome =
      (Filter.applyAll (g.unfiltered root) filters).map g.compiledAs := by
  rw [outcome_compile_eq_map hg.root_eq, statement, hg.source_eq]
  rfl

theorem ReadsFrom.of_outcome_compile (hg : g.ReadsFrom root) {filters : List Filter}
    {chains : KeyChains} {c : Compiled} (hc : (g.compile filters chains).outcome = .ok c) :
    ∃ s, Filter.applyAll (g.unfiltered root) filters = .ok s ∧ c = g.compiledAs s := by
  rw [hg.outcome_compile] at hc
  cases hs : Filter.applyAll (g.unfiltered root) filters with
  | error f =>
    rw [hs] at hc
    cases hc
  | ok s =>
    rw [hs] at hc
    exact ⟨s, rfl, (Except.ok.inj hc).symm⟩

theorem Grown.outcome_compile (hg : g.Grown) (hroot : g.root = some root) (filters : List Filter)
    (chains : KeyChains) : (g.compile filters chains).outcome =
      (Filter.applyAll (g.unfiltered root) filters).map g.compiledAs :=
  (hg.readsFrom hroot).outcome_compile filters chains

theorem Grown.of_outcome_compile (hg : g.Grown) (hroot : g.root = some root)
    {filters : List Filter} {chains : KeyChains} {c : Compiled}
    (hc : (g.compile filters chains).outcome = .ok c) :
    ∃ s, Filter.applyAll (g.unfiltered root) filters = .ok s ∧ c = g.compiledAs s :=
  (hg.readsFrom hroot).of_outcome_compile hc

/-- A filter that only looks a column up compiles to what was compiled before, if it finds it. -/
theorem Grown.outcome_compile_resolve (hg : g.Grown) {filters : List Filter} {chains : KeyChains}
    {c : Compiled} (hc : (g.compile filters chains).outcome = .ok c) (ref : String) :
    (g.compile (filters ++ [.resolve ref]) chains).outcome =
      (Filter.column c.statement ref).map fun _ => c := by
  obtain ⟨root, hroot⟩ := Option.isSome_iff_exists.1 hg.has_root
  obtain ⟨s, hs, rfl⟩ := hg.of_outcome_compile hroot hc
  rw [hg.outcome_compile hroot, Filter.applyAll_concat, hs]
  show ((Filter.column s ref).map fun _ => s).map g.compiledAs =
    (Filter.column s ref).map fun _ => g.compiledAs s
  cases Filter.column s ref <;> rfl

/-- Whatever the filters, a compiled statement reads from the graph's tables, unless they are
hidden. -/
theorem Grown.covers_compiled (hg : g.Grown) (hroot : g.root = some root) {filters : List Filter}
    {chains : KeyChains} {c : Compiled} (hc : (g.compile filters chains).outcome = .ok c) :
    Covers root g.edges c.statement.source := by
  obtain ⟨s, hs, rfl⟩ := hg.of_outcome_compile hroot hc
  show Covers root g.edges s.source
  rw [(Filter.applyAll_source hs).1]
  exact (hg.readsFrom hroot).covers_joined _

end Graph

/-- A lookup that fails says why, or the statement cannot be written. -/
theorem Filter.of_column_eq_error {s : Statement} {ref : String} {f : Fault}
    (h : Filter.column s ref = .error f) : Source.LookupFault ref f ∨ s.text = .error f := by
  cases htext : s.text with
  | ok t =>
    rw [Filter.column_of_written htext] at h
    exact Or.inl (Source.resolve_error h)
  | error f' =>
    cases hpoint : Source.splitReference? ref with
    | none =>
      rw [Filter.column, hpoint] at h
      exact Or.inl (Or.inl (Except.error.inj h).symm)
    | some p =>
      rw [Filter.column_of_not_written htext (by rw [hpoint]; rfl)] at h
      exact Or.inr (congrArg Except.error (Except.error.inj h))

namespace Session

/-- For every builder that calls have made, whose aliases hold no point.  A table is hidden in the
compiled statement exactly if a right join, other than the first join, comes after it.  Compiling
without filters succeeds, and the statement can be written unless a table has an empty name or
field.  After any filters a reference means a column exactly if the statement can be written, the
reference is an alias, a point and a field of that alias's table, and the table is not hidden.  A
reference to a hidden table finds no such alias, and whatever fails, fails as lookups do or because
the statement cannot be written. -/
theorem column_compiled (schema : Schema) (cs : List Command) {name : String} {b : Builder}
    (hb : ((ofSchema schema).obeyAll cs).builder? name = some b)
    (hpoints : ∀ a ∈ b.graph.aliases, '.' ∉ a.toList) (chains : KeyChains) :
    ((∃ v ∈ b.graph.vertices, b.graph.IsHidden v) ↔
      ∃ e ∈ b.graph.edges.tail, e.joinType = .right) ∧
    (∃ c, (b.graph.compile [] chains).outcome = .ok c ∧
      (c.statement.IsWritable ↔ ∀ v ∈ b.graph.vertices, v.table.name ≠ "" ∧ "" ∉ v.table.fields)) ∧
    ∀ filters c, (b.graph.compile filters chains).outcome = .ok c → ∀ ref,
      ((b.graph.compile (filters ++ [.resolve ref]) chains).outcome =
        (Filter.column c.statement ref).map fun _ => c) ∧
      (∀ column, Filter.column c.statement ref = .ok column ↔ c.statement.IsWritable ∧
        ∃ v ∈ b.graph.vertices, ¬b.graph.IsHidden v ∧ ∃ f ∈ v.table.fields,
          ref = v.aliasName ++ "." ++ f ∧ column = ⟨v.aliasName, f⟩) ∧
      (c.statement.IsWritable → ∀ v ∈ b.graph.vertices, b.graph.IsHidden v → ∀ f,
        ref = v.aliasName ++ "." ++ f → ∃ known,
          Filter.column c.statement ref = .error (.aliasNotFound v.aliasName known)) ∧
      ∀ fault, Filter.column c.statement ref = .error fault →
        Source.LookupFault ref fault ∨ c.statement.text = .error fault := by
  have hg := grown_run schema cs hb
  obtain ⟨root, hroot⟩ := Option.isSome_iff_exists.1 hg.has_root
  have hsplit : ∀ v ∈ b.graph.vertices, ∀ ref f,
      Source.splitReference? ref = some (v.aliasName, f) ↔ ref = v.aliasName ++ "." ++ f := by
    intro v hv ref f
    rw [Source.splitReference?_eq_some_iff, and_iff_left]
    apply hpoints
    rw [hg.coherent.aliases_eq]
    exact List.mem_map_of_mem hv
  refine ⟨Graph.exists_isHidden_iff hg.coherent, ?_, ?_⟩
  · exact ⟨_, hg.outcome_compile hroot [] chains, hg.isWritable_plain_iff hroot⟩
  · intro filters c hc ref
    have hcovers := hg.covers_compiled hroot hc
    refine ⟨hg.outcome_compile_resolve hc ref, ?_, ?_, ?_⟩
    · intro column
      rw [Filter.column_eq_ok_iff, hcovers.resolve_eq_ok_iff hg.coherent hroot]
      refine and_congr_right fun _ => exists_congr fun v => and_congr_right fun hv => ?_
      simp only [hsplit v hv]
    · rintro ⟨t, ht⟩ v hv hhidden f href
      rw [Filter.column_of_written ht]
      exact ⟨_, hcovers.resolve_of_isHidden hg.coherent hroot hv hhidden
        ((hsplit v hv ref f).2 href)⟩
    · exact fun fault => Filter.of_column_eq_error

/-- Calls that join a table from the left and then one from the right. -/
def crossedCalls : List Command :=
  let spec : JoinSpec := { kind := .ok .multiple, on := [(.str "x", .str "id")] }
  [.select "q" (.named "a") "a" false,
    .join "q" true (.named "b") (some "bs") "b" "a" spec,
    .join "q" false (.named "c") (some "c") "c" "a" { spec with joinType := .str "right" }]

def crossedBuilder : Builder :=
  (((ofSchema (.ofSource (.uniform ⟨["id", "x"], ["id"]⟩))).obeyAll crossedCalls).builder?
    "q").getD default

theorem column_compiled_crossed : ∃ c, (crossedBuilder.graph.compile [] .empty).outcome = .ok c ∧
    Filter.column c.statement "c.x" = .ok ⟨"c", "x"⟩ ∧
    ∃ known, Filter.column c.statement "a.id" = .error (.aliasNotFound "a" known) := by
  have hb : ((ofSchema (.ofSource (.uniform ⟨["id", "x"], ["id"]⟩))).obeyAll crossedCalls).builder?
      "q" = some crossedBuilder := rfl
  have hpoints : ∀ a ∈ crossedBuilder.graph.aliases, '.' ∉ a.toList := by decide
  obtain ⟨-, ⟨c, hc, hwritable⟩, hcolumn⟩ := column_compiled _ _ hb hpoints .empty
  have hw : c.statement.IsWritable := hwritable.2 (by decide)
  obtain ⟨root, e, e', hroot, hs, hright, hvertices, ha, hc', hx⟩ :
      ∃ root e e', crossedBuilder.graph.root = some root ∧
        crossedBuilder.graph.edges = [e] ++ [e'] ∧ e'.joinType = .right ∧
        crossedBuilder.graph.vertices = [root, e.child, e'.child] ∧
        [root, e.child].map Vertex.aliasName = ["a", "b"] ∧ e'.aliasName = "c" ∧
        "x" ∈ e'.child.table.fields := ⟨_, _, _, rfl, rfl, rfl, rfl, rfl, rfl, by decide⟩
  have hhidden : crossedBuilder.graph.IsHidden root := by
    rw [Graph.IsHidden, hroot, hs]
    exact ⟨[e], e', [], rfl, List.cons_ne_nil e [], hright, List.mem_cons_self⟩
  have hshown : ¬crossedBuilder.graph.IsHidden e'.child := by
    rw [Graph.IsHidden, hroot, hs]
    refine Graph.Covers.not_hiddenAlong_child ?_
    show e'.aliasName ∉ [root, e.child].map Vertex.aliasName
    rw [ha, hc']
    decide
  refine ⟨c, hc, ?_, ?_⟩
  · obtain ⟨-, hfound, -, -⟩ := hcolumn [] c hc "c.x"
    rw [hfound]
    refine ⟨hw, e'.child, ?_, hshown, "x", hx, ?_, ?_⟩
    · rw [hvertices]
      exact List.mem_of_mem_getLast? rfl
    · rw [show e'.child.aliasName = "c" from hc']
      rfl
    · rw [show e'.child.aliasName = "c" from hc']
  · obtain ⟨-, -, hlost, -⟩ := hcolumn [] c hc "a.id"
    have ha' : root.aliasName = "a" := (List.cons.inj ha).1
    rw [← ha']
    refine hlost hw root ?_ hhidden "id" ?_
    · rw [hvertices]
      exact List.mem_cons_self
    · rw [ha']
      rfl

end Session

end NestedJoin
