import NestedJoin.Proofs.KeyChains
import NestedJoin.Proofs.Resolving
set_option autoImplicit false

/-!
# Reading the rows of a compiled statement

In a row of a result only the labels tell the columns apart, and a label runs an alias and a
field together without saying where the one ends.  No label stands for two columns all the
same: an edge whose table would produce a column a second time is not accepted.  So each table
reads in a row just what was selected for it, whatever the names.

Main statement: `Session.columns_decode`.
-/

namespace NestedJoin

open Sql

/-- The row of a result in which the selected columns have some values. -/
def Sql.Statement.resultRow (s : Statement) (value : ColumnRef → Value) : Row :=
  .ofList (s.columns.map fun c => (c.label, value c.source))

namespace Graph

variable {g : Graph}

/-! ## A value for every field -/

/-- The row that has some values for the fields of the tables. -/
def rowWith (g : Graph) (value : Vertex → String → Value) : Row :=
  .ofList (g.vertices.flatMap fun v => v.table.fields.map fun f => (v.table.column f, value v f))

/-- A field's column holds the field's value, and no other field's. -/
theorem Coherent.get?_rowWith (h : g.Coherent) (value : Vertex → String → Value) {v : Vertex}
    (hv : v ∈ g.vertices) {f : String} (hf : f ∈ v.table.fields) :
    (g.rowWith value).get? (v.table.column f) = some (value v f) := by
  let cells : List (String × Value) :=
    g.vertices.flatMap fun w => w.table.fields.map fun f => (w.table.column f, value w f)
  have hnames : cells.map Prod.fst = g.vertices.flatMap fun w => w.table.columns := by
    rw [List.map_flatMap]
    refine List.flatMap_congr fun w _ => ?_
    rw [List.map_map]
    rfl
  have hn : ((OrderedMap.empty (κ := String) (ν := Value)).keys ++ cells.map Prod.fst).Nodup := by
    rw [hnames]
    exact h.columns_nodup
  have hentries : (g.rowWith value).entries = cells := OrderedMap.entries_insertAll_of_nodup hn
  rw [OrderedMap.get?_eq_some_iff, hentries]
  exact List.mem_flatMap.2 ⟨v, hv, List.mem_map.2 ⟨f, hf, rfl⟩⟩

/-- A table reads its own values in field order. -/
theorem Coherent.extractEntries_rowWith (h : g.Coherent) (value : Vertex → String → Value)
    {v : Vertex} (hv : v ∈ g.vertices) :
    v.table.extractEntries (g.rowWith value) = v.table.fields.map fun f => (f, value v f) := by
  have hcell : ∀ f ∈ v.table.fields,
      ((g.rowWith value).get? (v.table.column f)).map (fun y => (f, y)) = some (f, value v f) := by
    intro f hf
    rw [h.get?_rowWith value hv hf]
    rfl
  rw [Table.extractEntries, List.filterMap_congr hcell, List.filterMap_eq_map']

/-! ## Compiled columns -/

/-- The result of a compiled graph has a value for every field. -/
theorem resultRow_eq_rowWith {s : Statement} (hs : s.columns = g.outputColumns)
    (value : ColumnRef → Value) :
    s.resultRow value = g.rowWith fun v f => value ⟨v.aliasName, f⟩ := by
  rw [Statement.resultRow, hs, outputColumns, List.map_flatMap]
  simp only [List.map_map]
  rfl

/-- The columns of every key chain are among the columns of the tables. -/
theorem mem_columns_of_mem_chainOf {v : Vertex} {column : String} (h : column ∈ g.chainOf v) :
    column ∈ g.vertices.flatMap fun w => w.table.columns := by
  obtain ⟨w, hw, hkey⟩ := exists_of_mem_chainOf h
  exact List.mem_flatMap.2 ⟨w, hw, Table.mem_columns_of_mem_keyColumns hkey⟩

/-- Compiling leaves behind the key chains that preparing does. -/
theorem Grown.prepare_eq_chains_compile (hg : g.Grown) (filters : List Filter)
    (chains : KeyChains) : g.prepare chains = .ok (g.compile filters chains).chains := by
  obtain ⟨chains', hp⟩ := hg.exists_prepare chains
  rw [chains_compile, prepared, hp]
  rfl

end Graph

namespace Session

/-- For every builder that calls have made, and whatever the filters: the compiled columns are the
flat columns of all aliases and fields, in the order of the tables and of their fields, each of
them once, and each is selected from the alias and the field that it is named by.  If the columns
of a row hold the values of what they were selected from, each table reads its own values in it,
in field order.  The columns of all key chains that compiling leaves behind are compiled ones. -/
theorem columns_decode (schema : Schema) (cs : List Command) {name : String} {b : Builder}
    (hb : ((ofSchema schema).obeyAll cs).builder? name = some b) (chains : KeyChains) :
    (∃ c, (b.graph.compile [] chains).outcome = .ok c) ∧
    ∀ filters c, (b.graph.compile filters chains).outcome = .ok c →
      c.columns = (b.graph.vertices.flatMap fun v => v.table.fields.map (flatName v.aliasName)) ∧
      c.columns.Nodup ∧
      c.columns = c.statement.columns.map (·.label) ∧
      (c.statement.columns.map (·.source) =
        b.graph.vertices.flatMap fun v => v.table.fields.map fun f => ⟨v.aliasName, f⟩) ∧
      (∀ value : ColumnRef → Value, ∀ v ∈ b.graph.vertices,
        (v.table.extract (c.statement.resultRow value)).entries =
          v.table.fields.map fun f => (f, value ⟨v.aliasName, f⟩)) ∧
      b.graph.prepare chains = .ok (b.graph.compile filters chains).chains ∧
      ∀ v ∈ b.graph.vertices, ∀ column ∈ (b.graph.compile filters chains).chains.chainOf v,
        column ∈ c.columns := by
  have hg := grown_run schema cs hb
  obtain ⟨root, hroot⟩ := Option.isSome_iff_exists.1 hg.has_root
  refine ⟨⟨_, hg.outcome_compile hroot [] chains⟩, fun filters c hc => ?_⟩
  have hflat := Graph.columns_compile hc
  have hprepare := hg.prepare_eq_chains_compile filters chains
  obtain ⟨s, hs, rfl⟩ := hg.of_outcome_compile hroot hc
  have hcolumns : s.columns = b.graph.outputColumns := (Filter.applyAll_source hs).2
  refine ⟨hflat, ?_, ?_, ?_, ?_, hprepare, ?_⟩
  · rw [hflat]
    exact hg.coherent.columns_nodup
  · show b.graph.outputColumns.map (·.label) = s.columns.map (·.label)
    rw [hcolumns]
  · show s.columns.map (·.source) = _
    rw [hcolumns, Graph.outputColumns, List.map_flatMap]
    simp only [List.map_map]
    rfl
  · intro value v hv
    show v.table.extractEntries (s.resultRow value) = _
    rw [Graph.resultRow_eq_rowWith hcolumns]
    exact hg.coherent.extractEntries_rowWith _ hv
  · intro v hv column hcolumn
    rw [hg.isPrepared_prepare hprepare v hv] at hcolumn
    rw [hflat]
    exact Graph.mem_columns_of_mem_chainOf hcolumn

/-- Calls of which the second is refused, since the first table has a column of its name. -/
def nearCalls : List Command :=
  let spec : JoinSpec := { kind := .ok .multiple, on := [(.str "id", .str "id")] }
  [.select "q" (.named "t") "a" false,
    .join "q" true (.named "u") (some "us") "a_b" "a" spec,
    .join "q" true (.named "w") (some "ws") "a_b_b" "a" spec]

def nearBuilder : Builder :=
  (((ofSchema (.ofSource (.uniform ⟨["id", "b_id"], ["id"]⟩))).obeyAll nearCalls).builder?
    "q").getD default

theorem columns_decode_near :
    ∃ c, (nearBuilder.graph.compile [.limit (some 2)] .empty).outcome = .ok c ∧
      c.columns = ["a_id", "a_b_id", "a_b_b_id", "a_b_b_b_id"] ∧
      ∀ value : ColumnRef → Value, nearBuilder.graph.vertices.map (fun v =>
        (v.table.extract (c.statement.resultRow value)).entries) =
          [[("id", value ⟨"a", "id"⟩), ("b_id", value ⟨"a", "b_id"⟩)],
            [("id", value ⟨"a_b_b", "id"⟩), ("b_id", value ⟨"a_b_b", "b_id"⟩)]] := by
  have hb : ((ofSchema (.ofSource (.uniform ⟨["id", "b_id"], ["id"]⟩))).obeyAll
      nearCalls).builder? "q" = some nearBuilder := rfl
  have hc : ∃ c, (nearBuilder.graph.compile [.limit (some 2)] .empty).outcome = .ok c := ⟨_, rfl⟩
  obtain ⟨c, hc⟩ := hc
  obtain ⟨-, hall⟩ := columns_decode _ nearCalls hb .empty
  obtain ⟨hcolumns, -, -, -, hread, -, -⟩ := hall _ c hc
  refine ⟨c, hc, hcolumns.trans (by decide), fun value => ?_⟩
  rw [List.map_congr_left (hread value)]
  rfl

end Session

end NestedJoin
