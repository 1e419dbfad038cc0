import NestedJoin.Proofs.Materializing
import NestedJoin.Proofs.Retention
set_option autoImplicit false

/-!
# Missing key columns

Whether a table is present in a row is told by its own key columns, but its key takes those of all
tables above it.  A row that lacks one of these is refused, though it may have passed for the table
that the column belongs to, which counts as absent there.  The first such column is reported, in
the order of rows, vertices and chains.  Once a child has its key its parent has one, since the
chain of the parent begins that of the child.

Main statements: `Graph.Listed.ends_consume`, what a row that may lack columns does to a vertex, and
`Session.materialize_missing`.
-/

namespace NestedJoin

/-! ## Folds that end at the first fault -/

/-- A result is the fault that was expected, or of some sort if none was. -/
def Ends {β : Type} (expected : Option Fault) (sort : β → Prop) : Except Fault β → Prop
  | .error fault => expected = some fault
  | .ok s => expected = none ∧ sort s

theorem Ends.eq_error_iff {β : Type} {expected : Option Fault} {sort : β → Prop}
    {result : Except Fault β} (h : Ends expected sort result) {fault : Fault} :
    result = .error fault ↔ expected = some fault := by
  cases result with
  | error fault' => rw [show expected = some fault' from h, Except.error.injEq, Option.some.injEq]
  | ok s => simp [h.1]

theorem Ends.exists_ok {β : Type} {sort : β → Prop} {result : Except Fault β}
    (h : Ends none sort result) : ∃ s, result = .ok s := by
  cases result with
  | error fault => cases h
  | ok s => exact ⟨s, rfl⟩

/-- A fold over elements of which some bring a fault ends at the first one of these. -/
theorem ends_foldlM {α β : Type} {step : β → α → Except Fault β} {faultOf : α → Option Fault}
    {sort : β → Prop} {xs : List α}
    (hstep : ∀ x ∈ xs, ∀ s, sort s → Ends (faultOf x) sort (step s x)) {s : β} (hs : sort s) :
    Ends (xs.findSome? faultOf) sort (xs.foldlM step s) := by
  induction xs generalizing s with
  | nil => exact ⟨rfl, hs⟩
  | cons x xs ih =>
    have hx := hstep x List.mem_cons_self s hs
    rw [List.foldlM_cons, List.findSome?_cons]
    cases hnext : step s x with
    | error fault =>
      rw [hnext] at hx
      rw [show faultOf x = some fault from hx]
      rfl
    | ok next =>
      rw [hnext] at hx
      obtain ⟨hnone, hsort⟩ := hx
      rw [hnone]
      exact ih (fun y hy => hstep y (List.mem_cons_of_mem x hy)) hsort

namespace KeyChains

/-- The values under a chain of columns are refused for the first column that the row lacks. -/
theorem columnValues_of_find? {aliasName : String} {row : Row} {cs : List String} {c : String}
    (h : cs.find? (fun d => !row.contains d) = some c) :
    columnValues aliasName row cs = .error (.keyColumnMissing aliasName c) := by
  induction cs with
  | nil => cases h
  | cons d cs ih =>
    rw [List.find?_cons] at h
    cases hd : row.get? d with
    | none =>
      rw [OrderedMap.contains, hd] at h
      cases h
      simp only [columnValues, hd]
    | some x =>
      rw [OrderedMap.contains, hd] at h
      simp only [columnValues, hd, ih h, Except.map]

end KeyChains

namespace Graph

/-! ## What a row lacks -/

/-- What a row holds under the key columns of the tables can be part of a key. -/
def ScalarKeys (g : Graph) (row : Row) : Prop :=
  ∀ v ∈ g.vertices, ∀ c ∈ v.table.keyColumns, (row.get? c).all Value.isScalar = true

instance (g : Graph) (row : Row) : Decidable (g.ScalarKeys row) :=
  inferInstanceAs (Decidable (∀ v ∈ g.vertices, ∀ c ∈ v.table.keyColumns, _))

/-- The first column of the chain of a vertex that a row lacks, if the table is present in it. -/
def missing? (g : Graph) (row : Row) (v : Vertex) : Option String :=
  if v.table.isPresent row then (g.chainOf v).find? fun c => !row.contains c else none

/-- The first column that one of the rows lacks, with the alias of the table that needs it. -/
def firstMissing? (g : Graph) (rows : List Row) : Option (String × String) :=
  rows.findSome? fun row => g.vertices.findSome? fun v =>
    (g.missing? row v).map fun c => (v.aliasName, c)

section Missing

variable {g : Graph} {chains : KeyChains} {row : Row} {f : Forest} {v : Vertex}

theorem missing?_eq_none_iff : g.missing? row v = none ↔
    (v.table.isPresent row = true → ∀ c ∈ g.chainOf v, row.contains c = true) := by
  unfold missing?
  split
  · next hp => simp [hp]
  · next hp => simp [hp]

/-- Some column is missing exactly if a row holds something under a key column of a table and lacks
one of the table's chain. -/
theorem firstMissing?_isSome_iff {rows : List Row} : (g.firstMissing? rows).isSome = true ↔
    ∃ row ∈ rows, ∃ v ∈ g.vertices, (∃ d ∈ v.table.keyColumns, row.holds d = true) ∧
      ∃ c ∈ g.chainOf v, row.contains c = false := by
  simp only [firstMissing?, List.findSome?_isSome_iff, Option.isSome_map]
  refine exists_congr fun row => and_congr_right fun _ => exists_congr fun v =>
    and_congr_right fun _ => ?_
  rw [← Option.ne_none_iff_isSome, ne_eq, missing?_eq_none_iff, Table.isPresent, ← List.any_eq_true]
  simp only [Classical.not_imp, not_forall, Bool.not_eq_true]

/-- If nothing is missing, the row has the key of every table that is present in it. -/
theorem ScalarKeys.any_isScalar (hrow : g.ScalarKeys row) (hm : g.missing? row v = none)
    (hp : v.table.isPresent row = true) :
    ∀ c ∈ g.chainOf v, (row.get? c).any Value.isScalar = true := by
  intro c hc
  obtain ⟨w, hw, hcol⟩ := exists_of_mem_chainOf hc
  obtain ⟨x, hx⟩ := Option.isSome_iff_exists.1 (missing?_eq_none_iff.1 hm hp c hc)
  have hscalar := hrow w hw c hcol
  rw [hx] at hscalar ⊢
  exact hscalar

/-- A vertex refuses a row that lacks a column of its chain. -/
theorem consume_of_missing (hc : g.IsPrepared chains) (hv : v ∈ g.vertices) {c : String}
    (hm : g.missing? row v = some c) :
    g.consume chains row f v = .error (.keyColumnMissing v.aliasName c) := by
  unfold missing? at hm
  split at hm
  · next hp =>
    have hkey : chains.nodeKey v row = .error (.keyColumnMissing v.aliasName c) := by
      rw [KeyChains.nodeKey, hc v hv]
      exact KeyChains.columnValues_of_find? hm
    simp only [consume, hp, if_true, KeyChains.filingKey, hkey, bind, Except.bind]
  · cases hm

/-- A row that may lack columns is refused for the first of these, or taken. -/
theorem Listed.ends_consume (hl : g.Listed f) (hg : g.Grown) (hk : g.KindsAgree)
    (hc : g.IsPrepared chains) (hrow : g.ScalarKeys row) (hv : v ∈ g.vertices) :
    Ends ((g.missing? row v).map fun c => .keyColumnMissing v.aliasName c) g.Listed
      (g.consume chains row f v) := by
  cases hm : g.missing? row v with
  | none =>
    obtain ⟨f', hf', hl'⟩ := hl.exists_consume hg hk hc hv (hrow.any_isScalar hm)
    rw [hf']
    exact ⟨rfl, hl'⟩
  | some c =>
    rw [consume_of_missing hc hv hm]
    rfl

/-- Folding rows that may lack columns ends at the first of these, or succeeds. -/
theorem Grown.ends_forestOf (hg : g.Grown) (hk : g.KindsAgree) (hc : g.IsPrepared chains)
    {rows : List Row} (hrows : ∀ row ∈ rows, g.ScalarKeys row) :
    Ends ((g.firstMissing? rows).map fun p => .keyColumnMissing p.1 p.2) g.Listed
      (g.forestOf chains rows) := by
  have hfaults : (g.firstMissing? rows).map (fun p => Fault.keyColumnMissing p.1 p.2) =
      rows.findSome? fun row => g.vertices.findSome? fun v =>
        (g.missing? row v).map fun c => .keyColumnMissing v.aliasName c := by
    simp only [firstMissing?, List.map_findSome?, Function.comp_def, Option.map_map]
  rw [hfaults]
  -- a fold over the rows, and in each of them one over the vertices
  refine ends_foldlM (fun row hrow s hs => ?_) (.ofAliases g g.aliases)
  exact ends_foldlM (fun v hv s hs => hs.ends_consume hg hk hc (hrows row hrow) hv) hs

theorem Grown.ends_materialize (hg : g.Grown) (hk : g.KindsAgree) (hc : g.IsPrepared chains)
    {rows : List Row} (hrows : ∀ row ∈ rows, g.ScalarKeys row) :
    Ends ((g.firstMissing? rows).map fun p => .keyColumnMissing p.1 p.2) (fun _ => True)
      (g.materialize chains .empty rows).outcome := by
  obtain ⟨root, hroot⟩ := Option.isSome_iff_exists.1 hg.has_root
  have hforest := hg.ends_forestOf hk hc hrows
  unfold materialize
  cases hf : g.forestOf chains rows with
  | error fault =>
    rw [hf] at hforest
    exact hforest
  | ok f =>
    rw [hf] at hforest
    show Ends _ _ (g.rootOrFault.map fun r => (f, r.aliasName))
    rw [rootOrFault, hroot]
    exact ⟨hforest.1, trivial⟩

end Missing

/-! ## Graphs whose containers are different -/

/-- If the containers of every table are different, no two edges share one. -/
theorem Grown.kindsAgree_of_nodup {g : Graph} (hg : g.Grown)
    (h : ∀ v ∈ g.vertices, (g.containersOf v).Nodup) : g.KindsAgree := by
  intro e he e' he' hp hc
  have hparent : e'.parent = e.parent := by
    have hfind := hg.parent_eq e' he'
    rw [hp, hg.parent_eq e he] at hfind
    exact (Option.some.inj hfind).symm
  have hv := hg.parent_mem he
  have hinto : e ∈ g.edgesInto e.parent.aliasName := (hg.mem_edgesInto_iff hv).2 ⟨he, rfl⟩
  have hinto' : e' ∈ g.edgesInto e.parent.aliasName :=
    (hg.mem_edgesInto_iff hv).2 ⟨he', hparent⟩
  obtain rfl := List.inj_on_of_nodup_map (h e.parent hv) hinto' hinto hc
  rcases hg.kind_eq e' he with hkind | hkind <;> rw [hkind] <;> rfl

/-! ## Keys of parents -/

/-- What a row holds under the chain of a child begins with what it holds under the parent's. -/
theorem Grown.exists_prefix_of_chain {g : Graph} (hg : g.Grown) {e : Edge} (he : e ∈ g.edges)
    {α : Type} {valueOf : String → Option α} {xs : List α}
    (h : (g.chainOf e.child).map valueOf = xs.map some) :
    ∃ ys, (g.chainOf e.parent).map valueOf = ys.map some ∧ ys <+: xs := by
  rw [hg.chainOf_child he, List.map_append] at h
  obtain ⟨ys, zs, rfl, hys, -⟩ := List.map_eq_append_iff.1 h.symm
  exact ⟨ys, hys.symm, List.prefix_append ys zs⟩

end Graph

namespace Session

/-- For every builder that calls have made, if the containers of every table are different and the
rows hold nothing under key columns that cannot be part of a key: materializing fails for a missing
column exactly if some row has something under a key column of a table and lacks a column of its
chain; the fault names the first such column in the order of rows, tables and chains; without one
materializing succeeds.  And once the key of a child is found in a row, whatever row that is, so is
the parent's. -/
theorem materialize_missing (schema : Schema) (cs : List Command) {name : String} {b : Builder}
    (hb : ((ofSchema schema).obeyAll cs).builder? name = some b)
    (hcontainers : ∀ v ∈ b.graph.vertices, (b.graph.containersOf v).Nodup)
    {chains chains' : KeyChains} (hp : b.graph.prepare chains = .ok chains') {rows : List Row}
    (hrows : ∀ row ∈ rows, b.graph.ScalarKeys row) :
    ((∃ a c, (b.graph.materialize chains' .empty rows).outcome = .error (.keyColumnMissing a c)) ↔
      ∃ row ∈ rows, ∃ v ∈ b.graph.vertices, (∃ d ∈ v.table.keyColumns, row.holds d = true) ∧
        ∃ c ∈ b.graph.chainOf v, row.contains c = false) ∧
      (∀ a c, (b.graph.materialize chains' .empty rows).outcome = .error (.keyColumnMissing a c) ↔
        b.graph.firstMissing? rows = some (a, c)) ∧
      (b.graph.firstMissing? rows = none →
        ∃ result, (b.graph.materialize chains' .empty rows).outcome = .ok result) ∧
      ∀ e ∈ b.graph.edges, ∀ row,
        (∀ vs, chains'.nodeKey e.child row = .ok vs →
          ∃ ws, chains'.nodeKey e.parent row = .ok ws ∧ ws <+: vs) ∧
        ∀ k, chains'.filingKey e.child row = .ok k →
          ∃ k', chains'.filingKey e.parent row = .ok k' ∧ k' <+: k := by
  have hg := grown_run schema cs hb
  have hc := hg.isPrepared_prepare hp
  have hends := hg.ends_materialize (hg.kindsAgree_of_nodup hcontainers) hc hrows
  have hfault : ∀ a c, (b.graph.materialize chains' .empty rows).outcome =
      .error (.keyColumnMissing a c) ↔ b.graph.firstMissing? rows = some (a, c) := by
    intro a c
    rw [hends.eq_error_iff]
    simp
  refine ⟨?_, hfault, ?_, ?_⟩
  · rw [← Graph.firstMissing?_isSome_iff, Option.isSome_iff_exists, Prod.exists]
    exact exists_congr fun a => exists_congr (hfault a)
  · intro hnone
    rw [hnone] at hends
    exact hends.exists_ok
  · intro e he row
    have hchild := hc e.child (hg.coherent.child_mem he)
    have hparent := hc e.parent (hg.parent_mem he)
    constructor
    · intro vs hvs
      rw [KeyChains.nodeKey_eq_ok_iff, hchild] at hvs
      obtain ⟨ws, hws, hprefix⟩ := hg.exists_prefix_of_chain he hvs
      exact ⟨ws, KeyChains.nodeKey_eq_ok_iff.2 (hparent ▸ hws), hprefix⟩
    · intro k hk
      rw [KeyChains.filingKey_eq_ok_iff, hchild] at hk
      obtain ⟨k', hk', hprefix⟩ := hg.exists_prefix_of_chain he hk
      exact ⟨k', KeyChains.filingKey_eq_ok_iff.2 (hparent ▸ hk'), hprefix⟩

/-- Rows without some columns: the first shows nobody without its key, the second has a grandchild
whose chain begins with a column that the row lacks. -/
def gappedRows : List Row :=
  [.ofList [("a_id", .int 1), ("b_id", .null)], .ofList [("b_id", .null), ("d_id", .int 4)]]

theorem materialize_missing_gapped :
    sampleBuilder.graph.firstMissing? gappedRows = some ("d", "a_id") ∧
      (sampleBuilder.graph.materialize sampleChains .empty gappedRows).outcome =
        .error (.keyColumnMissing "d" "a_id") := by
  have hb : ((ofSchema sampleSchema).obeyAll sampleCalls).builder? "q" = some sampleBuilder := rfl
  have hp : sampleBuilder.graph.prepare .empty = .ok sampleChains := rfl
  have hcontainers : ∀ v ∈ sampleBuilder.graph.vertices,
      (sampleBuilder.graph.containersOf v).Nodup := by decide
  have hrows : ∀ row ∈ gappedRows, sampleBuilder.graph.ScalarKeys row := by decide
  have hfirst : sampleBuilder.graph.firstMissing? gappedRows = some ("d", "a_id") := rfl
  obtain ⟨-, hfault, -⟩ :=
    materialize_missing sampleSchema sampleCalls hb hcontainers hp hrows
  exact ⟨hfirst, (hfault "d" "a_id").2 hfirst⟩

end Session

end NestedJoin
