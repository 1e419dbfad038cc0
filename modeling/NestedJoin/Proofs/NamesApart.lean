import NestedJoin.Proofs.Binding
import NestedJoin.Proofs.GeneratedNames
import NestedJoin.Proofs.Resolving
set_option autoImplicit false

/-!
# Generated names beside given ones

The values that filters compare columns with, and a limit, have generated names in a statement: the
name of the column and a number.  The extra conditions of joins use names that callers choose.  No
name is set aside for either, so the two may meet, as they are or as they are printed.

Main statement: `Graph.writes_apart_iff`.
-/

namespace NestedJoin

open Sql

/-! ## Comparing filters -/

namespace Filter

/-- The condition that a comparing filter adds. -/
def condition? : Filter → Option Condition
  | .compare ref op v => (Source.splitReference? ref).bind fun p =>
    (Condition.make (.column ⟨p.1, p.2⟩) op v).toOption
  | _ => none

/-- The limit that filters leave behind. -/
def limitOf (fs : List Filter) : Option Int :=
  fs.foldl (fun found f => match f with | .limit count => count | _ => found) none

/-- The columns that the placeholders of filters are named by: those compared with values that have
placeholders, and one for a limit. -/
def valueColumns (fs : List Filter) : List String :=
  (fs.filterMap condition?).filterMap Condition.valueColumn? ++
    (limitOf fs).toList.map fun _ => "param"

/-- The generated names of the placeholders of filters. -/
def valueNames (fs : List Filter) : List String := generatedNames (valueColumns fs)

/-- A statement is written when some of the filters have been applied: in the end, and whenever
another filter looks a column up. -/
def IsWritten (fs done : List Filter) : Prop :=
  done = fs ∨ ∃ ref op v rest, fs = done ++ .compare ref op v :: rest

theorem limitOf_concat (fs : List Filter) (f : Filter) : limitOf (fs ++ [f]) =
    match f with | .limit count => count | _ => limitOf fs := by
  rw [limitOf, List.foldl_append]
  rfl

theorem IsWritten.subset {fs done : List Filter} (h : IsWritten fs done) : done ⊆ fs := by
  rcases h with rfl | ⟨ref, op, v, rest, rfl⟩
  · exact List.Subset.refl _
  · exact List.subset_append_left _ _

theorem IsWritten.of_compare {fs done rest : List Filter} {ref : String} {op : Comparison}
    {v : Value} (h : fs = done ++ .compare ref op v :: rest) : IsWritten fs done :=
  Or.inr ⟨ref, op, v, rest, h⟩

end Filter

/-- A statement with the conditions and the limit of filters. -/
def Sql.Statement.comparing (s : Statement) (fs : List Filter) : Statement :=
  { s with conditions := fs.filterMap Filter.condition?, limit := Filter.limitOf fs }

theorem Sql.Statement.generatedPlaceholders_comparing (s : Statement) (fs : List Filter) :
    (s.comparing fs).generatedPlaceholders = Filter.valueNames fs :=
  (s.comparing fs).generatedPlaceholders_eq

namespace Graph

/-- A filter compares a column that a graph's statement shows with a value that it can be compared
with, or sets a limit. -/
inductive Compares (g : Graph) : Filter → Prop
  | column {v : Vertex} {ref f : String} {op : Comparison} {value : Value} {condition : Condition}
    (hv : v ∈ g.vertices) (hshown : ¬g.IsHidden v) (hf : f ∈ v.table.fields)
    (href : Source.splitReference? ref = some (v.aliasName, f))
    (hcondition : Condition.make (.column ⟨v.aliasName, f⟩) op value = .ok condition) :
    Compares g (.compare ref op value)
  | limit (count : Option Int) : Compares g (.limit count)

/-- A name stands as a placeholder in the extra condition of an edge. -/
def UsesName (g : Graph) (n : String) : Prop :=
  ∃ e ∈ g.edges, ∃ condition, e.condition = some condition ∧
    ∃ pre post, PlaceholderAt condition.toList pre n.toList post

variable {g : Graph} {root : Vertex} {fs : List Filter}

/-- The names in what a graph reads from are those of its edges' extra conditions. -/
theorem exists_raw_joined_iff {params : OrderedMap String Value} {n : String} :
    (∃ t : BoundText, .raw t ∈ sourcePieces (joined params root g.edges) ∧ n ∈ t.placeholders) ↔
      g.UsesName n := by
  have hedge : ∀ e : Edge, (∃ t ∈ (e.matching params).extra, n ∈ t.placeholders) ↔
      ∃ condition, e.condition = some condition ∧
        ∃ pre post, PlaceholderAt condition.toList pre n.toList post := by
    intro e
    cases hcondition : e.condition with
    | none =>
      refine iff_of_false ?_ (fun ⟨_, h, _⟩ => nomatch h)
      rintro ⟨t, ht, -⟩
      rw [Edge.matching, hcondition] at ht
      cases ht
    | some condition =>
      obtain ⟨lead, ps, trail, hparts⟩ := exists_conditionParts condition
      simp only [Option.some.injEq, exists_eq_left', ← hparts.mem_iff]
      constructor
      · rintro ⟨t, ht, hn⟩
        rw [Edge.matching, hcondition] at ht
        obtain ⟨text, htext, rfl⟩ := Option.map_eq_some_iff.1 ht
        rw [← String.ofList_toList (s := n)] at hn
        exact (hparts.mem_placeholders_iff htext params).1 hn
      · intro hn
        obtain ⟨text, htext, hextra⟩ := exists_extra_matching hcondition hparts params hn
        refine ⟨_, hextra, ?_⟩
        rw [← String.ofList_toList (s := n)]
        exact (hparts.mem_placeholders_iff htext params).2 hn
  constructor
  · rintro ⟨t, ht, hn⟩
    obtain ⟨e, he, hextra⟩ := raw_mem_joined_iff.1 ht
    exact ⟨e, he, (hedge e).1 ⟨t, hextra, hn⟩⟩
  · rintro ⟨e, he, hn⟩
    obtain ⟨t, hextra, hn⟩ := (hedge e).2 hn
    exact ⟨t, raw_mem_joined_iff.2 ⟨e, he, hextra⟩, hn⟩

/-! ## Statements with comparisons -/

/-- The pieces that filters add to a statement. -/
def addedPieces (fs : List Filter) : List Piece :=
  Statement.clause " \nWHERE " " AND " ((fs.filterMap Filter.condition?).map Condition.pieces) ++
    (Filter.limitOf fs).toList.map Piece.limit

theorem pieces_comparing (g : Graph) (root : Vertex) (fs : List Filter) :
    ((g.unfiltered root).comparing fs).pieces = (g.unfiltered root).pieces ++ addedPieces fs := by
  rw [unfiltered, Statement.pieces_plain, Statement.pieces, addedPieces]
  simp only [Statement.comparing, Statement.plain, List.append_assoc, List.map_nil,
    Statement.clause, List.filter_nil, List.nil_append]

/-- Filters that compare add no raw text, and no identifiers but aliases and fields. -/
theorem of_mem_addedPieces (hfs : ∀ f ∈ fs, g.Compares f) {p : Piece} (hp : p ∈ addedPieces fs) :
    p.IsNameless ∨
      ∃ v ∈ g.vertices, ∃ n, p = .identifier n ∧ (n = v.aliasName ∨ n ∈ v.table.fields) := by
  rcases List.mem_append.1 hp with hwhere | hlimit
  · rcases Statement.of_mem_clause hwhere with ⟨t, rfl⟩ | ⟨l, hl, hmem⟩
    · exact Or.inl (Piece.isNameless_verbatim t)
    · obtain ⟨c, hc, rfl⟩ := List.mem_map.1 hl
      obtain ⟨f, hf, hcondition⟩ := List.mem_filterMap.1 hc
      cases hfs f hf with
      | limit count => cases hcondition
      | @column v ref f op value condition hv hshown hfield href hmake =>
        rw [Filter.condition?, href, Option.bind_some, hmake] at hcondition
        cases hcondition
        rcases Condition.of_mem_pieces (Condition.operand?_of_make hmake) hmem with h | hnameless
        · simp only [Operand.pieces, ColumnRef.pieces, List.mem_cons, List.not_mem_nil,
            or_false] at h
          rcases h with rfl | rfl | rfl
          · exact Or.inr ⟨v, hv, v.aliasName, rfl, Or.inl rfl⟩
          · exact Or.inl (Piece.isNameless_verbatim _)
          · exact Or.inr ⟨v, hv, f, rfl, Or.inr hfield⟩
        · exact Or.inl hnameless
  · obtain ⟨count, -, rfl⟩ := List.mem_map.1 hlimit
    exact Or.inl (Piece.isNameless_limit count)

theorem raw_notMem_addedPieces (hfs : ∀ f ∈ fs, g.Compares f) (t : BoundText) :
    .raw t ∉ addedPieces fs := by
  intro h
  rcases of_mem_addedPieces hfs h with hnameless | ⟨v, hv, n, hn, -⟩
  · exact hnameless.2 t rfl
  · cases hn

theorem mem_namedPlaceholders_comparing_iff (hfs : ∀ f ∈ fs, g.Compares f) {n : String} :
    n ∈ ((g.unfiltered root).comparing fs).namedPlaceholders ↔ g.UsesName n := by
  have hraw : ∀ t : BoundText, .raw t ∈ ((g.unfiltered root).comparing fs).pieces ↔
      .raw t ∈ sourcePieces (joined (Parameters.ofEdges g.edges).values root g.edges) := by
    intro t
    rw [pieces_comparing, List.mem_append, or_iff_left (raw_notMem_addedPieces hfs t)]
    exact Statement.raw_mem_pieces_plain_iff
  rw [Statement.mem_namedPlaceholders_iff, ← exists_raw_joined_iff]
  exact exists_congr fun t => and_congr_left fun _ => hraw t

/-- No name in the statement is empty exactly if no table has an empty name or field. -/
theorem ReadsFrom.identifier_notMem_comparing_iff (hg : g.ReadsFrom root)
    (hfs : ∀ f ∈ fs, g.Compares f) :
    .identifier "" ∉ ((g.unfiltered root).comparing fs).pieces ↔
      ∀ v ∈ g.vertices, v.table.name ≠ "" ∧ "" ∉ v.table.fields := by
  have hplain : .identifier "" ∉ (g.unfiltered root).pieces ↔
      ∀ v ∈ g.vertices, v.table.name ≠ "" ∧ "" ∉ v.table.fields := by
    rw [← hg.isWritable_plain_iff, Statement.isWritable_iff,
      Statement.generatedPlaceholders_plain]
    exact (and_iff_left nofun).symm
  rw [pieces_comparing, List.mem_append, not_or, hplain, and_iff_left_iff_imp]
  intro hnames hadded
  rcases of_mem_addedPieces hfs hadded with hnameless | ⟨v, hv, n, hn, halias | hfield⟩
  · exact hnameless.1 "" rfl
  · cases hn
    exact v.table.alias_ne_empty halias.symm
  · cases hn
    exact (hnames v hv).2 hfield

theorem ReadsFrom.isWritable_comparing_iff (hg : g.ReadsFrom root)
    (hfs : ∀ f ∈ fs, g.Compares f) : ((g.unfiltered root).comparing fs).IsWritable ↔
      (∀ v ∈ g.vertices, v.table.name ≠ "" ∧ "" ∉ v.table.fields) ∧
        ∀ n ∈ Filter.valueNames fs, ¬g.UsesName n := by
  rw [Statement.isWritable_iff, hg.identifier_notMem_comparing_iff hfs,
    Statement.generatedPlaceholders_comparing]
  simp only [mem_namedPlaceholders_comparing_iff hfs]

/-- The fault of writing the statement. -/
theorem ReadsFrom.of_text_comparing_eq_error (hg : g.ReadsFrom root)
    (hfs : ∀ f ∈ fs, g.Compares f) {fault : Fault}
    (h : ((g.unfiltered root).comparing fs).text = .error fault) :
    fault = .emptyIdentifier ∧ (∃ v ∈ g.vertices, v.table.name = "" ∨ "" ∈ v.table.fields) ∨
      ∃ n ∈ Filter.valueNames fs, g.UsesName n ∧ fault = .placeholderClash n := by
  rcases Statement.of_text_eq_error h with ⟨rfl, hempty⟩ | ⟨n, hn, hnamed, rfl⟩
  · refine Or.inl ⟨rfl, not_not.1 fun hnone => ?_⟩
    refine (hg.identifier_notMem_comparing_iff hfs).2 (fun v hv => ?_) hempty
    exact ⟨fun hname => hnone ⟨v, hv, Or.inl hname⟩, fun hfield => hnone ⟨v, hv, Or.inr hfield⟩⟩
  · rw [Statement.generatedPlaceholders_comparing] at hn
    exact Or.inr ⟨n, hn, (mem_namedPlaceholders_comparing_iff hfs).1 hnamed, rfl⟩

/-! ## Applying comparing filters -/

/-- A filter that compares looks its column up in the statement so far. -/
theorem ReadsFrom.apply_comparing (hg : g.ReadsFrom root) (done : List Filter)
    {ref : String} {op : Comparison} {value : Value} (h : g.Compares (.compare ref op value)) :
    Filter.apply ((g.unfiltered root).comparing done) (.compare ref op value) =
      ((g.unfiltered root).comparing done).text.map fun _ =>
        (g.unfiltered root).comparing (done ++ [.compare ref op value]) := by
  cases h with
  | @column v _ f _ _ condition hv hshown hf href hcondition =>
    cases htext : ((g.unfiltered root).comparing done).text with
    | error fault =>
      have hlost : Filter.column ((g.unfiltered root).comparing done) ref = .error fault :=
        Filter.column_of_not_written htext (by rw [href]; rfl)
      rw [Filter.apply, hlost]
      rfl
    | ok sql =>
      have hfound : Filter.column ((g.unfiltered root).comparing done) ref =
          .ok ⟨v.aliasName, f⟩ := by
        rw [Filter.column_of_written htext]
        exact ((hg.covers_joined _).resolve_eq_ok_iff hg.coherent hg.root_eq).2
          ⟨v, hv, hshown, f, hf, href, rfl⟩
      have hadded : Filter.condition? (.compare ref op value) = some condition := by
        rw [Filter.condition?, href, Option.bind_some, hcondition]
        rfl
      rw [Filter.apply, hfound]
      show (Condition.make (.column ⟨v.aliasName, f⟩) op value >>= _) = _
      rw [hcondition, Statement.comparing, Statement.comparing, List.filterMap_append,
        List.filterMap_cons_some hadded, Filter.limitOf_concat]
      rfl

theorem apply_comparing_limit (s : Statement) (done : List Filter) (count : Option Int) :
    Filter.apply (s.comparing done) (.limit count) =
      .ok (s.comparing (done ++ [.limit count])) := by
  rw [Statement.comparing, Statement.comparing, Filter.limitOf_concat, List.filterMap_append]
  show Except.ok _ = Except.ok _
  rw [List.filterMap_cons_none rfl, List.filterMap_nil, List.append_nil]

/-- Filters that compare are applied one after the other, up to the first one at which the statement
so far cannot be written. -/
theorem ReadsFrom.applyAll_comparing (hg : g.ReadsFrom root)
    (hfs : ∀ f ∈ fs, g.Compares f) :
    (Filter.applyAll (g.unfiltered root) fs = .ok ((g.unfiltered root).comparing fs) ∧
      ∀ done ref op v rest, fs = done ++ .compare ref op v :: rest →
        ((g.unfiltered root).comparing done).IsWritable) ∨
    ∃ done ref op v rest fault, fs = done ++ .compare ref op v :: rest ∧
      ((g.unfiltered root).comparing done).text = .error fault ∧
      Filter.applyAll (g.unfiltered root) fs = .error fault := by
  induction fs using List.reverseRecOn with
  | nil => exact Or.inl ⟨rfl, fun done ref op v rest h => absurd h.symm (by simp)⟩
  | append_singleton fs f ih =>
    have hf := hfs f (List.mem_append_right fs List.mem_cons_self)
    rw [Filter.applyAll_concat]
    rcases ih fun f' hf' => hfs f' (List.mem_append_left _ hf') with
      ⟨hall, hwritable⟩ | ⟨done, ref, op, v, rest, fault, rfl, htext, hall⟩
    · rw [hall]
      show Filter.apply ((g.unfiltered root).comparing fs) f = _ ∧ _ ∨ ∃ done ref op v rest fault,
        _ ∧ _ ∧ Filter.apply ((g.unfiltered root).comparing fs) f = _
      cases f with
      | compare ref op value =>
        rw [hg.apply_comparing fs hf]
        cases htext : ((g.unfiltered root).comparing fs).text with
        | error fault => exact Or.inr ⟨fs, ref, op, value, [], fault, rfl, htext, rfl⟩
        | ok sql =>
          refine Or.inl ⟨rfl, fun done ref' op' v' rest h => ?_⟩
          rcases split_of_concat_eq h with ⟨rfl, -, -⟩ | ⟨rest', -, h⟩
          · exact ⟨sql, htext⟩
          · exact hwritable done ref' op' v' rest' h
      | limit count =>
        refine Or.inl ⟨apply_comparing_limit _ fs count, fun done ref' op' v' rest h => ?_⟩
        rcases split_of_concat_eq h with ⟨-, hf', -⟩ | ⟨rest', -, h⟩
        · cases hf'
        · exact hwritable done ref' op' v' rest' h
      | _ => cases hf
    · refine Or.inr ⟨done, ref, op, v, rest ++ [f], fault, ?_, htext, ?_⟩
      · rw [List.append_assoc, List.cons_append]
      · rw [hall]
        rfl

theorem ReadsFrom.compile_comparing_eq_ok (hg : g.ReadsFrom root)
    (hfs : ∀ f ∈ fs, g.Compares f) {chains : KeyChains} {c : Compiled}
    (hc : (g.compile fs chains).outcome = .ok c) :
    c = g.compiledAs ((g.unfiltered root).comparing fs) := by
  obtain ⟨s, hs, rfl⟩ := hg.of_outcome_compile hc
  rcases hg.applyAll_comparing hfs with ⟨hall, -⟩ | ⟨_, _, _, _, _, _, -, -, hall⟩
  · rw [hall] at hs
    cases hs
    rfl
  · rw [hall] at hs
    cases hs

/-- Compiling and writing succeed exactly if every statement on the way can be written. -/
theorem ReadsFrom.exists_compile_comparing_iff (hg : g.ReadsFrom root)
    (hfs : ∀ f ∈ fs, g.Compares f) (chains : KeyChains) :
    (∃ c sql, (g.compile fs chains).outcome = .ok c ∧ c.statement.text = .ok sql) ↔
      ∀ done, Filter.IsWritten fs done → ((g.unfiltered root).comparing done).IsWritable := by
  rw [hg.outcome_compile]
  rcases hg.applyAll_comparing hfs with
    ⟨hall, hbetween⟩ | ⟨done, ref, op, v, rest, fault, hdone, htext, hall⟩
  · rw [hall]
    constructor
    · rintro ⟨c, sql, hc, hsql⟩ done (rfl | ⟨ref, op, v, rest, hdone⟩)
      · cases hc
        exact ⟨sql, hsql⟩
      · exact hbetween done ref op v rest hdone
    · intro hwritable
      obtain ⟨sql, hsql⟩ := hwritable fs (Or.inl rfl)
      exact ⟨_, sql, rfl, hsql⟩
  · rw [hall]
    refine iff_of_false (fun ⟨c, sql, hc, _⟩ => nomatch hc) fun hwritable => ?_
    obtain ⟨sql, hsql⟩ := hwritable done (Filter.IsWritten.of_compare hdone)
    rw [hsql] at htext
    cases htext

/-- Compiling and writing succeed exactly if no table has an empty name or field, and no generated
name is used in an extra condition whenever a statement is written. -/
theorem ReadsFrom.exists_written_iff (hg : g.ReadsFrom root) (hfs : ∀ f ∈ fs, g.Compares f)
    (chains : KeyChains) :
    (∃ c sql, (g.compile fs chains).outcome = .ok c ∧ c.statement.text = .ok sql) ↔
      (∀ v ∈ g.vertices, v.table.name ≠ "" ∧ "" ∉ v.table.fields) ∧
        ∀ done, Filter.IsWritten fs done → ∀ n ∈ Filter.valueNames done, ¬g.UsesName n := by
  have hwritable : ∀ done, Filter.IsWritten fs done →
      (((g.unfiltered root).comparing done).IsWritable ↔
        (∀ v ∈ g.vertices, v.table.name ≠ "" ∧ "" ∉ v.table.fields) ∧
          ∀ n ∈ Filter.valueNames done, ¬g.UsesName n) := fun done hdone =>
    hg.isWritable_comparing_iff fun f hf => hfs f (hdone.subset hf)
  rw [hg.exists_compile_comparing_iff hfs]
  constructor
  · intro h
    exact ⟨((hwritable fs (Or.inl rfl)).1 (h fs (Or.inl rfl))).1,
      fun done hdone => ((hwritable done hdone).1 (h done hdone)).2⟩
  · rintro ⟨htables, hclear⟩ done hdone
    exact (hwritable done hdone).2 ⟨htables, hclear done hdone⟩

/-- What fails is the writing of a statement on the way. -/
theorem ReadsFrom.of_compile_comparing_eq_error (hg : g.ReadsFrom root)
    (hfs : ∀ f ∈ fs, g.Compares f) {chains : KeyChains} {fault : Fault}
    (h : ((g.compile fs chains).outcome >>= fun c => c.statement.text) = .error fault) :
    fault = .emptyIdentifier ∧ (∃ v ∈ g.vertices, v.table.name = "" ∨ "" ∈ v.table.fields) ∨
      ∃ done, Filter.IsWritten fs done ∧
        ∃ n ∈ Filter.valueNames done, g.UsesName n ∧ fault = .placeholderClash n := by
  have hwritten : ∃ done, Filter.IsWritten fs done ∧
      ((g.unfiltered root).comparing done).text = .error fault := by
    rw [hg.outcome_compile] at h
    rcases hg.applyAll_comparing hfs with
      ⟨hall, -⟩ | ⟨done, ref, op, v, rest, fault', hdone, htext, hall⟩
    · rw [hall] at h
      exact ⟨fs, Or.inl rfl, h⟩
    · rw [hall] at h
      cases h
      exact ⟨done, Filter.IsWritten.of_compare hdone, htext⟩
  obtain ⟨done, hdone, htext⟩ := hwritten
  exact (hg.of_text_comparing_eq_error (fun f hf => hfs f (hdone.subset hf)) htext).imp_right
    fun hclash => ⟨done, hdone, hclash⟩

/-- The placeholders of a compiled statement are the filters' and those of the extra conditions. -/
theorem ReadsFrom.placeholders_compiled (hg : g.ReadsFrom root) (hfs : ∀ f ∈ fs, g.Compares f)
    {chains : KeyChains} {c : Compiled} (hc : (g.compile fs chains).outcome = .ok c) :
    c.statement.generatedPlaceholders = Filter.valueNames fs ∧
      ∀ n, n ∈ c.statement.namedPlaceholders ↔ g.UsesName n := by
  rw [hg.compile_comparing_eq_ok hfs hc]
  exact ⟨Statement.generatedPlaceholders_comparing _ fs,
    fun n => mem_namedPlaceholders_comparing_iff hfs⟩

/-! ## Graphs that do not compile -/

/-- A graph has no root, or lacks a parent column of one of its edges. -/
inductive Lacks (g : Graph) : Fault → Prop
  | root (h : g.root = none) : Lacks g .noRoot
  | column {e : Edge} {p : String × String} (he : e ∈ g.edges) (hp : p ∈ e.on.entries)
    (h : ¬g.Offers e p) : Lacks g (.missingKey (.str p.2))

/-- Whatever the filters, a graph that lacks something does not compile. -/
theorem Coherent.readsFrom_or_lacks (hg : g.Coherent) (fs : List Filter) (chains : KeyChains) :
    (∃ root, g.ReadsFrom root) ∨
      ∃ fault, g.Lacks fault ∧ (g.compile fs chains).outcome = .error fault := by
  cases hroot : g.root with
  | none =>
    refine Or.inr ⟨.noRoot, .root hroot, ?_⟩
    rw [compile, hroot]
  | some root =>
    cases hfind : (joinPairs g.edges).find? g.isLost with
    | none => exact Or.inl ⟨root, hg, hroot, find?_isLost_eq_none_iff.1 hfind⟩
    | some q =>
      obtain ⟨he, hp⟩ := mem_joinPairs_iff.1 (List.mem_of_find?_eq_some hfind)
      refine Or.inr ⟨_, .column he hp (isLost_eq_true_iff.1 (List.find?_some hfind)), ?_⟩
      rw [outcome_compile_eq_map hroot, statement, Graph.source_eq, hfind]
      rfl

theorem ReadsFrom.not_lacks (hg : g.ReadsFrom root) {fault : Fault} : ¬g.Lacks fault := by
  rintro (hnone | ⟨he, hp, hlost⟩)
  · rw [hg.root_eq] at hnone
    cases hnone
  · exact hlost (hg.offers _ he _ hp)

/-! ## Names that stay apart -/

/-- For every graph that calls have made, and filters that compare columns which its statement
shows, or set a limit.  Compiling with the filters succeeds, the statement can be written, and no
name in it stands both for a value of the filters and in an extra condition, exactly if the graph
has a root and lacks no parent column, no table has an empty name or field, no generated name of the
filters is used in an extra condition, neither in the end nor when a filter looks its column up, and
none is in its printed form.  What fails otherwise is what the graph lacks, the empty name or the
name that meets.  The generated names are those of the compared columns, and of the limit, each with
a number that counts up to how often the name occurs. -/
theorem writes_apart_iff (hg : g.Made) (hfs : ∀ f ∈ fs, g.Compares f) (chains : KeyChains) :
    ((∃ c sql, (g.compile fs chains).outcome = .ok c ∧ c.statement.text = .ok sql ∧
        ∀ n ∈ c.statement.generatedPlaceholders,
          printedName n ∉ c.statement.namedPlaceholders) ↔
      (∀ fault, ¬g.Lacks fault) ∧
        (∀ v ∈ g.vertices, v.table.name ≠ "" ∧ "" ∉ v.table.fields) ∧
        (∀ done, Filter.IsWritten fs done → ∀ n ∈ Filter.valueNames done, ¬g.UsesName n) ∧
        ∀ n ∈ Filter.valueNames fs, ¬g.UsesName (printedName n)) ∧
    (∀ fault, ((g.compile fs chains).outcome >>= fun c => c.statement.text) = .error fault →
      g.Lacks fault ∨
        fault = .emptyIdentifier ∧ (∃ v ∈ g.vertices, v.table.name = "" ∨ "" ∈ v.table.fields) ∨
        ∃ done, Filter.IsWritten fs done ∧
          ∃ n ∈ Filter.valueNames done, g.UsesName n ∧ fault = .placeholderClash n) ∧
    (∀ c, (g.compile fs chains).outcome = .ok c →
      c.statement.generatedPlaceholders = Filter.valueNames fs ∧
        ∀ n, n ∈ c.statement.namedPlaceholders ↔ g.UsesName n) ∧
    ∀ n, n.length ≤ nameLimit → (n ∈ Filter.valueNames fs ↔ ∃ base k, 1 ≤ k ∧
      k ≤ ((Filter.valueColumns fs).map placeholderBase).count base ∧
        n = placeholderName base k) := by
  rcases hg.coherent.readsFrom_or_lacks fs chains with ⟨root, hg⟩ | ⟨fault, hlacks, hcompile⟩
  · have hnames : ∀ c, (g.compile fs chains).outcome = .ok c →
        c.statement.generatedPlaceholders = Filter.valueNames fs ∧
          ∀ n, n ∈ c.statement.namedPlaceholders ↔ g.UsesName n :=
      fun c hc => hg.placeholders_compiled hfs hc
    refine ⟨?_, fun fault hfault => Or.inr (hg.of_compile_comparing_eq_error hfs hfault), hnames,
      fun n hn => mem_generatedNames_iff hn⟩
    rw [and_iff_right fun _ => hg.not_lacks, ← and_assoc, ← hg.exists_written_iff hfs chains]
    constructor
    · rintro ⟨c, sql, hc, hsql, hapart⟩
      refine ⟨⟨c, sql, hc, hsql⟩, fun n hn hused => ?_⟩
      exact hapart n ((hnames c hc).1.symm ▸ hn) (((hnames c hc).2 _).2 hused)
    · rintro ⟨⟨c, sql, hc, hsql⟩, hprinted⟩
      refine ⟨c, sql, hc, hsql, fun n hn hnamed => ?_⟩
      exact hprinted n ((hnames c hc).1 ▸ hn) (((hnames c hc).2 _).1 hnamed)
  · rw [hcompile]
    refine ⟨?_, fun fault' hfault => ?_, nofun, fun n hn => mem_generatedNames_iff hn⟩
    · exact iff_of_false (fun ⟨_, _, hc, _⟩ => nomatch hc) fun h => h.1 fault hlacks
    · cases hfault
      exact Or.inl hlacks

end Graph

namespace Session

/-- Calls that join a table under a condition on a parameter. -/
def boundedCalls : List Command :=
  [.select "q" (.named "a") "a" false,
    .join "q" true (.named "b") (some "bs") "b" "a"
      { kind := .ok .multiple
        on := [(.str "x", .str "id")]
        condition := some "AND b.x > :x_1"
        params := some [(.str "x_1", .int 5)] }]

def boundedBuilder : Builder :=
  (((ofSchema (.ofSource (.uniform ⟨["id", "x"], ["id"]⟩))).obeyAll boundedCalls).builder?
    "q").getD default

/-- Beside a parameter of the name that the first value of a column is given, this column cannot be
compared, but another one can. -/
theorem writes_apart_iff_bounded :
    (¬∃ c sql, (boundedBuilder.graph.compile [.compare "a.x" .eq (.int 1)] .empty).outcome = .ok c ∧
      c.statement.text = .ok sql ∧
      ∀ n ∈ c.statement.generatedPlaceholders, printedName n ∉ c.statement.namedPlaceholders) ∧
    ∃ c sql, (boundedBuilder.graph.compile [.compare "a.id" .eq (.int 1)] .empty).outcome = .ok c ∧
      c.statement.text = .ok sql ∧
      ∀ n ∈ c.statement.generatedPlaceholders, printedName n ∉ c.statement.namedPlaceholders := by
  have hb : ((ofSchema (.ofSource (.uniform ⟨["id", "x"], ["id"]⟩))).obeyAll boundedCalls).builder?
      "q" = some boundedBuilder := rfl
  obtain ⟨e, hedges, hcondition⟩ : ∃ e, boundedBuilder.graph.edges = [e] ∧
      e.condition = some "AND b.x > :x_1" := ⟨_, rfl, rfl⟩
  obtain ⟨root, hroot, hhead, ha, hfields⟩ : ∃ root, boundedBuilder.graph.root = some root ∧
      boundedBuilder.graph.vertices.head? = some root ∧ root.aliasName = "a" ∧
      root.table.fields = ["id", "x"] := ⟨_, rfl, rfl, rfl, rfl⟩
  have hused : ∀ n, boundedBuilder.graph.UsesName n ↔
      n.toList ∈ placeholders "AND b.x > :x_1".toList := by
    intro n
    rw [mem_placeholders_iff, Graph.UsesName, hedges]
    simp only [List.mem_singleton, exists_eq_left, hcondition, Option.some.injEq, exists_eq_left']
  have hcompares : ∀ f ∈ ["id", "x"], ∀ ref, Source.splitReference? ref = some ("a", f) →
      ∀ g ∈ [Filter.compare ref .eq (.int 1)], boundedBuilder.graph.Compares g := by
    intro f hf ref href g hg
    obtain rfl := List.mem_singleton.1 hg
    have hv := List.mem_of_mem_head? hhead
    have hshown : ¬boundedBuilder.graph.IsHidden root := fun hhidden => by
      obtain ⟨e', he', -⟩ :=
        (Graph.exists_isHidden_iff (grown_run _ _ hb).coherent).1 ⟨root, hv, hhidden⟩
      rw [hedges] at he'
      cases he'
    exact .column hv hshown (hfields ▸ hf) (ha ▸ href) rfl
  have hx := (Graph.writes_apart_iff (.inBuilder _ _ hb)
    (hcompares "x" (by decide) "a.x" (by decide +kernel)) .empty).1
  have hid := (Graph.writes_apart_iff (.inBuilder _ _ hb)
    (hcompares "id" (by decide) "a.id" (by decide +kernel)) .empty).1
  constructor
  · rw [hx]
    rintro ⟨-, -, hclear, -⟩
    refine hclear _ (Or.inl rfl) "x_1" (by decide +kernel) ((hused "x_1").2 ?_)
    decide +kernel
  · rw [hid]
    have hnames : Filter.valueNames [.compare "a.id" .eq (.int 1)] = ["id_1"] := by decide +kernel
    have hfree : ¬boundedBuilder.graph.UsesName "id_1" := by
      rw [hused]
      decide +kernel
    refine ⟨fun fault => ((grown_run _ _ hb).readsFrom hroot).not_lacks, by decide +kernel,
      fun done hdone n hn => ?_, fun n hn => ?_⟩
    · rcases hdone with rfl | ⟨ref, op, v, rest, hdone⟩
      · rw [hnames] at hn
        exact List.mem_singleton.1 hn ▸ hfree
      · cases done with
        | nil => cases hn
        | cons f done => exact absurd (List.cons.inj hdone).2 (by simp)
    · rw [hnames] at hn
      obtain rfl := List.mem_singleton.1 hn
      have hprinted : printedName "id_1" = "id_1" := by decide +kernel
      rwa [hprinted]

end Session

end NestedJoin
