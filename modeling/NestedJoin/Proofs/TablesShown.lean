import NestedJoin.Proofs.Connectives
import NestedJoin.Proofs.FirstSeen
import NestedJoin.Proofs.JoinTrees
set_option autoImplicit false

/-!
# The tables that a compiled statement shows

The tables of a statement are listed by walking what it reads from, brackets opened, from left to
right.  So are they printed: a table that is joined from the right stands in front of everything so
far, and any other behind it.

Main statement: `Session.tables_shown`.
-/

namespace NestedJoin

open Sql

/-! ## Texts that tables are read from -/

/-- A text reads tables under aliases, from left to right.  It joins them under conditions, with
brackets around joins. -/
inductive FromText (conditions : List String) : String → List (String × String) → Prop
  | table (name aliasName : String) :
    FromText conditions (identifier .standard name ++ " AS " ++ identifier .standard aliasName)
      [(name, aliasName)]
  | join {l r on : String} {xs ys : List (String × String)} (outer : Bool)
    (hl : FromText conditions l xs) (hr : FromText conditions r ys) (hon : on ∈ conditions) :
    FromText conditions
      (l ++ (if outer then " LEFT OUTER JOIN " else " JOIN ") ++ r ++ " ON " ++ on) (xs ++ ys)
  | brackets {s : String} {xs : List (String × String)} (h : FromText conditions s xs) :
    FromText conditions ("(" ++ s ++ ")") xs

theorem FromText.mono {cs cs' : List String} (hsub : cs ⊆ cs') {s : String}
    {xs : List (String × String)} (h : FromText cs s xs) : FromText cs' s xs := by
  induction h with
  | table n a => exact .table n a
  | join outer _ _ hon ihl ihr => exact .join outer ihl ihr (hsub hon)
  | brackets _ ih => exact .brackets ih

section Reads

variable (write : Piece → Except Fault String) (conditions : List String)

/-- What is written for a source reads some tables. -/
def Reads (s : Source OnClause) (xs : List (String × String)) : Prop :=
  ∀ t, written write (sourcePieces s) = .ok t → FromText conditions t xs

variable {write conditions} {f : String → Option Value → String}
  (h : Writes .standard write f) {l r s : Source OnClause} {xs ys : List (String × String)}

include h

theorem reads_leaf (v : Vertex) :
    Reads write conditions (Graph.leaf v) [(v.table.name, v.aliasName)] := by
  intro t ht
  obtain ⟨t₁, t₂, hname, hrest, rfl⟩ := written_cons_eq_ok ht
  obtain ⟨t₃, halias, rfl⟩ := h.verbatim_cons hrest
  rw [h.identifier _ _ hname, h.identifier _ _ (written_singleton_eq_ok halias),
    ← String.append_assoc]
  exact .table _ _

theorem Reads.join (hl : Reads write conditions l xs) (hr : Reads write conditions r ys)
    (outer : Bool) {on : OnClause} (hon : on.written .standard f ∈ conditions) :
    Reads write conditions (.join l r outer on) (xs ++ ys) := by
  intro t ht
  obtain ⟨t₁, t₂, hleft, hjoin, rfl⟩ := written_append_eq_ok ht
  obtain ⟨t₃, hsides, rfl⟩ := h.verbatim_cons hjoin
  obtain ⟨t₄, t₅, hright, honward, rfl⟩ := written_append_eq_ok hsides
  obtain ⟨t₆, hcondition, rfl⟩ := h.verbatim_cons honward
  have htext := FromText.join outer (hl t₁ hleft) (hr t₄ hright) hon
  rw [h.onClause hcondition]
  simpa only [String.append_assoc] using htext

theorem Reads.bracketed (hs : Reads write conditions s xs) :
    Reads write conditions s.bracketed xs := by
  cases s with
  | join l r outer on =>
    intro t ht
    obtain ⟨t₁, hrest, rfl⟩ := h.verbatim_cons ht
    obtain ⟨t₂, t₃, hinner, hclose, rfl⟩ := written_append_eq_ok hrest
    obtain ⟨t₄, hend, rfl⟩ := h.verbatim_cons hclose
    obtain rfl : "" = t₄ := Except.ok.inj hend
    have htext := FromText.brackets (hs t₂ hinner)
    simpa only [String.append_assoc, String.append_empty] using htext
  | _ => exact hs

theorem Reads.joinLeaf (hs : Reads write conditions s xs) (e : Edge) (v : Vertex)
    {on : OnClause} (hon : on.written .standard f ∈ conditions) :
    Reads write conditions (Graph.joinLeaf s (Graph.leaf v) e.joinType on)
      (if e.joinType = .right then (v.table.name, v.aliasName) :: xs
        else xs ++ [(v.table.name, v.aliasName)]) := by
  unfold Graph.joinLeaf
  cases e.joinType with
  | inner => exact hs.join h (reads_leaf h v) false hon
  | left => exact hs.join h (reads_leaf h v) true hon
  | right => exact (reads_leaf h v).join h (hs.bracketed h) true hon

end Reads

/-! ## The order of the tables -/

namespace Graph

/-- A root and the tables of edges from left to right: one that is joined from the right stands in
front. -/
def shownOrder (root : Vertex) (es : List Edge) : List Vertex :=
  es.foldl (fun vs e => if e.joinType = .right then e.child :: vs else vs ++ [e.child]) [root]

variable (root : Vertex) (es : List Edge) (e : Edge)

theorem shownOrder_concat : shownOrder root (es ++ [e]) =
    if e.joinType = .right then e.child :: shownOrder root es
    else shownOrder root es ++ [e.child] := by
  rw [shownOrder, List.foldl_append]
  rfl

theorem map_shownOrder_concat {α : Type} (f : Vertex → α) :
    (shownOrder root (es ++ [e])).map f =
      if e.joinType = .right then f e.child :: (shownOrder root es).map f
      else (shownOrder root es).map f ++ [f e.child] := by
  rw [shownOrder_concat]
  split
  · exact List.map_cons
  · exact List.map_append

theorem shownOrder_perm : (shownOrder root es).Perm (root :: es.map Edge.child) := by
  induction es using List.reverseRecOn with
  | nil => exact List.Perm.refl _
  | append_singleton es e ih =>
    have hlast : (root :: es.map Edge.child ++ [e.child]).Perm
        (root :: (es ++ [e]).map Edge.child) := by
      rw [List.map_append, List.map_singleton, List.cons_append]
    rw [shownOrder_concat]
    split
    · exact (List.perm_append_singleton _ _).symm.trans ((ih.append_right _).trans hlast)
    · exact (ih.append_right _).trans hlast

theorem tableNames_joinLeaf (acc : Source OnClause) (v : Vertex) (type : JoinType)
    (on : OnClause) : (joinLeaf acc (leaf v) type on).tableNames =
      if type = .right then v.table.name :: acc.tableNames
      else acc.tableNames ++ [v.table.name] := by
  cases type with
  | inner => rfl
  | left => rfl
  | right => exact congrArg (v.table.name :: ·) acc.tableNames_bracketed

/-- The walk over the tree of joins meets the tables in their order. -/
theorem tableNames_joined (params : OrderedMap String Value) :
    (joined params root es).tableNames = (shownOrder root es).map fun v => v.table.name := by
  induction es using List.reverseRecOn with
  | nil => rfl
  | append_singleton es e ih =>
    rw [joined_concat, tableNames_joinLeaf, map_shownOrder_concat, ih]

/-- So does the text. -/
theorem reads_joined {write : Piece → Except Fault String} {f : String → Option Value → String}
    (h : Writes .standard write f) (params : OrderedMap String Value) :
    Reads write (es.map fun e => e.conditionWritten .standard params f) (joined params root es)
      ((shownOrder root es).map fun v => (v.table.name, v.aliasName)) := by
  induction es using List.reverseRecOn with
  | nil => exact reads_leaf h root
  | append_singleton es e ih =>
    rw [joined_concat, map_shownOrder_concat]
    refine Reads.joinLeaf h (fun t ht => (ih t ht).mono ?_) e e.child ?_
    · rw [List.map_append]
      exact List.subset_append_left _ _
    · rw [List.map_append]
      exact List.mem_append_right _ List.mem_cons_self

end Graph

/-! ## Compiled statements -/

namespace Sql.Statement

variable {s : Statement} {t : String}

/-- In the statement with placeholders what it reads from stands after the word FROM, and if the
statement says nothing more, at the end. -/
theorem text_source (h : s.text = .ok t) : ∃ pre text post, t = pre ++ " \nFROM " ++ text ++ post ∧
    written (fun p => pieceText (p, none)) (sourcePieces s.source) = .ok text ∧
      (s.conditions = [] → s.ordering = [] → s.limit = none → post = "") := by
  have hplain : ∀ p ∈ Piece.verbatim " \nFROM " :: sourcePieces s.source, p.IsPlain :=
    List.forall_mem_cons.2 ⟨rfl, isPlain_sourcePieces s.source⟩
  have hs : s.pieces =
      (.verbatim "SELECT " :: separated ", " (s.columns.map OutputColumn.pieces)) ++
      ((.verbatim " \nFROM " :: sourcePieces s.source) ++
        (clause " \nWHERE " " AND " (s.conditions.map Condition.pieces) ++
          clause " ORDER BY " ", " (s.ordering.map orderPieces) ++
            s.limit.toList.map Piece.limit)) := by
    simp only [pieces, List.cons_append, List.append_assoc]
  obtain ⟨t₁, t₂, t₃, hmid, rfl, hpost⟩ := text_middle h hs hplain
  obtain ⟨t₄, hsource, rfl⟩ := writes_pieceText.verbatim_cons hmid
  refine ⟨t₁, t₄, t₃, by simp only [String.append_assoc], hsource, fun hc ho hl => hpost ?_⟩
  rw [hc, ho, hl]
  rfl

/-- What a statement reads from is looked at if the statement can be written. -/
theorem exists_sources_map_iff {α : Type} (f : List (Source OnClause) → α) :
    (∃ x, s.sources.map f = .ok x) ↔ s.IsWritable := by
  rw [sources, IsWritable]
  cases s.text with
  | error fault =>
    constructor
    · rintro ⟨x, ⟨⟩⟩
    · rintro ⟨t, ⟨⟩⟩
  | ok t => exact iff_of_true ⟨_, rfl⟩ ⟨t, rfl⟩

end Sql.Statement

namespace Graph

/-- In a statement that can be written no table that it reads from has an empty name. -/
theorem name_ne_empty_of_text {s : Statement} {params : OrderedMap String Value} {root : Vertex}
    {es : List Edge} (hsource : s.source = joined params root es) {sql : String}
    (hsql : s.text = .ok sql) : ∀ v ∈ root :: es.map Edge.child, v.table.name ≠ "" := by
  intro v hv hempty
  refine (Statement.isWritable_iff.1 ⟨sql, hsql⟩).1 ?_
  have hpiece : .identifier "" ∈ sourcePieces s.source := by
    rw [hsource, identifier_mem_joined_iff]
    exact Or.inl ⟨v, hv, Or.inl hempty.symm⟩
  simp only [Statement.pieces, List.mem_append, List.mem_cons, hpiece, or_true, true_or]

/-- The list of table names has the names of the tables in their order, each once. -/
theorem allTableNames_joined {s : Statement} {params : OrderedMap String Value} {root : Vertex}
    {es : List Edge} (hsource : s.source = joined params root es) {sql : String}
    (hsql : s.text = .ok sql) : s.sources.map Source.allTableNames =
      .ok ((shownOrder root es).map fun v => v.table.name).eraseDups := by
  have hnames : ∀ n ∈ (shownOrder root es).map fun v => v.table.name, n ≠ "" := by
    intro n hn
    obtain ⟨v, hv, rfl⟩ := List.mem_map.1 hn
    exact name_ne_empty_of_text hsource hsql v ((shownOrder_perm root es).mem_iff.1 hv)
  have hlist : s.sources.map Source.allTableNames = .ok (Source.allTableNames [s.source]) := by
    rw [Statement.sources, hsql]
    rfl
  rw [hlist, Source.allTableNames, List.flatMap_singleton, hsource, tableNames_joined,
    List.filter_eq_self.2 fun n hn => decide_eq_true (hnames n hn)]

end Graph

namespace Session

/-- For every builder that calls have made.  Compiling without filters succeeds, and the statement
can be written unless a table has an empty name or field.  After any filters the list of table names
is given exactly if the statement can be written.  Then the text after FROM reads the tables in an
order in which each that is joined from the right stands in front of the earlier ones, and the list
holds the name of every table once, in the order in which they are first read. -/
theorem tables_shown (schema : Schema) (cs : List Command) {name : String} {b : Builder}
    (hb : ((ofSchema schema).obeyAll cs).builder? name = some b) (chains : KeyChains) :
    (∃ c, (b.graph.compile [] chains).outcome = .ok c ∧
      (c.statement.IsWritable ↔ ∀ v ∈ b.graph.vertices, v.table.name ≠ "" ∧ "" ∉ v.table.fields)) ∧
    ∃ root, b.graph.root = some root ∧
      (Graph.shownOrder root b.graph.edges).Perm b.graph.vertices ∧
      ∀ filters c, (b.graph.compile filters chains).outcome = .ok c →
        ((∃ names, c.statement.sources.map Source.allTableNames = .ok names) ↔
          c.statement.IsWritable) ∧
        ∀ sql, c.statement.text = .ok sql →
          (∃ pre text post, sql = pre ++ " \nFROM " ++ text ++ post ∧
            (filters = [] → post = "") ∧
            FromText
              (b.graph.edges.map fun e => e.conditionWritten .standard c.params fun n _ => ":" ++ n)
              text ((Graph.shownOrder root b.graph.edges).map fun v =>
                (v.table.name, v.aliasName))) ∧
          ∃ names, c.statement.sources.map Source.allTableNames = .ok names ∧
            names = ((Graph.shownOrder root b.graph.edges).map fun v => v.table.name).eraseDups ∧
            names.Nodup ∧ ∀ n, n ∈ names ↔ ∃ v ∈ b.graph.vertices, v.table.name = n := by
  have hg := grown_run schema cs hb
  obtain ⟨root, hroot⟩ := Option.isSome_iff_exists.1 hg.has_root
  have hvertices := hg.coherent.vertices_eq_cons hroot
  have hperm : (Graph.shownOrder root b.graph.edges).Perm b.graph.vertices :=
    hvertices ▸ Graph.shownOrder_perm root b.graph.edges
  refine ⟨⟨_, hg.outcome_compile hroot [] chains, hg.isWritable_plain_iff hroot⟩, root, hroot,
    hperm, fun filters c hc => ?_⟩
  obtain ⟨s, hs, rfl⟩ := hg.of_outcome_compile hroot hc
  have hsource : (b.graph.compiledAs s).statement.source =
      Graph.joined (Parameters.ofEdges b.graph.edges).values root b.graph.edges :=
    (Filter.applyAll_source hs).1
  refine ⟨Statement.exists_sources_map_iff _, fun sql hsql => ⟨?_, ?_⟩⟩
  · obtain ⟨pre, text, post, hsplit, htext, hpost⟩ := Statement.text_source hsql
    refine ⟨pre, text, post, hsplit, ?_, ?_⟩
    · rintro rfl
      cases hs
      exact hpost rfl rfl rfl
    · rw [hsource] at htext
      exact Graph.reads_joined root b.graph.edges Statement.writes_pieceText _ text htext
  · refine ⟨_, Graph.allTableNames_joined hsource hsql, rfl, nodup_eraseDups _, fun n => ?_⟩
    rw [List.mem_eraseDups, List.mem_map]
    simp only [hperm.mem_iff]

/-- Calls that read one table under two aliases, and then join another one from the right. -/
def repeatedCalls : List Command :=
  let spec : JoinSpec := { kind := .ok .multiple, on := [(.str "x", .str "id")] }
  [.select "q" (.named "t") "a" false,
    .join "q" true (.named "t") (some "bs") "b" "a" spec,
    .join "q" false (.named "u") (some "c") "c" "a" { spec with joinType := .str "right" }]

def repeatedBuilder : Builder :=
  (((ofSchema (.ofSource (.uniform ⟨["id", "x"], ["id"]⟩))).obeyAll repeatedCalls).builder?
    "q").getD default

theorem tables_shown_repeated : ∃ c sql, (repeatedBuilder.graph.compile [] .empty).outcome = .ok c ∧
    c.statement.text = .ok sql ∧ c.statement.sources.map Source.allTableNames = .ok ["u", "t"] ∧
    ∃ pre text, sql = pre ++ " \nFROM " ++ text ∧
      FromText ["b.x = a.id", "c.x = a.id"] text [("u", "c"), ("t", "a"), ("t", "b")] := by
  have hb : ((ofSchema (.ofSource (.uniform ⟨["id", "x"], ["id"]⟩))).obeyAll
      repeatedCalls).builder? "q" = some repeatedBuilder := rfl
  obtain ⟨⟨c, hc, hwritable⟩, root, hroot, -, hshown⟩ := tables_shown _ _ hb .empty
  obtain ⟨sql, hsql⟩ := hwritable.2 (by decide)
  obtain ⟨-, hfrom⟩ := hshown [] c hc
  obtain ⟨⟨pre, text, post, hsplit, hpost, htext⟩, names, hnames, hlist, -⟩ := hfrom sql hsql
  obtain ⟨root', hroot', htables, horder⟩ : ∃ root', repeatedBuilder.graph.root = some root' ∧
      (Graph.shownOrder root' repeatedBuilder.graph.edges).map (fun v => v.table.name) =
        ["u", "t", "t"] ∧
      (Graph.shownOrder root' repeatedBuilder.graph.edges).map
        (fun v => (v.table.name, v.aliasName)) = [("u", "c"), ("t", "a"), ("t", "b")] :=
    ⟨_, rfl, rfl, rfl⟩
  obtain rfl := Option.some.inj (hroot.symm.trans hroot')
  have hconditions : (repeatedBuilder.graph.edges.map fun e =>
      e.conditionWritten .standard c.params fun n _ => ":" ++ n) =
        ["b.x = a.id", "c.x = a.id"] := by
    rw [Graph.params_compile hc]
    decide +kernel
  refine ⟨c, sql, hc, hsql, ?_, pre, text, ?_, ?_⟩
  · rw [hnames, hlist, htables]
    rfl
  · rw [hsplit, hpost rfl, String.append_empty]
  · rwa [hconditions, horder] at htext

/-- The builder of one table with a field that has an empty name. -/
def namelessBuilder : Builder :=
  (((ofSchema (.ofSource (.uniform ⟨["id", ""], ["id"]⟩))).obeyAll
    [.select "q" (.named "t") "a" false]).builder? "q").getD default

/-- The table has a name, but it is not listed, since the statement cannot be written. -/
theorem tables_shown_nameless :
    ((ofSchema (.ofSource (.uniform ⟨["id", ""], ["id"]⟩))).obeyAll
        [.select "q" (.named "t") "a" false]).builder? "q" = some namelessBuilder ∧
      namelessBuilder.graph.vertices.map (fun v => v.table.name) = ["t"] ∧
      ∃ c, (namelessBuilder.graph.compile [] .empty).outcome = .ok c ∧
        c.statement.sources.map Source.allTableNames = .error .emptyIdentifier :=
  ⟨rfl, rfl, _, rfl, rfl⟩

end Session

end NestedJoin
