import NestedJoin.Proofs.Printing
import NestedJoin.Proofs.ReadingConditions
set_option autoImplicit false

/-!
# Conditions of joins as they are read

The condition of an edge's join is printed with AND between the pairs of join columns and before
the extra condition, and the extra condition stands there as it is, without brackets.  So AND takes
hold of its first alternative only.  The later ones stand beside the pairs, and a row for which one
of them is true is joined, whatever it holds in the join columns.

Main statement: `Graph.restricts_iff_repeats`.
-/

namespace NestedJoin

open Sql

/-! ## Columns and their pairs -/

/-- A column as it is read. -/
def columnTokens (d : Dialect) (r : ColumnRef) : List Token :=
  [nameToken d r.owner, .sign '.', nameToken d r.column]

/-- A pair of equal columns as it is read. -/
def pairTokens (d : Dialect) (p : ColumnRef × ColumnRef) : List Token :=
  columnTokens d p.1 ++ [.sign '='] ++ columnTokens d p.2

theorem readsAs_column (d : Dialect) (r : ColumnRef) :
    ReadsAs (ColumnRef.written d r).toList (columnTokens d r) := by
  have hpoint : ReadsAlone ".".toList [.sign '.'] := fun _ => rfl
  have howner := (readsAs_identifier d r.owner).append hpoint followsName_point (by decide)
  have hcolumn := howner.append (readsAs_identifier d r.column)
  rwa [ColumnRef.written, String.toList_append, String.toList_append]

theorem readsAs_pair (d : Dialect) (p : ColumnRef × ColumnRef) :
    ReadsAs (pairWritten d p).toList (pairTokens d p) := by
  have hequals : ReadsAlone " = ".toList [.sign '='] := fun _ => rfl
  have hchild := (readsAs_column d p.1).append hequals followsName_blank (by decide)
  have hpair := hchild.append (readsAs_column d p.2)
  rwa [pairWritten, String.toList_append, String.toList_append]

theorem isInert_of_mem_columnTokens {d : Dialect} {r : ColumnRef} (ho : IsClear d r.owner)
    (hc : IsClear d r.column) {t : Token} (ht : t ∈ columnTokens d r) : t.IsInert := by
  simp only [columnTokens, List.mem_cons, List.not_mem_nil, or_false] at ht
  rcases ht with rfl | rfl | rfl
  · exact isInert_nameToken ho
  · exact ⟨by decide, by decide⟩
  · exact isInert_nameToken hc

namespace Edge

/-- The condition of an edge's join as it is written. -/
def conditionWritten (e : Edge) (d : Dialect) (params : OrderedMap String Value)
    (f : String → Option Value → String) : String :=
  (e.matching params).written d f

/-- The extra condition of an edge as it is written, without the connective in front of it. -/
def extraWritten (e : Edge) (d : Dialect) (params : OrderedMap String Value)
    (f : String → Option Value → String) : Option String :=
  (extraText? e.condition).map fun text => (BoundText.bind params text).print d f

/-- The pairs of an edge's join columns as they are read. -/
def pairsRead (e : Edge) (d : Dialect) : List (List Token) :=
  (e.matching .empty).pairs.map (pairTokens d)

/-- No name in the pairs of join columns hides a reserved word. -/
def HasClearNames (e : Edge) (d : Dialect) : Prop :=
  IsClear d e.aliasName ∧ IsClear d e.parentAlias ∧
    ∀ p ∈ e.on.entries, IsClear d p.1 ∧ IsClear d p.2

instance (e : Edge) (d : Dialect) : Decidable (e.HasClearNames d) :=
  inferInstanceAs (Decidable (_ ∧ _ ∧ _))

variable {e : Edge} {d : Dialect} (params : OrderedMap String Value)
  (f : String → Option Value → String)

theorem HasClearNames.isInert (h : e.HasClearNames d) :
    ∀ p ∈ (e.matching params).pairs, ∀ t ∈ pairTokens d p, t.IsInert := by
  obtain ⟨hown, hparent, hcolumns⟩ := h
  intro p hp t ht
  obtain ⟨q, hq, rfl⟩ := List.mem_map.1 hp
  simp only [pairTokens, List.mem_append, List.mem_singleton] at ht
  rcases ht with (ht | rfl) | ht
  · exact isInert_of_mem_columnTokens hown (hcolumns q hq).1 ht
  · exact ⟨by decide, by decide⟩
  · exact isInert_of_mem_columnTokens hparent (hcolumns q hq).2 ht

/-- The condition of an edge's join is read as the pairs in front of the extra condition. -/
theorem HasClearNames.reading_conditionWritten (h : e.HasClearNames d) {t : String}
    (ht : e.extraWritten d params f = some t) :
    reading (e.conditionWritten d params f) = .precede (e.pairsRead d) (reading t) := by
  have hextra : (e.matching params).extra.toList.map (fun b => b.print d f) = [t] := by
    obtain ⟨text, htext, rfl⟩ := Option.map_eq_some_iff.1 ht
    rw [matching, htext]
    rfl
  rw [conditionWritten, OnClause.written, hextra]
  exact reading_intercalate (fun p hp => ⟨readsAs_pair d p, h.isInert params p hp⟩) t

/-- Without an extra condition the condition of an edge's join is the conjunction of the pairs. -/
theorem HasClearNames.truth_conditionWritten (h : e.HasClearNames d)
    (hnone : e.extraWritten d params f = none) (val : List Token → Truth) :
    (reading (e.conditionWritten d params f)).truth val = .all val (e.pairsRead d) := by
  have hextra : (e.matching params).extra = none := by
    rw [matching, Option.map_eq_none_iff.1 hnone]
    rfl
  have hne : (e.matching params).pairs ≠ [] := mt List.map_eq_nil_iff.1 e.on_ne_nil
  have hpairs : e.pairsRead d = (e.matching params).pairs.map (pairTokens d) := rfl
  have hinert := h.isInert params
  rw [conditionWritten, OnClause.written, hextra, hpairs]
  -- the last pair stands where an extra condition would
  obtain ⟨ps, p, hsplit⟩ := (List.eq_nil_or_concat' _).resolve_left hne
  rw [hsplit] at hinert ⊢
  have hlast : reading (pairWritten d p) = ⟨pairTokens d p, [], []⟩ :=
    reading_of_readsAs (readsAs_pair d p) (hinert p (List.mem_append_right _ List.mem_cons_self))
  have hread : reading (" AND ".intercalate (ps.map (pairWritten d) ++ [pairWritten d p])) =
      .precede (ps.map (pairTokens d)) (reading (pairWritten d p)) :=
    reading_intercalate
      (fun q hq => ⟨readsAs_pair d q, hinert q (List.mem_append_left _ hq)⟩) (pairWritten d p)
  rw [Option.toList_none, List.map_nil, List.append_nil, List.map_append, List.map_append,
    List.map_singleton, List.map_singleton, hread, hlast, Reading.truth_precede, Truth.all_append]
  exact Truth.or_no _

end Edge

/-! ## Compiled graphs -/

/-- A statement is printed with its placeholders, or with every value written out. -/
inductive Sql.Statement.Printed (s : Statement) :
    Dialect → (String → Option Value → String) → String → Prop
  | text {sql : String} (h : s.text = .ok sql) : s.Printed .standard (fun n _ => ":" ++ n) sql
  | literal {d : Dialect} {sql : String} (h : s.literal d = .ok sql) :
    s.Printed d (fun _ v => rawLiteral d v) sql

namespace Graph

/-- The condition of every join of a compiled graph, as it is read, is true of a row if the pairs of
join columns and the first alternative of the extra condition are, or if a later alternative is.  So
it is the conjunction of the pairs and the extra condition, and keeps rows apart that differ in the
join columns, exactly if every later alternative repeats the pairs. -/
theorem restricts_iff_repeats {g : Graph} {filters : List Filter} {chains : KeyChains}
    {c : Compiled} (hc : (g.compile filters chains).outcome = .ok c)
    {d : Dialect} {f : String → Option Value → String} {sql : String}
    (hsql : c.statement.Printed d f sql) {e : Edge} (he : e ∈ g.edges)
    (hclear : e.HasClearNames d) :
    (∃ pre post, sql = pre ++ " ON " ++ e.conditionWritten d c.params f ++ post) ∧
      (e.extraWritten d c.params f = none → ∀ val,
        (reading (e.conditionWritten d c.params f)).truth val = .all val (e.pairsRead d)) ∧
      ∀ t, e.extraWritten d c.params f = some t →
        (∀ val, (reading (e.conditionWritten d c.params f)).truth val =
          ((Truth.all val (e.pairsRead d)).and (.all val (reading t).first)).or
            (.any (.all val) (reading t).later)) ∧
        ((∀ val, (reading (e.conditionWritten d c.params f)).truth val =
          (Truth.all val (e.pairsRead d)).and ((reading t).truth val)) ↔
            (reading t).Repeats (e.pairsRead d)) ∧
        ((∀ val, (reading (e.conditionWritten d c.params f)).truth val = .yes →
          ∀ p ∈ e.pairsRead d, val p = .yes) ↔ (reading t).Repeats (e.pairsRead d)) := by
  refine ⟨?_, hclear.truth_conditionWritten c.params f, fun t ht => ?_⟩
  · obtain ⟨j, hj, hon⟩ := exists_join_compiled hc he
    rw [Edge.conditionWritten, params_compile hc, ← hon]
    cases hsql with
    | text h => exact Statement.text_join h hj
    | literal h => exact (Statement.literal_join h hj).1
  · rw [hclear.reading_conditionWritten c.params f ht]
    exact ⟨Reading.truth_precede, Reading.agrees_iff⟩

/-! ### Two alternatives -/

/-- A table with states, joined on the keys under two alternatives. -/
def alternativesEdge : Edge :=
  let root := Workspace.sampleVertex "shelf" "label" (by decide) (by decide)
  let child := Workspace.sampleVertex "book" "state" (by decide) (by decide)
  { Workspace.sampleEdge child root "book" rfl (by decide) (by decide) with
    condition := some "AND book.state = 1 OR book.state = 2" }

def alternativesGraph : Graph :=
  ((ofRoot alternativesEdge.parent).addEdge alternativesEdge).toOption.getD .empty

/-- The second alternative does not repeat the pair of keys, so rows with other keys are joined. -/
theorem restricts_iff_repeats_alternatives :
    ∃ c sql pre post, (alternativesGraph.compile [] .empty).outcome = .ok c ∧
      c.statement.text = .ok sql ∧
      sql = pre ++ " ON " ++ "book.id = shelf.id AND book.state = 1 OR book.state = 2" ++ post ∧
      ¬ (reading "book.state = 1 OR book.state = 2").Repeats [tokens "book.id = shelf.id"] ∧
      ¬ ∀ val,
        (reading "book.id = shelf.id AND book.state = 1 OR book.state = 2").truth val = .yes →
          val (tokens "book.id = shelf.id") = .yes := by
  obtain ⟨c, sql, hc, hsql⟩ : ∃ c sql,
      (alternativesGraph.compile [] .empty).outcome = .ok c ∧ c.statement.text = .ok sql :=
    ⟨_, _, rfl, rfl⟩
  have he : alternativesEdge ∈ alternativesGraph.edges := List.mem_cons_self
  have hwritten : alternativesEdge.conditionWritten .standard c.params (fun n _ => ":" ++ n) =
      "book.id = shelf.id AND book.state = 1 OR book.state = 2" := by
    rw [params_compile hc]
    decide +kernel
  have hextra : alternativesEdge.extraWritten .standard c.params (fun n _ => ":" ++ n) =
      some "book.state = 1 OR book.state = 2" := by
    rw [params_compile hc]
    decide +kernel
  have hpairs : alternativesEdge.pairsRead .standard = [tokens "book.id = shelf.id"] := by
    decide +kernel
  have hlater :
      ¬ (reading "book.state = 1 OR book.state = 2").Repeats [tokens "book.id = shelf.id"] := by
    decide +kernel
  obtain ⟨⟨pre, post, hon⟩, -, hread⟩ :=
    restricts_iff_repeats hc (.text hsql) he (by decide +kernel)
  rw [hwritten] at hon hread
  rw [hpairs] at hread
  obtain ⟨-, -, hrestricts⟩ := hread _ hextra
  refine ⟨c, sql, pre, post, hc, hsql, hon, hlater, fun hall => hlater (hrestricts.1 ?_)⟩
  intro val hyes p hp
  rw [List.mem_singleton.1 hp]
  exact hall val hyes

end Graph

end NestedJoin
