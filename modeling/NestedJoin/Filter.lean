import NestedJoin.Sql.Statement
set_option autoImplicit false

/-!
# Filters

What a caller may add to a compiled statement: conditions on its columns, raw conditions,
an order, a limit.  Columns are named by references of the form `alias.column`, which are
looked up in what the statement so far shows to be read from.  Raw conditions are made when
the filter is, so that one that makes no sense yields no filter.

Main statements: `applyAll_source`, filters never change what a statement reads from or which
columns it selects, and `column_of_not_written`, nothing is found in a statement that cannot
be written.
-/

namespace NestedJoin

open Sql

/-- An extension of a compiled statement. -/
inductive Filter where
  /-- compares a column with a value -/
  | compare (ref : String) (op : Comparison) (value : Value)
  /-- adds conditions as they are -/
  | conditions (cs : List Condition)
  /-- orders by columns, each with whether the order is descending -/
  | orderBy (items : List (String × Bool))
  /-- keeps a number of rows, or all of them -/
  | limit (count : Option Int)
  /-- only looks a column up -/
  | resolve (ref : String)
  deriving Repr, Inhabited

namespace Filter

/-! ## Raw conditions -/

/-- A raw text as a condition. -/
def rawText (sql : String) : Condition := .raw (.plain sql)

/-- A column given as raw text, compared with a value. -/
def rawComparison (column : String) (op : Comparison) (value : Value) : Except Fault Condition :=
  Condition.make (.literal column) op value

/-! ## Looking columns up -/

/-- The column of a statement that a reference means. -/
def column (s : Statement) (ref : String) : Except Fault ColumnRef :=
  match Source.splitReference? ref with
  | none => .error (.malformedReference ref)
  | some _ => do Source.resolve (← s.sources) ref

/-- Nothing is found in a statement that cannot be written. -/
theorem column_of_not_written {s : Statement} {f : Fault} {ref : String} (h : s.text = .error f)
    (hr : (Source.splitReference? ref).isSome = true) : column s ref = .error f := by
  obtain ⟨p, hp⟩ := Option.isSome_iff_exists.1 hr
  simp [column, hp, Statement.sources, h, Except.map, bind, Except.bind]

/-- In a statement that can be written a reference is looked up in what it reads from. -/
theorem column_of_written {s : Statement} {t ref : String} (h : s.text = .ok t) :
    column s ref = Source.resolve [s.source] ref := by
  rw [column]
  split
  · next hsplit => rw [Source.resolve, hsplit]
  · rw [Statement.sources, h]
    rfl

theorem column_eq_ok_iff {s : Statement} {ref : String} {c : ColumnRef} :
    column s ref = .ok c ↔ (∃ t, s.text = .ok t) ∧ Source.resolve [s.source] ref = .ok c := by
  cases h : s.text with
  | ok t =>
    rw [column_of_written h]
    exact (and_iff_right ⟨t, rfl⟩).symm
  | error f =>
    refine iff_of_false ?_ (fun q => by obtain ⟨⟨t, ht⟩, -⟩ := q; cases ht)
    intro hc
    cases hr : Source.splitReference? ref with
    | none => simp [column, hr] at hc
    | some p =>
      rw [column_of_not_written h (by rw [hr]; rfl)] at hc
      cases hc

/-! ## Applying -/

/-- The statement with a filter applied, or the reason why it cannot be. -/
def apply (s : Statement) : Filter → Except Fault Statement
  | .compare ref op v => do
    let c ← column s ref
    let condition ← Condition.make (.column c) op v
    return { s with conditions := s.conditions ++ [condition] }
  | .conditions cs => .ok { s with conditions := s.conditions ++ cs }
  | .orderBy items => do
    let more ← items.mapM fun i => (column s i.1).map fun c => (c, i.2)
    return { s with ordering := s.ordering ++ more }
  | .limit count => .ok { s with limit := count }
  | .resolve ref => (column s ref).map fun _ => s

/-- A filter never changes what a statement reads from or which columns it selects. -/
theorem apply_source {s s' : Statement} {f : Filter} (h : apply s f = .ok s') :
    s'.source = s.source ∧ s'.columns = s.columns := by
  cases f with
  | compare ref op v =>
    simp only [apply, bind, Except.bind] at h
    split at h
    · cases h
    · split at h
      · cases h
      · cases h
        exact ⟨rfl, rfl⟩
  | conditions cs =>
    cases h
    exact ⟨rfl, rfl⟩
  | orderBy items =>
    simp only [apply, bind, Except.bind] at h
    split at h
    · cases h
    · cases h
      exact ⟨rfl, rfl⟩
  | limit count =>
    cases h
    exact ⟨rfl, rfl⟩
  | resolve ref =>
    simp only [apply] at h
    cases hc : column s ref with
    | error f => rw [hc] at h; cases h
    | ok c => rw [hc] at h; cases h; exact ⟨rfl, rfl⟩

/-- The statement with filters applied in order. -/
def applyAll (s : Statement) (fs : List Filter) : Except Fault Statement := fs.foldlM apply s

theorem applyAll_concat (s : Statement) (fs : List Filter) (f : Filter) :
    applyAll s (fs ++ [f]) = (applyAll s fs).bind (apply · f) := by
  rw [applyAll, List.foldlM_append]
  show (applyAll s fs).bind (fun next => [f].foldlM apply next) = _
  simp only [List.foldlM_cons, List.foldlM_nil, bind_pure]

/-- Filters never change what a statement reads from or which columns it selects. -/
theorem applyAll_source {s s' : Statement} {fs : List Filter} (h : applyAll s fs = .ok s') :
    s'.source = s.source ∧ s'.columns = s.columns := by
  induction fs generalizing s with
  | nil =>
    cases h
    exact ⟨rfl, rfl⟩
  | cons f fs ih =>
    rw [applyAll, List.foldlM_cons] at h
    cases hf : apply s f with
    | error e =>
      rw [hf] at h
      cases h
    | ok next =>
      rw [hf] at h
      obtain ⟨hsource, hcolumns⟩ := apply_source hf
      obtain ⟨hsource', hcolumns'⟩ := ih h
      exact ⟨hsource'.trans hsource, hcolumns'.trans hcolumns⟩

end Filter

end NestedJoin
