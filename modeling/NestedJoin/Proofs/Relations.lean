import Mathlib.Data.Multiset.Bind
import NestedJoin.Source
set_option autoImplicit false

/-!
# Relations and joins

What joins mean.  A row of joined tables holds values under the columns of these tables; a
relation is a bag of rows over the same columns.  The inner join of two relations is the bag of
those pairs of rows that a condition holds of.  The left join adds every row of the left side
that is in no such pair, with null under the columns of the right side, and the right join does
so with the sides exchanged.

A tree of joins over stored tables is evaluated from its leaves up.  It knows inner joins and
left joins only.

Main statements: `Relation.right_same_left`, a right join is a left join with its sides
exchanged if they have no column in common, and `Relation.scan_renamed`, a stored table under
another name is the table scanned under that name.
-/

namespace NestedJoin

/-- A row of joined tables: what it holds under their columns. -/
abbrev JoinedRow : Type := ColumnRef → Option Value

namespace JoinedRow

/-- The row with null under some columns. -/
def nulls (columns : List ColumnRef) : JoinedRow :=
  fun c => if c ∈ columns then some .null else none

/-- A row and another one beside it. -/
def beside (x y : JoinedRow) : JoinedRow := fun c => (x c).or (y c)

/-- A row holds values under some columns and no others. -/
def IsOver (x : JoinedRow) (columns : List ColumnRef) : Prop :=
  ∀ c, (x c).isSome = true ↔ c ∈ columns

theorem isOver_nulls (columns : List ColumnRef) : (nulls columns).IsOver columns := by
  intro c
  unfold nulls
  split
  · next h => exact iff_of_true rfl h
  · next h => exact iff_of_false Bool.false_ne_true h

theorem IsOver.beside {x y : JoinedRow} {cs ds : List ColumnRef} (hx : x.IsOver cs)
    (hy : y.IsOver ds) : (x.beside y).IsOver (cs ++ ds) := by
  intro c
  rw [JoinedRow.beside, Option.isSome_or, Bool.or_eq_true, hx c, hy c, List.mem_append]

/-- Rows over different columns stand beside each other in either order. -/
theorem beside_comm {x y : JoinedRow} {cs ds : List ColumnRef} (hx : x.IsOver cs)
    (hy : y.IsOver ds) (h : ∀ c ∈ cs, c ∉ ds) : x.beside y = y.beside x := by
  funext c
  unfold beside
  cases hxc : x c with
  | none => rw [Option.none_or, Option.or_none]
  | some v =>
    have hc : c ∈ cs := (hx c).1 (by rw [hxc]; rfl)
    have hyc : y c = none := by
      rw [← Option.not_isSome_iff_eq_none, hy c]
      exact h c hc
    rw [hyc, Option.none_or, Option.or_none]

theorem nulls_congr {cs ds : List ColumnRef} (h : cs.Perm ds) : nulls cs = nulls ds := by
  funext c
  simp only [nulls, h.mem_iff]

end JoinedRow

open JoinedRow

/-- The rows of the physical tables: for every table's name a bag of rows, each of which holds a
value under every column. -/
abbrev StoredTables : Type := String → Multiset (String → Value)

/-- A bag of rows over the same columns. -/
@[ext]
structure Relation where
  columns : List ColumnRef
  rows : Multiset JoinedRow
  isOver : ∀ x ∈ rows, x.IsOver columns

namespace Relation

/-! ## Joins -/

section Joins

variable (on : JoinedRow → Bool) (l r : Relation)

/-- The pairs of rows that a condition holds of. -/
def pairs : Multiset JoinedRow :=
  ((l.rows ×ˢ r.rows).map fun p => p.1.beside p.2).filter fun z => on z = true

/-- The rows of the left side that are in no pair. -/
def unmatchedLeft : Multiset JoinedRow :=
  l.rows.filter fun x => ∀ y ∈ r.rows, on (x.beside y) = false

/-- The rows of the right side that are in no pair. -/
def unmatchedRight : Multiset JoinedRow :=
  r.rows.filter fun y => ∀ x ∈ l.rows, on (x.beside y) = false

theorem isOver_of_mem_pairs {z : JoinedRow} (h : z ∈ pairs on l r) :
    z.IsOver (l.columns ++ r.columns) := by
  obtain ⟨p, hp, rfl⟩ := Multiset.mem_map.1 (Multiset.mem_filter.1 h).1
  obtain ⟨hx, hy⟩ := Multiset.mem_product.1 hp
  exact (l.isOver p.1 hx).beside (r.isOver p.2 hy)

/-- The inner join. -/
def inner : Relation where
  columns := l.columns ++ r.columns
  rows := pairs on l r
  isOver _ hz := isOver_of_mem_pairs on l r hz

/-- The left join. -/
def left : Relation where
  columns := l.columns ++ r.columns
  rows := pairs on l r + (unmatchedLeft on l r).map fun x => x.beside (nulls r.columns)
  isOver := by
    intro z hz
    rcases Multiset.mem_add.1 hz with hz | hz
    · exact isOver_of_mem_pairs on l r hz
    · obtain ⟨x, hx, rfl⟩ := Multiset.mem_map.1 hz
      exact (l.isOver x (Multiset.mem_filter.1 hx).1).beside (isOver_nulls r.columns)

/-- The right join. -/
def right : Relation where
  columns := l.columns ++ r.columns
  rows := pairs on l r + (unmatchedRight on l r).map fun y => (nulls l.columns).beside y
  isOver := by
    intro z hz
    rcases Multiset.mem_add.1 hz with hz | hz
    · exact isOver_of_mem_pairs on l r hz
    · obtain ⟨y, hy, rfl⟩ := Multiset.mem_map.1 hz
      exact (isOver_nulls l.columns).beside (r.isOver y (Multiset.mem_filter.1 hy).1)

end Joins

/-! ## Exchanging sides -/

/-- Two relations have the same rows, over the same columns in whatever order. -/
structure Same (l m : Relation) : Prop where
  columns_perm : l.columns.Perm m.columns
  rows_eq : l.rows = m.rows

namespace Same

variable {on : JoinedRow → Bool} {l m : Relation}

theorem refl (l : Relation) : l.Same l := ⟨List.Perm.refl _, rfl⟩

theorem symm (h : l.Same m) : m.Same l := ⟨h.columns_perm.symm, h.rows_eq.symm⟩

theorem trans {n : Relation} (h : l.Same m) (h' : m.Same n) : l.Same n :=
  ⟨h.columns_perm.trans h'.columns_perm, h.rows_eq.trans h'.rows_eq⟩

/-- The left side of an inner join may be exchanged for the same relation. -/
theorem inner (h : l.Same m) (r : Relation) : (l.inner on r).Same (m.inner on r) where
  columns_perm := h.columns_perm.append_right _
  rows_eq := by
    show pairs on l r = pairs on m r
    rw [pairs, pairs, h.rows_eq]

/-- The left side of a left join may be exchanged for the same relation. -/
theorem left (h : l.Same m) (r : Relation) : (l.left on r).Same (m.left on r) where
  columns_perm := h.columns_perm.append_right _
  rows_eq := by
    show pairs on l r + (unmatchedLeft on l r).map _ = pairs on m r + (unmatchedLeft on m r).map _
    rw [pairs, pairs, unmatchedLeft, unmatchedLeft, h.rows_eq]

/-- The left side of a right join may be exchanged for the same relation. -/
theorem right (h : l.Same m) (r : Relation) : (l.right on r).Same (m.right on r) where
  columns_perm := h.columns_perm.append_right _
  rows_eq := by
    show pairs on l r + (unmatchedRight on l r).map _ = pairs on m r + (unmatchedRight on m r).map _
    rw [pairs, pairs, unmatchedRight, unmatchedRight, h.rows_eq, nulls_congr h.columns_perm]

end Same

/-- A right join is a left join with its sides exchanged, if they have no column in common. -/
theorem right_same_left (on : JoinedRow → Bool) {l r : Relation}
    (h : ∀ c ∈ l.columns, c ∉ r.columns) : (l.right on r).Same (r.left on l) where
  columns_perm := List.perm_append_comm
  rows_eq := by
    have hcomm : ∀ x ∈ l.rows, ∀ y ∈ r.rows, x.beside y = y.beside x := fun x hx y hy =>
      beside_comm (l.isOver x hx) (r.isOver y hy) h
    have hpairs : pairs on l r = pairs on r l := by
      rw [pairs, pairs, ← Multiset.map_swap_product, Multiset.map_map]
      congr 1
      refine Multiset.map_congr rfl fun p hp => ?_
      obtain ⟨hy, hx⟩ := Multiset.mem_product.1 hp
      exact hcomm p.2 hx p.1 hy
    have hunmatched : unmatchedRight on l r = unmatchedLeft on r l := by
      refine Multiset.filter_congr fun y hy => forall₂_congr fun x hx => ?_
      rw [hcomm x hx y hy]
    have hnulls : (unmatchedLeft on r l).map (fun y => (nulls l.columns).beside y) =
        (unmatchedLeft on r l).map fun y => y.beside (nulls l.columns) := by
      refine Multiset.map_congr rfl fun y hy => ?_
      exact beside_comm (isOver_nulls l.columns) (r.isOver y (Multiset.mem_filter.1 hy).1) h
    show pairs on l r + (unmatchedRight on l r).map _ = pairs on r l + (unmatchedLeft on r l).map _
    rw [hpairs, hunmatched, hnulls]

/-! ## Stored tables -/

/-- The rows of a stored table, seen through some of its columns under a name for it. -/
def scan (tables : StoredTables) (owner name : String) (columns : List String) : Relation where
  columns := columns.map (⟨owner, ·⟩)
  rows := (tables name).map fun row c =>
    if c ∈ columns.map (⟨owner, ·⟩) then some (row c.column) else none
  isOver := by
    intro x hx c
    obtain ⟨row, -, rfl⟩ := Multiset.mem_map.1 hx
    dsimp only
    split
    · next h => exact iff_of_true rfl h
    · next h => exact iff_of_false Bool.false_ne_true h

/-- The first column of a relation that has the name of some column, whoever owns it. -/
def columnNamed (r : Relation) (c : ColumnRef) : Option ColumnRef :=
  r.columns.find? fun d => d.column == c.column

theorem columnNamed_eq_some {r : Relation} {c d : ColumnRef} (h : r.columnNamed c = some d) :
    d ∈ r.columns ∧ d.column = c.column := by
  have hname := List.find?_some h
  exact ⟨List.mem_of_find?_eq_some h, eq_of_beq hname⟩

theorem exists_columnNamed {r : Relation} {c d : ColumnRef} (hd : d ∈ r.columns)
    (hc : d.column = c.column) : ∃ d', r.columnNamed c = some d' := by
  rw [← Option.isSome_iff_exists, columnNamed, List.find?_isSome]
  exact ⟨d, hd, beq_iff_eq.2 hc⟩

/-- A relation under a name of its own; of columns with one name the first is seen. -/
def renamed (r : Relation) (owner : String) : Relation where
  columns := r.columns.map fun c => ⟨owner, c.column⟩
  rows := r.rows.map fun x c => if c.owner = owner then (r.columnNamed c).bind x else none
  isOver := by
    intro z hz c
    obtain ⟨x, hx, rfl⟩ := Multiset.mem_map.1 hz
    obtain ⟨o, f⟩ := c
    simp only [List.mem_map, ColumnRef.mk.injEq]
    constructor
    · intro h
      split at h
      · next ho =>
        cases hd : r.columnNamed ⟨o, f⟩ with
        | none =>
          rw [hd] at h
          cases h
        | some d =>
          obtain ⟨hmem, hname⟩ := columnNamed_eq_some hd
          exact ⟨d, hmem, ho.symm, hname⟩
      · cases h
    · rintro ⟨d, hd, rfl, rfl⟩
      obtain ⟨d', hd'⟩ := exists_columnNamed (c := ⟨owner, d.column⟩) hd rfl
      rw [if_pos rfl, hd']
      exact (r.isOver x hx d').2 (columnNamed_eq_some hd').1

theorem mem_columns_scan_iff {tables : StoredTables} {owner name : String}
    {columns : List String} {c : ColumnRef} :
    c ∈ (scan tables owner name columns).columns ↔ c.owner = owner ∧ c.column ∈ columns := by
  obtain ⟨o, f⟩ := c
  simp only [scan, List.mem_map, ColumnRef.mk.injEq]
  constructor
  · rintro ⟨g, hg, rfl, rfl⟩
    exact ⟨rfl, hg⟩
  · rintro ⟨rfl, hf⟩
    exact ⟨f, hf, rfl, rfl⟩

/-- A stored table under another name is the table scanned under that name. -/
theorem scan_renamed (tables : StoredTables) (owner owner' name : String)
    (columns : List String) :
    (scan tables owner name columns).renamed owner' = scan tables owner' name columns := by
  have hcolumns : ((scan tables owner name columns).renamed owner').columns =
      (scan tables owner' name columns).columns := by
    simp only [renamed, scan, List.map_map]
    rfl
  have hrows : ((scan tables owner name columns).renamed owner').rows =
      (scan tables owner' name columns).rows := by
    show ((tables name).map _).map _ = (tables name).map _
    rw [Multiset.map_map]
    refine Multiset.map_congr rfl fun row _ => funext fun c => ?_
    have hread : ((scan tables owner name columns).columnNamed c).bind
        (fun d => if d ∈ columns.map (⟨owner, ·⟩) then some (row d.column) else none) =
          if c.column ∈ columns then some (row c.column) else none := by
      cases hd : (scan tables owner name columns).columnNamed c with
      | none =>
        rw [if_neg]
        · rfl
        · intro hc
          obtain ⟨d, hd'⟩ := exists_columnNamed (r := scan tables owner name columns) (c := c)
            (d := ⟨owner, c.column⟩) (mem_columns_scan_iff.2 ⟨rfl, hc⟩) rfl
          rw [hd] at hd'
          cases hd'
      | some d =>
        obtain ⟨hmem, hname⟩ := columnNamed_eq_some hd
        rw [if_pos (hname ▸ (mem_columns_scan_iff.1 hmem).2), ← hname]
        exact if_pos hmem
    show (if c.owner = owner' then _ else none) =
      if c ∈ (scan tables owner' name columns).columns then _ else _
    rw [hread]
    by_cases ho : c.owner = owner'
    · rw [if_pos ho]
      simp only [mem_columns_scan_iff, ho, true_and]
    · rw [if_neg ho, if_neg fun h => ho (mem_columns_scan_iff.1 h).1]
  exact Relation.ext hcolumns hrows

end Relation

namespace Source

variable {γ : Type}

/-- The rows that a source yields, given the stored tables and what the conditions of its joins
mean. -/
def evaluate (tables : StoredTables) (holds : γ → JoinedRow → Bool) : Source γ → Relation
  | .table n cs => .scan tables n n cs
  | .aliased n s => (s.evaluate tables holds).renamed n
  | .join l r outer on =>
    if outer then (l.evaluate tables holds).left (holds on) (r.evaluate tables holds)
    else (l.evaluate tables holds).inner (holds on) (r.evaluate tables holds)
  | .grouped s => s.evaluate tables holds
  | .query _ n s => (s.evaluate tables holds).renamed n

end Source

end NestedJoin
