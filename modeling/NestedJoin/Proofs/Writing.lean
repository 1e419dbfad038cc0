import Mathlib.Logic.Basic
import NestedJoin.Compile
set_option autoImplicit false

/-!
# Statements that can be written

A statement with placeholders can be written unless an identifier in it is empty or a generated
placeholder has a name that raw text uses.  A statement without conditions, order and limit
generates no placeholders, so for it the identifiers decide.

Main statements: `Sql.Statement.isWritable_iff`, `Sql.Statement.isWritable_plain_iff` and
`Sql.Statement.exists_literal_plain_iff`.
-/

namespace NestedJoin

namespace Sql

/-! ## Pieces -/

/-- The pieces of separated lists are those of the lists and what separates them. -/
theorem of_mem_separated {sep : String} {ls : List (List Piece)} {p : Piece}
    (h : p ∈ separated sep ls) : p = .verbatim sep ∨ ∃ l ∈ ls, p ∈ l := by
  fun_induction separated sep ls with
  | case1 => cases h
  | case2 ps => exact Or.inr ⟨ps, List.mem_singleton.2 rfl, h⟩
  | case3 ps rest _ ih =>
    rcases List.mem_append.1 h with h | h
    · exact Or.inr ⟨ps, List.mem_cons_self, h⟩
    · rcases List.mem_cons.1 h with rfl | h
      · exact Or.inl rfl
      · refine (ih h).imp id ?_
        rintro ⟨l, hl, hp⟩
        exact ⟨l, List.mem_cons_of_mem ps hl, hp⟩

theorem mem_separated {sep : String} {ls : List (List Piece)} {l : List Piece} {p : Piece}
    (hl : l ∈ ls) (hp : p ∈ l) : p ∈ separated sep ls := by
  fun_induction separated sep ls with
  | case1 => cases hl
  | case2 ps =>
    obtain rfl := List.mem_singleton.1 hl
    exact hp
  | case3 ps rest _ ih =>
    rcases List.mem_cons.1 hl with rfl | hl
    · exact List.mem_append_left _ hp
    · exact List.mem_append_right _ (List.mem_cons_of_mem _ (ih hl))

/-- A piece without a placeholder of its own. -/
def Piece.IsPlain (p : Piece) : Prop := p.column? = none

theorem ColumnRef.isPlain_pieces (r : ColumnRef) : ∀ p ∈ ColumnRef.pieces r, p.IsPlain := by
  intro p hp
  simp only [ColumnRef.pieces, List.mem_cons, List.not_mem_nil, or_false] at hp
  rcases hp with rfl | rfl | rfl <;> rfl

theorem OnClause.isPlain_pieces (c : OnClause) : ∀ p ∈ c.pieces, p.IsPlain := by
  intro p hp
  rcases of_mem_separated hp with rfl | ⟨l, hl, hp⟩
  · rfl
  · rcases List.mem_append.1 hl with hl | hl
    · obtain ⟨pair, -, rfl⟩ := List.mem_map.1 hl
      rcases List.mem_append.1 hp with hp | hp
      · exact ColumnRef.isPlain_pieces pair.1 p hp
      · rcases List.mem_cons.1 hp with rfl | hp
        · rfl
        · exact ColumnRef.isPlain_pieces pair.2 p hp
    · obtain ⟨t, -, rfl⟩ := List.mem_map.1 hl
      rw [List.mem_singleton.1 hp]
      rfl

theorem isPlain_sourcePieces (s : Source OnClause) : ∀ p ∈ sourcePieces s, p.IsPlain := by
  induction s with
  | table n cs =>
    intro p hp
    rw [List.mem_singleton.1 hp]
    rfl
  | aliased n s ih =>
    intro p hp
    rcases List.mem_append.1 hp with hp | hp
    · exact ih p hp
    · simp only [List.mem_cons, List.not_mem_nil, or_false] at hp
      rcases hp with rfl | rfl <;> rfl
  | join l r outer on ihl ihr =>
    intro p hp
    rcases List.mem_append.1 hp with hp | hp
    · exact ihl p hp
    · rcases List.mem_cons.1 hp with rfl | hp
      · rfl
      · rcases List.mem_append.1 hp with hp | hp
        · exact ihr p hp
        · rcases List.mem_cons.1 hp with rfl | hp
          · rfl
          · exact on.isPlain_pieces p hp
  | grouped s ih =>
    intro p hp
    rcases List.mem_cons.1 hp with rfl | hp
    · rfl
    · rcases List.mem_append.1 hp with hp | hp
      · exact ih p hp
      · rw [List.mem_singleton.1 hp]
        rfl
  | query place n s ih =>
    intro p hp
    rw [List.mem_singleton.1 hp]
    rfl

/-! ## Names and raw texts -/

section NotVerbatim

variable {p : Piece} (hp : ∀ t, p ≠ .verbatim t)

include hp

theorem mem_sourcePieces_join_iff {l r : Source OnClause} {outer : Bool} {on : OnClause} :
    p ∈ sourcePieces (.join l r outer on) ↔
      p ∈ sourcePieces l ∨ p ∈ sourcePieces r ∨ p ∈ on.pieces := by
  simp only [sourcePieces, List.mem_append, List.mem_cons, hp, false_or]

/-- Brackets hide nothing. -/
theorem mem_sourcePieces_bracketed_iff {s : Source OnClause} :
    p ∈ sourcePieces s.bracketed ↔ p ∈ sourcePieces s := by
  cases s with
  | join l r outer on =>
    show p ∈ .verbatim "(" :: (sourcePieces (.join l r outer on) ++ [.verbatim ")"]) ↔ _
    simp only [List.mem_append, List.mem_cons, hp, false_or, List.not_mem_nil, or_false]
  | _ => rfl

/-- However a leaf is joined, there is what both sides and the condition hold. -/
theorem mem_sourcePieces_joinLeaf_iff {acc joined : Source OnClause} {type : JoinType}
    {on : OnClause} : p ∈ sourcePieces (Graph.joinLeaf acc joined type on) ↔
      p ∈ sourcePieces acc ∨ p ∈ sourcePieces joined ∨ p ∈ on.pieces := by
  cases type with
  | inner => exact mem_sourcePieces_join_iff hp
  | left => exact mem_sourcePieces_join_iff hp
  | right =>
    rw [Graph.joinLeaf, mem_sourcePieces_join_iff hp, mem_sourcePieces_bracketed_iff hp]
    exact or_left_comm

end NotVerbatim

/-- A column holds no raw text. -/
theorem ColumnRef.raw_notMem_pieces (r : ColumnRef) (b : BoundText) :
    .raw b ∉ ColumnRef.pieces r := by
  simp [ColumnRef.pieces]

/-- The raw text in the condition of a join is the extra one. -/
theorem OnClause.raw_mem_pieces_iff {on : OnClause} {b : BoundText} :
    .raw b ∈ on.pieces ↔ b ∈ on.extra := by
  constructor
  · intro h
    rcases of_mem_separated h with h | ⟨l, hl, h⟩
    · cases h
    · rcases List.mem_append.1 hl with hl | hl
      · obtain ⟨p, -, rfl⟩ := List.mem_map.1 hl
        rcases List.mem_append.1 h with h | h
        · exact absurd h (ColumnRef.raw_notMem_pieces p.1 b)
        · exact absurd ((List.mem_cons.1 h).resolve_left nofun) (ColumnRef.raw_notMem_pieces p.2 b)
      · obtain ⟨b', hb', rfl⟩ := List.mem_map.1 hl
        cases List.mem_singleton.1 h
        exact Option.mem_toList.1 hb'
  · intro h
    refine mem_separated (List.mem_append_right _ ?_) (List.mem_singleton.2 rfl)
    exact List.mem_map_of_mem (Option.mem_toList.2 h)

/-! ## Texts -/

theorem exists_pieceText_iff (q : Piece × Option String) :
    (∃ t, Statement.pieceText q = .ok t) ↔ q.1 ≠ .identifier "" := by
  obtain ⟨p, name⟩ := q
  cases p with
  | identifier n =>
    by_cases hn : n = "" <;> simp [Statement.pieceText, Statement.identifierText, hn]
  | _ => simp [Statement.pieceText]

theorem exists_mapM_iff {α β : Type} {f : α → Except Fault β} {l : List α} :
    (∃ ys, l.mapM f = .ok ys) ↔ ∀ x ∈ l, ∃ y, f x = .ok y := by
  induction l with
  | nil => exact iff_of_true ⟨[], rfl⟩ (fun x hx => by cases hx)
  | cons x l ih =>
    rw [List.forall_mem_cons, ← ih, List.mapM_cons]
    constructor
    · rintro ⟨ys, h⟩
      cases hx : f x with
      | error e =>
        rw [hx] at h
        cases h
      | ok y =>
        cases hl : l.mapM f with
        | error e =>
          rw [hx, hl] at h
          cases h
        | ok ys => exact ⟨⟨y, rfl⟩, ys, rfl⟩
    · rintro ⟨⟨y, hx⟩, ys, hl⟩
      rw [hx, hl]
      exact ⟨y :: ys, rfl⟩

theorem numberedFrom_of_isPlain {used : List String} {cut : Nat} {ps : List Piece}
    (h : ∀ p ∈ ps, p.IsPlain) : (numberedFrom used cut ps).filterMap Prod.snd = [] := by
  induction ps with
  | nil => rfl
  | cons p ps ih =>
    have hp : p.column? = none := h p List.mem_cons_self
    simp only [numberedFrom, hp, List.filterMap_cons]
    exact ih fun q hq => h q (List.mem_cons_of_mem p hq)

namespace Statement

/-- The statement with placeholders has a text. -/
def IsWritable (s : Statement) : Prop := ∃ t, s.text = .ok t

/-- A statement can be written unless an identifier is empty or placeholders clash. -/
theorem isWritable_iff {s : Statement} :
    s.IsWritable ↔ .identifier "" ∉ s.pieces ∧
      ∀ n ∈ s.generatedPlaceholders, n ∉ s.namedPlaceholders := by
  have hpieces : (∃ ts, (numbered s.pieces).mapM pieceText = .ok ts) ↔
      .identifier "" ∉ s.pieces := by
    rw [exists_mapM_iff]
    simp only [exists_pieceText_iff]
    constructor
    · intro h hm
      rw [← numbered_map_fst s.pieces] at hm
      obtain ⟨q, hq, hempty⟩ := List.mem_map.1 hm
      exact h q hq hempty
    · intro h q hq hempty
      apply h
      rw [← numbered_map_fst s.pieces, ← hempty]
      exact List.mem_map_of_mem hq
  rw [← hpieces, IsWritable, text]
  cases hm : (numbered s.pieces).mapM pieceText with
  | error f => simp
  | ok ts =>
    have hclash : s.generatedPlaceholders.find? s.namedPlaceholders.contains = none ↔
        ∀ n ∈ s.generatedPlaceholders, n ∉ s.namedPlaceholders := by
      simp [List.find?_eq_none]
    rw [← hclash]
    cases s.generatedPlaceholders.find? s.namedPlaceholders.contains <;> simp

/-- A statement without conditions, order and limit. -/
def plain (columns : List OutputColumn) (source : Source OnClause) : Statement :=
  { columns, source }

theorem pieces_plain (columns : List OutputColumn) (source : Source OnClause) :
    (plain columns source).pieces =
      .verbatim "SELECT " :: separated ", " (columns.map OutputColumn.pieces) ++
        .verbatim " \nFROM " :: sourcePieces source := by
  simp [pieces, plain, clause]

theorem OutputColumn.isPlain_pieces (c : OutputColumn) : ∀ p ∈ c.pieces, p.IsPlain := by
  intro p hp
  rcases List.mem_append.1 hp with hp | hp
  · exact ColumnRef.isPlain_pieces c.source p hp
  · simp only [List.mem_cons, List.not_mem_nil, or_false] at hp
    rcases hp with rfl | rfl <;> rfl

/-- A plain statement has no piece that needs a placeholder of its own. -/
theorem isPlain_pieces_plain (columns : List OutputColumn) (source : Source OnClause) :
    ∀ p ∈ (plain columns source).pieces, p.IsPlain := by
  intro p hp
  rw [pieces_plain] at hp
  rcases List.mem_append.1 hp with hp | hp
  · rcases List.mem_cons.1 hp with rfl | hp
    · rfl
    · rcases of_mem_separated hp with rfl | ⟨l, hl, hp⟩
      · rfl
      · obtain ⟨c, -, rfl⟩ := List.mem_map.1 hl
        exact OutputColumn.isPlain_pieces c p hp
  · rcases List.mem_cons.1 hp with rfl | hp
    · rfl
    · exact isPlain_sourcePieces source p hp

theorem generatedPlaceholders_plain (columns : List OutputColumn) (source : Source OnClause) :
    (plain columns source).generatedPlaceholders = [] :=
  numberedFrom_of_isPlain (isPlain_pieces_plain columns source)

/-- A plain statement can be written unless an identifier is empty. -/
theorem isWritable_plain_iff {columns : List OutputColumn} {source : Source OnClause} :
    (plain columns source).IsWritable ↔
      (∀ c ∈ columns, c.source.owner ≠ "" ∧ c.source.column ≠ "" ∧ c.label ≠ "") ∧
        .identifier "" ∉ sourcePieces source := by
  rw [isWritable_iff, generatedPlaceholders_plain, pieces_plain]
  have hcolumn : ∀ c : OutputColumn, .identifier "" ∈ c.pieces ↔
      ¬(c.source.owner ≠ "" ∧ c.source.column ≠ "" ∧ c.label ≠ "") := by
    intro c
    simp only [OutputColumn.pieces, ColumnRef.pieces, List.mem_append, List.mem_cons,
      Piece.identifier.injEq, List.not_mem_nil, or_false, reduceCtorEq, false_or]
    rw [eq_comm (a := "") (b := c.source.owner), eq_comm (a := "") (b := c.source.column),
      eq_comm (a := "") (b := c.label), not_and_or, not_and_or, not_not, not_not, not_not, or_assoc]
  constructor
  · rintro ⟨h, -⟩
    constructor
    · intro c hc
      refine not_not.1 fun hempty => ?_
      refine h (List.mem_append_left _ (List.mem_cons_of_mem _ ?_))
      exact mem_separated (List.mem_map_of_mem hc) ((hcolumn c).2 hempty)
    · exact fun hm => h (List.mem_append_right _ (List.mem_cons_of_mem _ hm))
  · rintro ⟨hcolumns, hsource⟩
    refine ⟨?_, fun n hn => by cases hn⟩
    intro hm
    rcases List.mem_append.1 hm with hm | hm
    · rcases List.mem_cons.1 hm with hm | hm
      · cases hm
      · rcases of_mem_separated hm with hm | ⟨l, hl, hm⟩
        · cases hm
        · obtain ⟨c, hc, rfl⟩ := List.mem_map.1 hl
          exact (hcolumn c).1 hm (hcolumns c hc)
    · rcases List.mem_cons.1 hm with hm | hm
      · cases hm
      · exact hsource hm

/-- A piece without a placeholder of its own has a literal unless it is an empty name, or raw text
with a value that has none. -/
theorem exists_pieceLiteral_iff {d : Dialect} {p : Piece} (hp : p.IsPlain) :
    (∃ t, pieceLiteral d p = .ok t) ↔
      p ≠ .identifier "" ∧ ∀ b, p = .raw b → rawFault? d b = none := by
  cases p with
  | identifier n => by_cases hn : n = "" <;> simp [pieceLiteral, identifierText, hn]
  | raw b => cases hb : rawFault? d b <;> simp [pieceLiteral, hb]
  | verbatim t => simp [pieceLiteral]
  | column t => simp [pieceLiteral]
  | truth v => simp [pieceLiteral]
  | value column v => cases hp
  | values column negated vs => cases hp
  | limit count => cases hp

/-- The raw texts of a plain statement are those of what it reads from. -/
theorem raw_mem_pieces_plain_iff {columns : List OutputColumn} {source : Source OnClause}
    {t : BoundText} : .raw t ∈ (plain columns source).pieces ↔ .raw t ∈ sourcePieces source := by
  have hcolumns : .raw t ∉ separated ", " (columns.map OutputColumn.pieces) := by
    intro hm
    rcases of_mem_separated hm with hm | ⟨l, hl, hm⟩
    · cases hm
    · obtain ⟨c, -, rfl⟩ := List.mem_map.1 hl
      rcases List.mem_append.1 hm with hm | hm
      · exact ColumnRef.raw_notMem_pieces c.source t hm
      · simp at hm
  simp only [pieces_plain, List.mem_append, List.mem_cons, reduceCtorEq, hcolumns, false_or]

/-- A plain statement can be written with every value written out if it can be written at all and
the values in its raw texts have literals. -/
theorem exists_literal_plain_iff {columns : List OutputColumn} {source : Source OnClause}
    {d : Dialect} : (∃ t, (plain columns source).literal d = .ok t) ↔
      (plain columns source).IsWritable ∧
        ∀ b, .raw b ∈ sourcePieces source → rawFault? d b = none := by
  have hliteral : (∃ t, (plain columns source).literal d = .ok t) ↔
      ∃ ts, (plain columns source).pieces.mapM (pieceLiteral d) = .ok ts := by
    rw [literal]
    cases (plain columns source).pieces.mapM (pieceLiteral d) with
    | error f => exact iff_of_false nofun nofun
    | ok ts => exact iff_of_true ⟨_, rfl⟩ ⟨ts, rfl⟩
  rw [hliteral, exists_mapM_iff, isWritable_iff, generatedPlaceholders_plain]
  constructor
  · intro h
    have hpiece := fun p hp => (exists_pieceLiteral_iff (isPlain_pieces_plain _ _ p hp)).1 (h p hp)
    refine ⟨⟨fun hm => (hpiece _ hm).1 rfl, nofun⟩, fun b hb => ?_⟩
    exact (hpiece _ (raw_mem_pieces_plain_iff.2 hb)).2 b rfl
  · rintro ⟨⟨hempty, -⟩, hfaults⟩ p hp
    refine (exists_pieceLiteral_iff (isPlain_pieces_plain _ _ p hp)).2 ⟨?_, ?_⟩
    · rintro rfl
      exact hempty hp
    · rintro b rfl
      exact hfaults b (raw_mem_pieces_plain_iff.1 hp)

end Statement

end Sql

end NestedJoin
