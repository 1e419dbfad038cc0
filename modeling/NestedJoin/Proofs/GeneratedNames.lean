import Mathlib.Data.List.Basic
import NestedJoin.Proofs.Writing
set_option autoImplicit false

/-!
# Generated names

The columns that values are compared with decide about the generated names of a statement: each is
the name of a column, with a number that counts up to how often the name occurs.  A statement cannot
be written if one of them is a name that raw text uses.

Main statements: `mem_generatedNames_iff`, `Statement.generatedPlaceholders_eq` and
`Statement.of_text_eq_error`.
-/

namespace NestedJoin.Sql

/-! ## Numbers of columns -/

/-- The generated names of the placeholders of some columns, given the bases used before and how
many names were cut. -/
def generatedNamesFrom (used : List String) (cut : Nat) : List String → List String
  | [] => []
  | c :: cs =>
    let base := placeholderBase c
    let name := placeholderName base (used.count base + 1)
    if name.length ≤ nameLimit then name :: generatedNamesFrom (base :: used) cut cs
    else cutName name (cut + 1) :: generatedNamesFrom (base :: used) (cut + 1) cs

/-- The generated names of the placeholders of some columns. -/
def generatedNames (columns : List String) : List String := generatedNamesFrom [] 0 columns

/-- The columns alone decide about the generated names of pieces. -/
theorem filterMap_numberedFrom (used : List String) (cut : Nat) (ps : List Piece) :
    (numberedFrom used cut ps).filterMap Prod.snd =
      generatedNamesFrom used cut (ps.filterMap Piece.column?) := by
  induction ps generalizing used cut with
  | nil => rfl
  | cons p ps ih =>
    cases hp : p.column? with
    | none =>
      rw [List.filterMap_cons_none hp, ← ih]
      simp only [numberedFrom, hp, List.filterMap_cons_none]
    | some c =>
      rw [List.filterMap_cons_some hp]
      simp only [numberedFrom, hp, generatedNamesFrom]
      split
      · exact congrArg (List.cons _) (ih _ _)
      · exact congrArg (List.cons _) (ih _ _)

theorem length_cutName {name : String} (h : nameLimit < name.length) (number : Nat) :
    nameLimit < (cutName name number).length := by
  have hkept : (name.toList.take nameLimit).length = nameLimit := by
    rw [List.length_take, String.length_toList]
    exact Nat.min_eq_left (Nat.le_of_lt h)
  rw [cutName, String.length_ofList, List.length_append, hkept, List.length_cons]
  omega

/-- A base is numbered on from where it was used before. -/
def NumberedOn (used : List String) (bases : List String) (n : String) : Prop :=
  ∃ base k, used.count base < k ∧ k ≤ used.count base + bases.count base ∧
    n = placeholderName base k

theorem numberedOn_cons_iff {used bases : List String} {base n : String} :
    NumberedOn used (base :: bases) n ↔
      n = placeholderName base (used.count base + 1) ∨ NumberedOn (base :: used) bases n := by
  constructor
  · rintro ⟨base', k, hlow, hhigh, rfl⟩
    by_cases hbase : base = base'
    · subst hbase
      rw [List.count_cons_self] at hhigh
      rcases Nat.eq_or_lt_of_le hlow with rfl | hlow
      · exact Or.inl rfl
      · refine Or.inr ⟨base, k, ?_, ?_, rfl⟩ <;> rw [List.count_cons_self] <;> omega
    · rw [List.count_cons_of_ne hbase] at hhigh
      refine Or.inr ⟨base', k, ?_, ?_, rfl⟩ <;> rwa [List.count_cons_of_ne hbase]
  · rintro (rfl | ⟨base', k, hlow, hhigh, rfl⟩)
    · refine ⟨base, _, Nat.lt_succ_self _, ?_, rfl⟩
      rw [List.count_cons_self]
      omega
    · by_cases hbase : base = base'
      · subst hbase
        rw [List.count_cons_self] at hlow hhigh
        refine ⟨base, k, by omega, ?_, rfl⟩
        rw [List.count_cons_self]
        omega
      · rw [List.count_cons_of_ne hbase] at hlow hhigh
        refine ⟨base', k, hlow, ?_, rfl⟩
        rwa [List.count_cons_of_ne hbase]

theorem mem_generatedNamesFrom_iff {used columns : List String} {cut : Nat} {n : String}
    (hn : n.length ≤ nameLimit) : n ∈ generatedNamesFrom used cut columns ↔
      NumberedOn used (columns.map placeholderBase) n := by
  induction columns generalizing used cut with
  | nil =>
    refine iff_of_false List.not_mem_nil ?_
    rintro ⟨base, k, hlow, hhigh, -⟩
    exact absurd hhigh (Nat.not_le_of_lt hlow)
  | cons c cs ih =>
    rw [List.map_cons, numberedOn_cons_iff, generatedNamesFrom]
    split
    · rw [List.mem_cons, ih]
    · next hlong =>
      -- neither the name nor what is kept of it is short
      rw [List.mem_cons, ih, or_iff_right, or_iff_right]
      · rintro rfl
        exact hlong hn
      · rintro rfl
        exact absurd hn (Nat.not_le_of_lt (length_cutName (Nat.lt_of_not_le hlong) _))

/-- A name that is not too long is generated exactly if it is the base of a column with a number up
to how often this base occurs. -/
theorem mem_generatedNames_iff {columns : List String} {n : String} (hn : n.length ≤ nameLimit) :
    n ∈ generatedNames columns ↔ ∃ base k, 1 ≤ k ∧
      k ≤ (columns.map placeholderBase).count base ∧ n = placeholderName base k := by
  rw [generatedNames, mem_generatedNamesFrom_iff hn]
  simp only [NumberedOn, List.count_nil, Nat.zero_add]
  rfl

/-! ## Pieces of a statement -/

theorem filterMap_column?_of_isPlain {ps : List Piece} (h : ∀ p ∈ ps, p.IsPlain) :
    ps.filterMap Piece.column? = [] :=
  List.filterMap_eq_nil_iff.2 h

theorem Operand.isPlain_pieces (o : Operand) : ∀ p ∈ o.pieces, p.IsPlain := by
  cases o with
  | column r => exact ColumnRef.isPlain_pieces r
  | literal t =>
    intro p hp
    rw [List.mem_singleton.1 hp]
    rfl

/-- The column by which the placeholder of a condition is named, if there is one. -/
def Condition.valueColumn? : Condition → Option String
  | .compare o _ _ => some o.columnName
  | .member o _ _ => some o.columnName
  | _ => none

theorem Condition.filterMap_pieces (c : Condition) :
    c.pieces.filterMap Piece.column? = c.valueColumn?.toList := by
  cases c with
  | raw t =>
    rw [Condition.pieces]
    split <;> rfl
  | isNull o negated =>
    rw [Condition.pieces, List.filterMap_append, filterMap_column?_of_isPlain o.isPlain_pieces]
    rfl
  | isTruth o negated b =>
    rw [Condition.pieces, List.filterMap_append, filterMap_column?_of_isPlain o.isPlain_pieces]
    rfl
  | compare o op v =>
    rw [Condition.pieces, List.filterMap_append, filterMap_column?_of_isPlain o.isPlain_pieces]
    rfl
  | member o negated vs =>
    cases negated with
    | false =>
      rw [Condition.pieces, List.filterMap_append, filterMap_column?_of_isPlain o.isPlain_pieces]
      rfl
    | true =>
      rw [Condition.pieces, List.filterMap_append, List.filterMap_cons_none rfl,
        filterMap_column?_of_isPlain o.isPlain_pieces]
      rfl

theorem filterMap_separated (sep : String) (ls : List (List Piece)) :
    (separated sep ls).filterMap Piece.column? = ls.flatMap (List.filterMap Piece.column?) := by
  fun_induction separated sep ls with
  | case1 => rfl
  | case2 ps => exact (List.append_nil _).symm
  | case3 ps rest _ ih =>
    rw [List.filterMap_append, List.filterMap_cons_none rfl, ih]
    rfl

namespace Statement

theorem clause_eq (word sep : String) (parts : List (List Piece)) :
    clause word sep parts = [] ∧ (∀ l ∈ parts, l = []) ∨
      clause word sep parts =
        .verbatim word :: separated sep (parts.filter fun p => !p.isEmpty) := by
  rw [clause]
  split
  · next h =>
    refine Or.inl ⟨rfl, fun l hl => ?_⟩
    have hempty := List.filter_eq_nil_iff.1 h l hl
    simpa using hempty
  · exact Or.inr rfl

theorem filterMap_clause (word sep : String) (parts : List (List Piece)) :
    (clause word sep parts).filterMap Piece.column? =
      parts.flatMap (List.filterMap Piece.column?) := by
  have hfilter : (parts.filter fun p => !p.isEmpty).flatMap (List.filterMap Piece.column?) =
      parts.flatMap (List.filterMap Piece.column?) := by
    induction parts with
    | nil => rfl
    | cons l parts ih =>
      cases l with
      | nil => exact ih
      | cons p ps =>
        rw [List.filter_cons_of_pos rfl, List.flatMap_cons, List.flatMap_cons, ih]
  rcases clause_eq word sep parts with ⟨h, hempty⟩ | h
  · rw [h, List.filterMap_nil, eq_comm, List.flatMap_eq_nil_iff]
    intro l hl
    rw [hempty l hl]
    rfl
  · rw [h, List.filterMap_cons_none rfl, filterMap_separated, hfilter]

theorem of_mem_clause {word sep : String} {parts : List (List Piece)} {p : Piece}
    (h : p ∈ clause word sep parts) : (∃ t, p = .verbatim t) ∨ ∃ l ∈ parts, p ∈ l := by
  rcases clause_eq word sep parts with ⟨hnil, -⟩ | hcons
  · rw [hnil] at h
    cases h
  · rw [hcons] at h
    rcases List.mem_cons.1 h with rfl | h
    · exact Or.inl ⟨word, rfl⟩
    · refine (of_mem_separated h).imp (fun h => ⟨sep, h⟩) ?_
      rintro ⟨l, hl, hp⟩
      exact ⟨l, List.mem_of_mem_filter hl, hp⟩

theorem isPlain_orderPieces (o : ColumnRef × Bool) : ∀ p ∈ orderPieces o, p.IsPlain := by
  intro p hp
  rcases List.mem_append.1 hp with hp | hp
  · exact ColumnRef.isPlain_pieces o.1 p hp
  · split at hp
    · rw [List.mem_singleton.1 hp]
      rfl
    · cases hp

/-- The placeholders of a statement are named by the columns of its conditions and by its limit. -/
theorem filterMap_pieces (s : Statement) : s.pieces.filterMap Piece.column? =
    s.conditions.filterMap Condition.valueColumn? ++ s.limit.toList.map fun _ => "param" := by
  have hplain : (.verbatim "SELECT " :: separated ", " (s.columns.map OutputColumn.pieces) ++
      .verbatim " \nFROM " :: sourcePieces s.source).filterMap Piece.column? = [] := by
    rw [← pieces_plain]
    exact filterMap_column?_of_isPlain (isPlain_pieces_plain s.columns s.source)
  have hordering : (s.ordering.map orderPieces).flatMap (List.filterMap Piece.column?) = [] := by
    refine List.flatMap_eq_nil_iff.2 fun l hl => ?_
    obtain ⟨o, -, rfl⟩ := List.mem_map.1 hl
    exact filterMap_column?_of_isPlain (isPlain_orderPieces o)
  have hconditions : (s.conditions.map Condition.pieces).flatMap (List.filterMap Piece.column?) =
      s.conditions.filterMap Condition.valueColumn? := by
    rw [List.flatMap_map, List.filterMap_eq_flatMap_toList]
    exact List.flatMap_congr fun c _ => c.filterMap_pieces
  rw [pieces, List.filterMap_append, List.filterMap_append, List.filterMap_append, hplain,
    filterMap_clause, filterMap_clause, hordering, hconditions, List.nil_append, List.append_nil]
  cases s.limit <;> rfl

theorem generatedPlaceholders_eq (s : Statement) : s.generatedPlaceholders =
    generatedNames (s.conditions.filterMap Condition.valueColumn? ++
      s.limit.toList.map fun _ => "param") := by
  rw [generatedPlaceholders, numbered, filterMap_numberedFrom, filterMap_pieces, generatedNames]

/-- The names that raw texts use are those of the raw pieces. -/
theorem mem_namedPlaceholders_iff {s : Statement} {n : String} :
    n ∈ s.namedPlaceholders ↔ ∃ t : BoundText, .raw t ∈ s.pieces ∧ n ∈ t.placeholders := by
  rw [namedPlaceholders, List.mem_flatMap]
  constructor
  · rintro ⟨p, hp, hn⟩
    cases p with
    | raw t => exact ⟨t, hp, hn⟩
    | _ => cases hn
  · rintro ⟨t, ht, hn⟩
    exact ⟨.raw t, ht, hn⟩

theorem mapM_eq_error {α β : Type} {f : α → Except Fault β} {l : List α} {fault : Fault}
    (h : l.mapM f = .error fault) : ∃ x ∈ l, f x = .error fault := by
  induction l with
  | nil => cases h
  | cons x l ih =>
    rw [List.mapM_cons] at h
    cases hx : f x with
    | error e =>
      rw [hx] at h
      cases h
      exact ⟨x, List.mem_cons_self, hx⟩
    | ok y =>
      cases hl : l.mapM f with
      | ok ys =>
        rw [hx, hl] at h
        cases h
      | error e =>
        rw [hx, hl] at h
        cases h
        obtain ⟨x', hx', hfault⟩ := ih hl
        exact ⟨x', List.mem_cons_of_mem x hx', hfault⟩

/-- A statement that cannot be written has an empty identifier, or one name is both generated and
used by raw text. -/
theorem of_text_eq_error {s : Statement} {fault : Fault} (h : s.text = .error fault) :
    fault = .emptyIdentifier ∧ .identifier "" ∈ s.pieces ∨
      ∃ n ∈ s.generatedPlaceholders, n ∈ s.namedPlaceholders ∧ fault = .placeholderClash n := by
  rw [text] at h
  split at h
  · next f hm =>
    cases h
    obtain ⟨⟨p, name⟩, hp, hfault⟩ := mapM_eq_error hm
    have hpiece : p ∈ s.pieces := by
      rw [← numbered_map_fst s.pieces]
      exact List.mem_map_of_mem hp
    refine Or.inl ?_
    cases p with
    | identifier n =>
      rw [pieceText, identifierText] at hfault
      split at hfault
      · next hn =>
        subst hn
        cases hfault
        exact ⟨rfl, hpiece⟩
      · cases hfault
    | _ => cases hfault
  · split at h
    · next n hn =>
      cases h
      refine Or.inr ⟨n, List.mem_of_find?_eq_some hn, ?_, rfl⟩
      simpa using List.find?_some hn
    · cases h

end Statement

namespace Piece

/-- A piece that is neither an identifier nor raw text. -/
def IsNameless (p : Piece) : Prop := (∀ n, p ≠ .identifier n) ∧ ∀ t, p ≠ .raw t

theorem isNameless_verbatim (t : String) : (verbatim t).IsNameless := ⟨nofun, nofun⟩

theorem isNameless_truth (b : Bool) : (truth b).IsNameless := ⟨nofun, nofun⟩

theorem isNameless_value (column : String) (v : Value) : (value column v).IsNameless :=
  ⟨nofun, nofun⟩

theorem isNameless_values (column : String) (negated : Bool) (vs : List Value) :
    (values column negated vs).IsNameless :=
  ⟨nofun, nofun⟩

theorem isNameless_limit (count : Int) : (limit count).IsNameless := ⟨nofun, nofun⟩

end Piece

namespace Condition

/-- The operand that a condition tests. -/
def operand? : Condition → Option Operand
  | .raw _ => none
  | .isNull o _ => some o
  | .isTruth o _ _ => some o
  | .compare o _ _ => some o
  | .member o _ _ => some o

theorem operand?_of_make {o : Operand} {op : Comparison} {v : Value} {c : Condition}
    (h : make o op v = .ok c) : c.operand? = some o := by
  unfold make at h
  split at h
  · split at h
    · cases h
      rfl
    · cases h
  · split at h
    · cases h
      rfl
    · cases h
  all_goals
    cases h
    try rfl

/-- A condition that tests an operand names nothing else. -/
theorem of_mem_pieces {o : Operand} {c : Condition} (hc : c.operand? = some o) {p : Piece}
    (hp : p ∈ c.pieces) : p ∈ o.pieces ∨ p.IsNameless := by
  cases c with
  | raw t => cases hc
  | isNull o' negated =>
    cases hc
    refine (List.mem_append.1 hp).imp_right fun hp => ?_
    rw [List.mem_singleton.1 hp]
    exact Piece.isNameless_verbatim _
  | isTruth o' negated b =>
    cases hc
    refine (List.mem_append.1 hp).imp_right fun hp => ?_
    simp only [List.mem_cons, List.not_mem_nil, or_false] at hp
    rcases hp with rfl | rfl
    · exact Piece.isNameless_verbatim _
    · exact Piece.isNameless_truth b
  | compare o' op v =>
    cases hc
    refine (List.mem_append.1 hp).imp_right fun hp => ?_
    simp only [List.mem_cons, List.not_mem_nil, or_false] at hp
    rcases hp with rfl | rfl
    · exact Piece.isNameless_verbatim _
    · exact Piece.isNameless_value _ v
  | member o' negated vs =>
    cases hc
    cases negated with
    | false =>
      refine (List.mem_append.1 hp).imp_right fun hp => ?_
      simp only [List.mem_cons, List.not_mem_nil, or_false] at hp
      rcases hp with rfl | rfl
      · exact Piece.isNameless_verbatim _
      · exact Piece.isNameless_values _ _ vs
    | true =>
      rcases List.mem_cons.1 hp with rfl | hp
      · exact Or.inr (Piece.isNameless_verbatim _)
      · refine (List.mem_append.1 hp).imp_right fun hp => ?_
        simp only [List.mem_cons, List.not_mem_nil, or_false] at hp
        rcases hp with rfl | rfl | rfl
        · exact Piece.isNameless_verbatim _
        · exact Piece.isNameless_values _ _ vs
        · exact Piece.isNameless_verbatim _

end Condition

end NestedJoin.Sql
