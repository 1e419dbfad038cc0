import NestedJoin.Proofs.JoinTrees
import NestedJoin.Proofs.Writing
set_option autoImplicit false

/-!
# Join conditions in printed statements

A statement is printed piece by piece, so what is printed for the condition of a join stands in the
statement as it would alone.  Whether values have placeholders or are written out makes a
difference to raw text only.

Main statements: `Sql.Statement.text_join` and `Sql.Statement.literal_join`.
-/

namespace NestedJoin

namespace Sql

/-! ## Writing parts -/

theorem toList_intercalate_nothing (ts : List String) :
    ("".intercalate ts).toList = ts.flatMap String.toList := by
  rw [String.toList_intercalate, List.flatMap, String.toList_empty]
  generalize ts.map String.toList = css
  induction css with
  | nil => rfl
  | cons cs css ih =>
    cases css with
    | nil => simp
    | cons ds css => rw [List.intercalate_cons_cons, ih, List.append_nil, ← List.flatten_cons]

theorem intercalate_nothing_append (ts us : List String) :
    "".intercalate (ts ++ us) = "".intercalate ts ++ "".intercalate us := by
  rw [← String.toList_inj, String.toList_append, toList_intercalate_nothing,
    toList_intercalate_nothing, toList_intercalate_nothing, List.flatMap_append]

section Written

variable {α : Type} {write : α → Except Fault String}

/-- What is written for some things one after the other. -/
def written (write : α → Except Fault String) (xs : List α) : Except Fault String :=
  (xs.mapM write).map "".intercalate

/-- Parts are written one after the other. -/
theorem written_append_eq_ok {xs ys : List α} {t : String} (h : written write (xs ++ ys) = .ok t) :
    ∃ t₁ t₂, written write xs = .ok t₁ ∧ written write ys = .ok t₂ ∧ t = t₁ ++ t₂ := by
  rw [written, List.mapM_append] at h
  unfold written
  cases hx : xs.mapM write with
  | error f =>
    rw [hx] at h
    cases h
  | ok ts =>
    cases hy : ys.mapM write with
    | error f =>
      rw [hx, hy] at h
      cases h
    | ok us =>
      rw [hx, hy] at h
      cases h
      exact ⟨_, _, rfl, rfl, intercalate_nothing_append ts us⟩

theorem written_singleton_eq_ok {x : α} {t : String} (h : written write [x] = .ok t) :
    write x = .ok t := by
  rw [written, List.mapM_cons, List.mapM_nil] at h
  cases hx : write x with
  | error f =>
    rw [hx] at h
    cases h
  | ok t' =>
    rw [hx] at h
    exact h

theorem written_cons_eq_ok {x : α} {xs : List α} {t : String}
    (h : written write (x :: xs) = .ok t) :
    ∃ t₁ t₂, write x = .ok t₁ ∧ written write xs = .ok t₂ ∧ t = t₁ ++ t₂ := by
  have happend : written write ([x] ++ xs) = .ok t := h
  obtain ⟨t₁, t₂, h₁, h₂, rfl⟩ := written_append_eq_ok happend
  exact ⟨t₁, t₂, written_singleton_eq_ok h₁, h₂, rfl⟩

end Written

/-! ## Conditions of joins -/

/-- A column of a named source as it is written. -/
def ColumnRef.written (d : Dialect) (r : ColumnRef) : String :=
  identifier d r.owner ++ "." ++ identifier d r.column

/-- A pair of columns as it is written. -/
def pairWritten (d : Dialect) (p : ColumnRef × ColumnRef) : String :=
  ColumnRef.written d p.1 ++ " = " ++ ColumnRef.written d p.2

/-- The condition of a join as it is written, with `f` writing the placeholders of raw text. -/
def OnClause.written (d : Dialect) (f : String → Option Value → String) (c : OnClause) : String :=
  " AND ".intercalate (c.pairs.map (pairWritten d) ++ c.extra.toList.map fun t => t.print d f)

/-- Pieces are written as they are, names with quotes where needed, and raw text printed. -/
structure Writes (d : Dialect) (write : Piece → Except Fault String)
    (f : String → Option Value → String) : Prop where
  verbatim : ∀ t, write (.verbatim t) = .ok t
  identifier : ∀ n t, write (.identifier n) = .ok t → t = identifier d n
  raw : ∀ b t, write (.raw b) = .ok t → t = b.print d f

namespace Writes

variable {d : Dialect} {write : Piece → Except Fault String} {f : String → Option Value → String}
  (h : Writes d write f)

include h

theorem verbatim_cons {s t : String} {ps : List Piece}
    (ht : Sql.written write (.verbatim s :: ps) = .ok t) :
    ∃ t', Sql.written write ps = .ok t' ∧ t = s ++ t' := by
  obtain ⟨t₁, t₂, h₁, h₂, rfl⟩ := written_cons_eq_ok ht
  rw [h.verbatim] at h₁
  cases h₁
  exact ⟨t₂, h₂, rfl⟩

theorem column {r : ColumnRef} {t : String} (ht : Sql.written write (ColumnRef.pieces r) = .ok t) :
    t = ColumnRef.written d r := by
  obtain ⟨t₁, t₂, howner, hpoint, rfl⟩ := written_cons_eq_ok ht
  obtain ⟨t₃, hname, rfl⟩ := h.verbatim_cons hpoint
  rw [h.identifier _ _ howner, h.identifier _ _ (written_singleton_eq_ok hname), ColumnRef.written,
    String.append_assoc]

theorem pair {p : ColumnRef × ColumnRef} {t : String}
    (ht : Sql.written write (ColumnRef.pieces p.1 ++ .verbatim " = " :: ColumnRef.pieces p.2) =
      .ok t) : t = pairWritten d p := by
  obtain ⟨t₁, t₂, hown, hrest, rfl⟩ := written_append_eq_ok ht
  obtain ⟨t₃, href, rfl⟩ := h.verbatim_cons hrest
  rw [h.column hown, h.column href, pairWritten, String.append_assoc]

/-- Separated parts are written with the separator between them. -/
theorem separated {sep t : String} {qs : List (List Piece × String)}
    (hqs : ∀ q ∈ qs, ∀ t, Sql.written write q.1 = .ok t → t = q.2)
    (ht : Sql.written write (separated sep (qs.map Prod.fst)) = .ok t) :
    t = sep.intercalate (qs.map Prod.snd) := by
  induction qs generalizing t with
  | nil =>
    cases ht
    rfl
  | cons q qs ih =>
    have hq := hqs q List.mem_cons_self
    cases qs with
    | nil =>
      rw [hq t ht]
      rfl
    | cons q' qs =>
      obtain ⟨t₁, t₂, h₁, h₂, rfl⟩ := written_append_eq_ok ht
      obtain ⟨t₃, h₃, rfl⟩ := h.verbatim_cons h₂
      rw [hq t₁ h₁, ih (fun r hr => hqs r (List.mem_cons_of_mem q hr)) h₃, List.map_cons,
        List.map_cons, List.map_cons, String.intercalate_cons_cons, String.append_assoc]

/-- The condition of a join is written in one way. -/
theorem onClause {c : OnClause} {t : String} (ht : Sql.written write c.pieces = .ok t) :
    t = c.written d f := by
  let qs : List (List Piece × String) :=
    c.pairs.map (fun p => (ColumnRef.pieces p.1 ++ .verbatim " = " :: ColumnRef.pieces p.2,
      pairWritten d p)) ++ c.extra.toList.map fun b => ([.raw b], b.print d f)
  have hpieces : c.pieces = Sql.separated " AND " (qs.map Prod.fst) := by
    simp only [qs, OnClause.pieces, List.map_append, List.map_map, Function.comp_def]
  have hwritten : c.written d f = " AND ".intercalate (qs.map Prod.snd) := by
    simp only [qs, OnClause.written, List.map_append, List.map_map, Function.comp_def]
  rw [hpieces] at ht
  rw [hwritten]
  refine h.separated (fun q hq t hqt => ?_) ht
  rcases List.mem_append.1 hq with hq | hq
  · obtain ⟨p, -, rfl⟩ := List.mem_map.1 hq
    exact h.pair hqt
  · obtain ⟨b, -, rfl⟩ := List.mem_map.1 hq
    exact h.raw b t (written_singleton_eq_ok hqt)

end Writes

/-! ## Joins in statements -/

/-- The condition of every join of a source stands among its pieces. -/
theorem exists_sourcePieces_join {s : Source OnClause} {j : Source.JoinNode OnClause}
    (hj : j ∈ s.joins) :
    ∃ pre post, sourcePieces s = pre ++ .verbatim " ON " :: (j.on.pieces ++ post) := by
  induction s with
  | table n cs => cases hj
  | aliased n s => cases hj
  | query place n s => cases hj
  | grouped s ih =>
    obtain ⟨pre, post, hs⟩ := ih hj
    refine ⟨.verbatim "(" :: pre, post ++ [.verbatim ")"], ?_⟩
    simp only [sourcePieces, hs, List.cons_append, List.append_assoc]
  | join l r outer on ihl ihr =>
    simp only [Source.joins, List.mem_append, List.mem_singleton] at hj
    rcases hj with (hj | hj) | rfl
    · obtain ⟨pre, post, hs⟩ := ihl hj
      refine ⟨pre, post ++ .verbatim (if outer then " LEFT OUTER JOIN " else " JOIN ") ::
        (sourcePieces r ++ .verbatim " ON " :: on.pieces), ?_⟩
      simp only [sourcePieces, hs, List.cons_append, List.append_assoc]
    · obtain ⟨pre, post, hs⟩ := ihr hj
      refine ⟨sourcePieces l ++ .verbatim (if outer then " LEFT OUTER JOIN " else " JOIN ") :: pre,
        post ++ .verbatim " ON " :: on.pieces, ?_⟩
      simp only [sourcePieces, hs, List.cons_append, List.append_assoc]
    · refine ⟨sourcePieces l ++ .verbatim (if outer then " LEFT OUTER JOIN " else " JOIN ") ::
        sourcePieces r, [], ?_⟩
      simp only [sourcePieces, List.cons_append, List.append_assoc, List.append_nil]

namespace Statement

variable {s : Statement} {t : String} {j : Source.JoinNode OnClause}

/-- The condition of every join of a statement stands among its pieces. -/
theorem exists_pieces_join (hj : j ∈ s.source.joins) :
    ∃ pre post, s.pieces = pre ++ .verbatim " ON " :: (j.on.pieces ++ post) := by
  obtain ⟨pre, post, hs⟩ := exists_sourcePieces_join hj
  refine ⟨.verbatim "SELECT " :: separated ", " (s.columns.map OutputColumn.pieces) ++
    .verbatim " \nFROM " :: pre,
    post ++ clause " \nWHERE " " AND " (s.conditions.map Condition.pieces) ++
      clause " ORDER BY " ", " (s.ordering.map orderPieces) ++ s.limit.toList.map Piece.limit, ?_⟩
  rw [pieces, hs]
  simp only [List.cons_append, List.append_assoc]

end Statement

/-- Pieces are numbered one after the other. -/
theorem numberedFrom_append (used : List String) (cut : Nat) (ps qs : List Piece) :
    ∃ used' cut', numberedFrom used cut (ps ++ qs) =
      numberedFrom used cut ps ++ numberedFrom used' cut' qs := by
  induction ps generalizing used cut with
  | nil => exact ⟨used, cut, rfl⟩
  | cons p ps ih =>
    simp only [List.cons_append, numberedFrom]
    cases p.column? with
    | none =>
      obtain ⟨used', cut', h⟩ := ih used cut
      exact ⟨used', cut', by simp only [h, List.cons_append]⟩
    | some c =>
      dsimp only
      split
      · obtain ⟨used', cut', h⟩ := ih (placeholderBase c :: used) cut
        exact ⟨used', cut', by simp only [h, List.cons_append]⟩
      · obtain ⟨used', cut', h⟩ := ih (placeholderBase c :: used) (cut + 1)
        exact ⟨used', cut', by simp only [h, List.cons_append]⟩

theorem numberedFrom_eq_map_of_isPlain {used : List String} {cut : Nat} {ps : List Piece}
    (h : ∀ p ∈ ps, p.IsPlain) : numberedFrom used cut ps = ps.map fun p => (p, none) := by
  induction ps with
  | nil => rfl
  | cons p ps ih =>
    have hp : p.column? = none := h p List.mem_cons_self
    simp only [numberedFrom, hp, List.map_cons, ih fun q hq => h q (List.mem_cons_of_mem p hq)]

theorem written_map {α β : Type} (write : β → Except Fault String) (f : α → β) (xs : List α) :
    written write (xs.map f) = written (fun x => write (f x)) xs := by
  rw [written, List.mapM_map]
  rfl

namespace Statement

variable {s : Statement} {t : String} {j : Source.JoinNode OnClause}

theorem identifierText_eq_ok {d : Dialect} {n : String} (h : identifierText d n = .ok t) :
    t = identifier d n := by
  rw [identifierText] at h
  split at h
  · cases h
  · exact (Except.ok.inj h).symm

theorem writes_pieceText :
    Writes .standard (fun p => pieceText (p, none)) fun n _ => ":" ++ n where
  verbatim _ := rfl
  identifier _ _ ht := identifierText_eq_ok ht
  raw _ _ ht := (Except.ok.inj ht).symm

theorem writes_pieceLiteral (d : Dialect) :
    Writes d (pieceLiteral d) fun _ v => rawLiteral d v where
  verbatim _ := rfl
  identifier _ _ ht := identifierText_eq_ok ht
  raw b t ht := by
    rw [pieceLiteral] at ht
    split at ht
    · cases ht
    · exact (Except.ok.inj ht).symm

/-- Plain pieces in the middle of a statement are written there as they would be alone. -/
theorem text_middle (h : s.text = .ok t) {pre mid post : List Piece}
    (hs : s.pieces = pre ++ (mid ++ post)) (hplain : ∀ p ∈ mid, p.IsPlain) :
    ∃ t₁ t₂ t₃, written (fun p => pieceText (p, none)) mid = .ok t₂ ∧ t = t₁ ++ t₂ ++ t₃ ∧
      (post = [] → t₃ = "") := by
  have hall : written pieceText (numbered s.pieces) = .ok t := by
    rw [text] at h
    unfold written
    split at h
    · cases h
    · next ts hts =>
      rw [hts]
      split at h
      · cases h
      · exact h
  obtain ⟨used, cut, hsplit⟩ := numberedFrom_append [] 0 pre (mid ++ post)
  obtain ⟨used', cut', hsplit'⟩ := numberedFrom_append used cut mid post
  rw [numbered, hs, hsplit, hsplit', numberedFrom_eq_map_of_isPlain hplain] at hall
  obtain ⟨t₁, t₂, -, hrest, rfl⟩ := written_append_eq_ok hall
  obtain ⟨t₃, t₄, hmid, hpost, rfl⟩ := written_append_eq_ok hrest
  rw [written_map] at hmid
  refine ⟨t₁, t₃, t₄, hmid, by simp only [String.append_assoc], ?_⟩
  rintro rfl
  exact (Except.ok.inj hpost).symm

/-- In the statement with placeholders a join's condition stands after the word ON. -/
theorem text_join (h : s.text = .ok t) (hj : j ∈ s.source.joins) :
    ∃ pre post, t = pre ++ " ON " ++ j.on.written .standard (fun n _ => ":" ++ n) ++ post := by
  obtain ⟨pre, post, hs⟩ := exists_pieces_join hj
  have hplain : ∀ p ∈ Piece.verbatim " ON " :: j.on.pieces, p.IsPlain := by
    intro p hp
    rcases List.mem_cons.1 hp with rfl | hp
    · rfl
    · exact j.on.isPlain_pieces p hp
  obtain ⟨t₁, t₂, t₃, hon, rfl, -⟩ := text_middle h hs hplain
  obtain ⟨t₄, hpieces, rfl⟩ := writes_pieceText.verbatim_cons hon
  refine ⟨t₁, t₃, ?_⟩
  rw [writes_pieceText.onClause hpieces]
  simp only [String.append_assoc]

/-- In the statement with every value written out a join's condition stands after the word ON, and
the values of the placeholders in it have literals. -/
theorem literal_join {d : Dialect} (h : s.literal d = .ok t) (hj : j ∈ s.source.joins) :
    (∃ pre post, t = pre ++ " ON " ++ j.on.written d (fun _ v => rawLiteral d v) ++ post) ∧
      ∀ b ∈ j.on.extra, rawFault? d b = none := by
  obtain ⟨pre, post, hs⟩ := exists_pieces_join hj
  have hall : written (pieceLiteral d) s.pieces = .ok t := h
  rw [hs] at hall
  obtain ⟨t₁, t₂, -, hrest, rfl⟩ := written_append_eq_ok hall
  obtain ⟨t₃, honward, rfl⟩ := (writes_pieceLiteral d).verbatim_cons hrest
  obtain ⟨t₄, t₅, hon, -, rfl⟩ := written_append_eq_ok honward
  refine ⟨⟨t₁, t₅, ?_⟩, fun b hb => ?_⟩
  · rw [(writes_pieceLiteral d).onClause hon]
    simp only [String.append_assoc]
  · have hraw : Piece.raw b ∈ j.on.pieces := by
      refine mem_separated (List.mem_append_right _ ?_) (List.mem_singleton.2 rfl)
      exact List.mem_map_of_mem (Option.mem_toList.2 hb)
    obtain ⟨ts, hts⟩ : ∃ ts, j.on.pieces.mapM (pieceLiteral d) = .ok ts := by
      unfold written at hon
      cases hts : j.on.pieces.mapM (pieceLiteral d) with
      | error f =>
        rw [hts] at hon
        cases hon
      | ok ts => exact ⟨ts, rfl⟩
    obtain ⟨t, ht⟩ := exists_mapM_iff.1 ⟨ts, hts⟩ _ hraw
    rw [pieceLiteral] at ht
    split at ht
    · cases ht
    · assumption

end Statement

end Sql

/-! ## Joins of compiled graphs -/

namespace Graph

open Sql

variable {g : Graph}

/-- Every edge has its condition among the joins. -/
theorem exists_join_joined (params : OrderedMap String Value) (root : Vertex) {es : List Edge}
    {e : Edge} (he : e ∈ es) : ∃ j ∈ (joined params root es).joins, j.on = e.matching params := by
  have hjoin : ∀ (acc : Source OnClause) (e' : Edge) (on : OnClause) (j : Source.JoinNode OnClause),
      j ∈ acc.joins → j ∈ (joinLeaf acc (leaf e'.child) e'.joinType on).joins := by
    intro acc e' on j hj
    unfold joinLeaf
    cases e'.joinType with
    | inner => exact List.mem_append_left _ (List.mem_append_left _ hj)
    | left => exact List.mem_append_left _ (List.mem_append_left _ hj)
    | right =>
      refine List.mem_append_left _ (List.mem_append_right _ ?_)
      rwa [Source.joins_bracketed]
  induction es using List.reverseRecOn with
  | nil => cases he
  | append_singleton es e' ih =>
    rw [joined_concat]
    rcases List.mem_append.1 he with he | he
    · obtain ⟨j, hj, hon⟩ := ih he
      exact ⟨j, hjoin _ _ _ j hj, hon⟩
    · obtain rfl := List.mem_singleton.1 he
      unfold joinLeaf
      cases e.joinType <;> exact ⟨_, List.mem_append_right _ List.mem_cons_self, rfl⟩

/-- A compiled graph takes along the merged parameters of its edges. -/
theorem params_compile {filters : List Filter} {chains : KeyChains} {c : Compiled}
    (h : (g.compile filters chains).outcome = .ok c) :
    c.params = (Parameters.ofEdges g.edges).values := by
  cases hroot : g.root with
  | none =>
    simp only [compile, hroot] at h
    cases h
  | some root =>
    rw [outcome_compile_eq_map hroot] at h
    cases hs : g.statement root (Parameters.ofEdges g.edges).values filters with
    | error f =>
      rw [hs] at h
      cases h
    | ok s =>
      rw [hs] at h
      cases h
      rfl

/-- A compiled graph joins every edge under the edge's own condition. -/
theorem exists_join_compiled {filters : List Filter} {chains : KeyChains} {c : Compiled}
    (h : (g.compile filters chains).outcome = .ok c) {e : Edge} (he : e ∈ g.edges) :
    ∃ j ∈ c.statement.source.joins, j.on = e.matching (Parameters.ofEdges g.edges).values := by
  cases hroot : g.root with
  | none =>
    simp only [compile, hroot] at h
    cases h
  | some root =>
    rw [outcome_compile_eq_map hroot, statement, source_eq] at h
    cases hlost : (joinPairs g.edges).find? g.isLost with
    | some q =>
      rw [hlost] at h
      cases h
    | none =>
      rw [hlost] at h
      change (Filter.applyAll _ filters).map g.compiledAs = _ at h
      obtain ⟨j, hj, hon⟩ :=
        exists_join_joined (Parameters.ofEdges g.edges).values root he
      let unfiltered : Statement :=
        { columns := g.outputColumns
          source := joined (Parameters.ofEdges g.edges).values root g.edges }
      cases hs : Filter.applyAll unfiltered filters with
      | error f =>
        rw [hs] at h
        cases h
      | ok s =>
        rw [hs] at h
        cases h
        refine ⟨j, ?_, hon⟩
        show j ∈ s.source.joins
        rwa [(Filter.applyAll_source hs).1]

end Graph

end NestedJoin
