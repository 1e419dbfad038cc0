import NestedJoin.Proofs.Connectives
import NestedJoin.Proofs.Overriding
set_option autoImplicit false

/-!
# What the placeholders of extra conditions are bound to

The extra condition of an edge is printed part by part.  Its placeholders are told by the characters
around them, and each shows the value that the merged parameters have for its name.  A name in front
of a colon is no placeholder, as it would be before a type cast, unless the colons are escaped.

Main statement: `Graph.placeholders_bound`.
-/

namespace NestedJoin

open Sql Text

/-! ## Blanks around placeholders -/

namespace Text

/-- A blank belongs to no name. -/
theorem isWord_of_isBlank {c : Char} (h : isBlank c = true) : isWord c = false := by
  have hascii : ∀ k < 0x80, isBlank (Char.ofNat k) = true → isWord (Char.ofNat k) = false := by
    decide +kernel
  by_cases hc : c.toNat < 0x80
  · have hk := hascii c.toNat hc
    rw [Char.ofNat_toNat] at hk
    exact hk h
  · have hapart : ∀ r ∈ blankRanges, ∀ s ∈ wordRanges, r.2 < s.1 ∨ s.2 < r.1 := by decide +kernel
    rw [isWord, if_neg hc]
    refine eq_false_of_ne_true fun hword => ?_
    obtain ⟨r, hr, hfrom, hto⟩ := (CharRanges.holds_iff _ _).1 h
    obtain ⟨s, hs, hfrom', hto'⟩ := (CharRanges.holds_iff _ _).1 hword
    have hrs := hapart r hr s hs
    omega

end Text

section Blanks

variable {cs lead trail pre n post : List Char}

/-- A blank may stand in front of a placeholder. -/
theorem before_of_isBlank {c : Char} (h : isBlank c = true) :
    isWord c = false ∧ c ≠ ':' ∧ c ≠ '\\' ∧ c ≠ '$' := by
  refine ⟨isWord_of_isBlank h, ?_⟩
  refine ⟨?_, ?_, ?_⟩ <;> rintro rfl <;> revert h <;> decide

theorem placeholderAt_append_iff (hlead : ':' ∉ lead)
    (hlast : ∀ c ∈ lead.getLast?, isBlank c = true) :
    PlaceholderAt (lead ++ cs) pre n post ↔ ∃ pre', pre = lead ++ pre' ∧
      PlaceholderAt cs pre' n post := by
  have hbefore : ∀ pre' : List Char,
      (∀ c ∈ (lead ++ pre').getLast?, isWord c = false ∧ c ≠ ':' ∧ c ≠ '\\' ∧ c ≠ '$') ↔
        ∀ c ∈ pre'.getLast?, isWord c = false ∧ c ≠ ':' ∧ c ≠ '\\' ∧ c ≠ '$' := by
    intro pre'
    rw [List.getLast?_append]
    cases pre'.getLast? with
    | none => exact iff_of_true (fun c hc => before_of_isBlank (hlast c hc)) nofun
    | some c => rfl
  constructor
  · intro h
    obtain ⟨pre', rfl, hcs⟩ := exists_of_append_eq_append_cons hlead h.text_eq
    exact ⟨pre', rfl, hcs, h.ne_nil, h.word, (hbefore pre').1 h.before, h.after⟩
  · rintro ⟨pre', rfl, h⟩
    refine ⟨?_, h.ne_nil, h.word, (hbefore pre').2 h.before, h.after⟩
    rw [h.text_eq, List.append_assoc]

theorem placeholderAt_append_blanks_iff (htrail : AreBlank trail) :
    PlaceholderAt (cs ++ trail) pre n post ↔ ∃ post', post = post' ++ trail ∧
      PlaceholderAt cs pre n post' := by
  have hafter : ∀ post' : List Char,
      (∀ c ∈ (post' ++ trail).head?, isWord c = false ∧ c ≠ ':' ∧ c ≠ '$') ↔
        ∀ c ∈ post'.head?, isWord c = false ∧ c ≠ ':' ∧ c ≠ '$' := by
    intro post'
    cases post' with
    | nil =>
      refine iff_of_true (fun c hc => ?_) nofun
      obtain ⟨hword, hcolon, -, hdollar⟩ := before_of_isBlank (htrail c (List.mem_of_mem_head? hc))
      exact ⟨hword, hcolon, hdollar⟩
    | cons c post' => rfl
  constructor
  · intro h
    have htext : cs ++ trail = (pre ++ ':' :: n) ++ post := by
      rw [h.text_eq, List.append_assoc, List.cons_append]
    rcases List.append_eq_append_iff.1 htext with ⟨more, hname, hblanks⟩ | ⟨post', hcs, hpost⟩
    · -- the last character of a name is no blank
      obtain ⟨m, c, rfl⟩ := (List.eq_nil_or_concat' n).resolve_left h.ne_nil
      rcases List.eq_nil_or_concat' more with rfl | ⟨more, d, rfl⟩
      · refine ⟨[], hblanks.symm, ?_, h.ne_nil, h.word, h.before, nofun⟩
        rw [List.append_nil] at hname ⊢
        exact hname.symm
      · have hend : (pre ++ ':' :: m) ++ [c] = (cs ++ more) ++ [d] := by simpa using hname
        obtain rfl := List.singleton_inj.1 (List.append_inj' hend rfl).2
        have hblank : isBlank c = true := htrail c (by rw [hblanks]; simp)
        have hword := h.word c (List.mem_append_right m List.mem_cons_self)
        rw [isWord_of_isBlank hblank] at hword
        cases hword
    · refine ⟨post', hpost, ?_, h.ne_nil, h.word, h.before, ?_⟩
      · rw [hcs, List.append_assoc, List.cons_append]
      · exact (hafter post').1 (hpost ▸ h.after)
  · rintro ⟨post', rfl, h⟩
    refine ⟨?_, h.ne_nil, h.word, h.before, (hafter post').2 h.after⟩
    rw [h.text_eq, List.append_assoc, List.cons_append, List.append_assoc]

end Blanks

/-! ## Parts of an extra condition -/

/-- The parts of an extra condition, and what is dropped in front of them and behind. -/
structure ConditionParts (condition : String) (lead : List Char) (ps : List RawPart)
    (trail : List Char) : Prop where
  text_eq : condition.toList = lead ++ ps.flatMap RawPart.text ++ trail
  /-- what is left is what goes into the join -/
  divides : Divides (names (strip (dropLeadingAnd condition.toList))) textStart
    (strip (dropLeadingAnd condition.toList)) ps
  /-- no placeholder is lost, and nothing else is taken for one -/
  placeholderAt_iff : ∀ pre n post, PlaceholderAt condition.toList pre n post ↔
    ∃ l r, ps = l ++ .placeholder n :: r ∧ pre = lead ++ l.flatMap RawPart.text ∧
      post = r.flatMap RawPart.text ++ trail

theorem exists_conditionParts (condition : String) :
    ∃ lead ps trail, ConditionParts condition lead ps trail := by
  obtain ⟨lead, trail, htext, hlead, hlast, htrail⟩ := exists_dropped condition.toList
  obtain ⟨ps, hps⟩ := exists_divides (names (strip (dropLeadingAnd condition.toList))) textStart
    (strip (dropLeadingAnd condition.toList))
  refine ⟨lead, ps, trail, ?_, hps, fun pre n post => ?_⟩
  · rw [hps.text_eq, ← htext]
  · rw [htext, placeholderAt_append_blanks_iff htrail]
    simp only [placeholderAt_append_iff hlead hlast, hps.placeholderAt_iff]
    constructor
    · rintro ⟨-, rfl, -, rfl, l, r, rfl, rfl, rfl⟩
      exact ⟨l, r, rfl, rfl, rfl⟩
    · rintro ⟨l, r, rfl, rfl, rfl⟩
      exact ⟨_, rfl, _, rfl, l, r, rfl, rfl, rfl⟩

namespace ConditionParts

variable {condition : String} {lead trail : List Char} {ps : List RawPart}

theorem mem_iff (h : ConditionParts condition lead ps trail) {n : List Char} :
    .placeholder n ∈ ps ↔ ∃ pre post, PlaceholderAt condition.toList pre n post := by
  simp only [h.placeholderAt_iff]
  constructor
  · intro hn
    obtain ⟨l, r, rfl⟩ := List.append_of_mem hn
    exact ⟨_, _, l, r, rfl, rfl, rfl⟩
  · rintro ⟨-, -, l, r, rfl, -⟩
    exact List.mem_append_right l List.mem_cons_self

/-- Nothing goes into the join exactly if there are no parts. -/
theorem extraText?_eq_none_iff (h : ConditionParts condition lead ps trail) :
    extraText? (some condition) = none ↔ ps = [] := by
  rw [NestedJoin.extraText?_eq_none_iff, ← h.divides.text_eq]
  cases ps with
  | nil => exact iff_of_true rfl rfl
  | cons p ps => cases p <;> exact iff_of_false (List.cons_ne_nil _ _) (List.cons_ne_nil _ _)

variable {text : String} (htext : extraText? (some condition) = some text)

include htext

theorem divides_text (h : ConditionParts condition lead ps trail) :
    Divides (names text.toList) textStart text.toList ps :=
  (extraText?_eq_some_iff.1 htext).1 ▸ h.divides

/-- The placeholders among the parts are those of the bound text. -/
theorem mem_placeholders_iff (h : ConditionParts condition lead ps trail)
    (params : OrderedMap String Value) {n : List Char} :
    String.ofList n ∈ (BoundText.bind params text).placeholders ↔ .placeholder n ∈ ps := by
  have hinjective : Function.Injective String.ofList := fun _ _ => String.ofList_inj.1
  rw [show (BoundText.bind params text).placeholders =
    (Sql.placeholders text.toList).map String.ofList from rfl, List.mem_map_of_injective hinjective,
    Sql.mem_placeholders_iff]
  simp only [(h.divides_text htext).placeholderAt_iff]
  constructor
  · rintro ⟨-, -, l, r, rfl, -⟩
    exact List.mem_append_right l List.mem_cons_self
  · intro hn
    obtain ⟨l, r, rfl⟩ := List.append_of_mem hn
    exact ⟨_, _, l, r, rfl, rfl, rfl⟩

/-- Each of them finds what the parameters have for its name. -/
theorem lookup_eq (h : ConditionParts condition lead ps trail) (params : OrderedMap String Value)
    {n : List Char} (hn : .placeholder n ∈ ps) :
    (BoundText.bind params text).values.lookup (String.ofList n) = params.get? (String.ofList n) :=
  BoundText.lookup_bind_eq
    (BoundText.mem_nameList_of_mem_placeholders ((h.mem_placeholders_iff htext params).2 hn))

/-- The bound text is printed part by part. -/
theorem print_eq (h : ConditionParts condition lead ps trail) (params : OrderedMap String Value)
    (d : Dialect) (f : String → Option Value → String) : (BoundText.bind params text).print d f =
      String.ofList (unescape (ps.flatMap (RawPart.shown d fun n =>
        (f (String.ofList n) (params.get? (String.ofList n))).toList))) := by
  have hdivides := h.divides_text htext
  have hshown : ∀ p ∈ ps, p.shown d (fun n => (f (String.ofList n)
      ((BoundText.bind params text).values.lookup (String.ofList n))).toList) =
      p.shown d fun n => (f (String.ofList n) (params.get? (String.ofList n))).toList := by
    intro p hp
    cases p with
    | copied c => rfl
    | placeholder n => rw [RawPart.shown, RawPart.shown, h.lookup_eq htext params hp]
  rw [BoundText.print, printRaw, show (BoundText.bind params text).text = text from rfl,
    hdivides.replaceFrom_eq, List.flatMap_congr hshown]

end ConditionParts

namespace Graph

/-- The raw texts in what a graph reads from are the extra conditions of its edges. -/
theorem raw_mem_joined_iff {params : OrderedMap String Value} {root : Vertex} {es : List Edge}
    {b : BoundText} : .raw b ∈ sourcePieces (joined params root es) ↔
      ∃ e ∈ es, b ∈ (e.matching params).extra := by
  have hleaf : ∀ v, .raw b ∉ sourcePieces (leaf v) := by
    intro v
    show .raw b ∉ [Piece.identifier v.table.name, .verbatim " AS ", .identifier v.aliasName]
    simp
  induction es using List.reverseRecOn with
  | nil => exact iff_of_false (hleaf root) fun ⟨e, he, _⟩ => nomatch he
  | append_singleton es e ih =>
    rw [joined_concat, mem_sourcePieces_joinLeaf_iff (p := .raw b) nofun,
      or_iff_right (hleaf e.child), OnClause.raw_mem_pieces_iff]
    refine (or_congr_left ih).trans ?_
    simp only [List.mem_append, List.mem_singleton, or_and_right, exists_or, exists_eq_left]

variable {g : Graph} {filters : List Filter} {chains : KeyChains} {c : Compiled} {e : Edge}
  {condition : String} {lead trail : List Char} {ps : List RawPart}

/-- The extra condition of an edge is written part by part. -/
theorem toList_extraWritten (hcondition : e.condition = some condition)
    (hparts : ConditionParts condition lead ps trail) (d : Dialect)
    (params : OrderedMap String Value) (f : String → Option Value → String) :
    (e.extraWritten d params f).toList =
      if ps = [] then [] else [String.ofList (unescape (ps.flatMap (RawPart.shown d fun n =>
        (f (String.ofList n) (params.get? (String.ofList n))).toList)))] := by
  rw [Edge.extraWritten, hcondition]
  cases htext : extraText? (some condition) with
  | none =>
    rw [if_pos (hparts.extraText?_eq_none_iff.1 htext)]
    rfl
  | some text =>
    have hne : ps ≠ [] := fun hnil => by
      rw [hparts.extraText?_eq_none_iff.2 hnil] at htext
      cases htext
    rw [if_neg hne, ← hparts.print_eq htext]
    rfl

/-- An edge with a placeholder in its extra condition is joined under a bound text. -/
theorem exists_extra_matching (hcondition : e.condition = some condition)
    (hparts : ConditionParts condition lead ps trail) (params : OrderedMap String Value)
    {n : List Char} (hn : .placeholder n ∈ ps) : ∃ text, extraText? (some condition) = some text ∧
      (e.matching params).extra = some (BoundText.bind params text) := by
  cases htext : extraText? (some condition) with
  | none =>
    rw [hparts.extraText?_eq_none_iff.1 htext] at hn
    cases hn
  | some text =>
    refine ⟨text, rfl, ?_⟩
    rw [Edge.matching, hcondition, htext]
    rfl

/-- In a statement with every value written out, a placeholder's value has a literal. -/
theorem valueLiteral_of_literal (hc : (g.compile filters chains).outcome = .ok c) (he : e ∈ g.edges)
    (hcondition : e.condition = some condition) (hparts : ConditionParts condition lead ps trail)
    {d : Dialect} {sql : String} (hsql : c.statement.literal d = .ok sql) {n : List Char}
    (hn : .placeholder n ∈ ps) {m : Value} (hm : c.params.get? (String.ofList n) = some m) :
    valueLiteral d m = .ok (Statement.rawLiteral d (c.params.get? (String.ofList n))) := by
  obtain ⟨j, hj, hon⟩ := exists_join_compiled hc he
  rw [← params_compile hc] at hon
  obtain ⟨text, htext, hextra⟩ := exists_extra_matching hcondition hparts c.params hn
  have hfault : Statement.rawFault? d (BoundText.bind c.params text) = none :=
    (Statement.literal_join hsql hj).2 _ (by rw [hon]; exact hextra)
  have hlookup := hparts.lookup_eq htext c.params hn
  rw [← hlookup]
  exact Statement.rawLiteral_of_rawFault?_eq_none hfault
    ((hparts.mem_placeholders_iff htext c.params).2 hn) (hlookup.trans hm)

/-- A bound text can be written out if the values of its placeholders have literals. -/
theorem rawFault?_bind_eq_none_iff (hparts : ConditionParts condition lead ps trail) {text : String}
    (htext : extraText? (some condition) = some text) (params : OrderedMap String Value)
    (d : Dialect) : Statement.rawFault? d (BoundText.bind params text) = none ↔
      ∀ n, .placeholder n ∈ ps → ∀ m, params.get? (String.ofList n) = some m →
        ∃ t, valueLiteral d m = .ok t := by
  constructor
  · intro hfault n hn m hm
    exact ⟨_, Statement.rawLiteral_of_rawFault?_eq_none hfault
      ((hparts.mem_placeholders_iff htext params).2 hn)
      ((hparts.lookup_eq htext params hn).trans hm)⟩
  · intro h
    refine List.findSome?_eq_none_iff.2 fun name hname => ?_
    obtain ⟨n, -, rfl⟩ := List.mem_map.1 hname
    have hn := (hparts.mem_placeholders_iff htext params).1 hname
    rw [hparts.lookup_eq htext params hn]
    cases hm : params.get? (String.ofList n) with
    | none => rfl
    | some m =>
      obtain ⟨t, ht⟩ := h n hn m hm
      simp only [ht]

/-- Before any filter a compiled graph can be written with every value written out if it can be
written at all and the values of all placeholders have literals. -/
theorem exists_literal_iff (hc : (g.compile [] chains).outcome = .ok c) (d : Dialect) :
    (∃ sql, c.statement.literal d = .ok sql) ↔ c.statement.IsWritable ∧
      ∀ e ∈ g.edges, ∀ condition, e.condition = some condition →
        ∀ pre n post, PlaceholderAt condition.toList pre n post →
          ∀ m, c.params.get? (String.ofList n) = some m → ∃ t, valueLiteral d m = .ok t := by
  cases hroot : g.root with
  | none =>
    simp only [compile, hroot] at hc
    cases hc
  | some root =>
    rw [outcome_compile_nil hroot] at hc
    split at hc
    · cases hc
    · cases hc
      refine Statement.exists_literal_plain_iff.trans (and_congr_right fun _ => ?_)
      simp only [raw_mem_joined_iff]
      constructor
      · intro hfaults e he condition hcondition pre n post hplace
        obtain ⟨lead, ps, trail, hparts⟩ := exists_conditionParts condition
        have hn := hparts.mem_iff.2 ⟨pre, post, hplace⟩
        obtain ⟨text, htext, hextra⟩ := exists_extra_matching hcondition hparts _ hn
        exact (rawFault?_bind_eq_none_iff hparts htext _ d).1 (hfaults _ ⟨e, he, hextra⟩) n hn
      · rintro h b ⟨e, he, hb⟩
        obtain ⟨text, htext, rfl⟩ := Option.map_eq_some_iff.1 hb
        cases hcondition : e.condition with
        | none =>
          rw [hcondition] at htext
          cases htext
        | some condition =>
          rw [hcondition] at htext
          obtain ⟨lead, ps, trail, hparts⟩ := exists_conditionParts condition
          refine (rawFault?_bind_eq_none_iff hparts htext _ d).2 fun n hn => ?_
          obtain ⟨pre, post, hplace⟩ := hparts.mem_iff.1 hn
          exact h e he condition hcondition pre n post hplace

/-- The extra condition of an edge of a compiled graph is divided into placeholders and characters
that are copied.  A placeholder is a colon after no colon, backslash, dollar sign or character of a
name, and a run of characters of a name that is followed by neither a colon nor a dollar sign; there
are no others.  In the join it is bound to the value that the merged parameters have for its name,
and with every value written out it shows the literal of this value, or null if there is none.
Before any filter the statement can be written so if it can be written with placeholders and the
values have literals. -/
theorem placeholders_bound (hc : (g.compile filters chains).outcome = .ok c) :
    (∀ e ∈ g.edges, ∀ condition, e.condition = some condition → ∃ lead ps trail,
      ConditionParts condition lead ps trail ∧
      (∃ j ∈ c.statement.source.joins, j.on = e.matching c.params ∧
        ∀ n, .placeholder n ∈ ps → ∃ b ∈ j.on.extra,
          b.values.lookup (String.ofList n) = c.params.get? (String.ofList n)) ∧
      ∀ d sql, c.statement.literal d = .ok sql → ∃ shown : List Char → List Char,
        (∀ n, .placeholder n ∈ ps →
          (∀ m, c.params.get? (String.ofList n) = some m →
            valueLiteral d m = .ok (String.ofList (shown n))) ∧
          (c.params.get? (String.ofList n) = none → shown n = "NULL".toList)) ∧
        (∃ pre post, sql = pre ++ " ON " ++ " AND ".intercalate (e.pairTexts d ++
          if ps = [] then [] else
            [String.ofList (unescape (ps.flatMap (RawPart.shown d shown)))]) ++ post) ∧
        ∀ l n r, ps = l ++ .placeholder n :: r →
          unescape (ps.flatMap (RawPart.shown d shown)) =
            unescape (l.flatMap (RawPart.shown d shown)) ++ unescape (shown n) ++
              unescape (r.flatMap (RawPart.shown d shown))) ∧
    (filters = [] → ∀ d, (∃ sql, c.statement.literal d = .ok sql) ↔ c.statement.IsWritable ∧
      ∀ e ∈ g.edges, ∀ condition, e.condition = some condition →
        ∀ pre n post, PlaceholderAt condition.toList pre n post →
          ∀ m, c.params.get? (String.ofList n) = some m → ∃ t, valueLiteral d m = .ok t) := by
  constructor
  · intro e he condition hcondition
    obtain ⟨lead, ps, trail, hparts⟩ := exists_conditionParts condition
    refine ⟨lead, ps, trail, hparts, ?_, fun d sql hsql => ?_⟩
    · obtain ⟨j, hj, hon⟩ := exists_join_compiled hc he
      rw [← params_compile hc] at hon
      refine ⟨j, hj, hon, fun n hn => ?_⟩
      obtain ⟨text, htext, hextra⟩ := exists_extra_matching hcondition hparts c.params hn
      exact ⟨_, by rw [hon]; exact hextra, hparts.lookup_eq htext c.params hn⟩
    · refine ⟨fun n => (Statement.rawLiteral d (c.params.get? (String.ofList n))).toList,
        fun n hn => ⟨fun m hm => ?_, fun hm => ?_⟩, ?_, ?_⟩
      · rw [String.ofList_toList]
        exact valueLiteral_of_literal hc he hcondition hparts hsql hn hm
      · dsimp only
        rw [hm]
        rfl
      · rw [← toList_extraWritten hcondition hparts d c.params fun _ v => Statement.rawLiteral d v,
          ← e.conditionWritten_eq]
        exact exists_condition_printed hc (.literal hsql) he
      · rintro l n r rfl
        exact hparts.divides.unescape_shown d _
  · rintro rfl
    exact exists_literal_iff hc

/-! ### A placeholder in front of a cast -/

/-- A table whose marks are compared under a condition with values for its names. -/
def castGraph (condition : String) (given : List (Value × Value)) : Graph :=
  ((Edge.make 0 markChild markRoot (markSpec condition given) >>=
    (ofRoot markRoot).addEdge).toOption).getD .empty

/-- The colons of the cast are escaped, and the later colon follows a letter. -/
theorem placeholders_bound_cast : ∃ c sql lead ps trail, ∃ shown : List Char → List Char,
    ((castGraph "AND task.mark = :x\\:\\:int OR a:x" [(.str "x", .int 1)]).compile []
      .empty).outcome = .ok c ∧ c.statement.literal .standard = .ok sql ∧
    ConditionParts "AND task.mark = :x\\:\\:int OR a:x" lead ps trail ∧
    .placeholder ['x'] ∈ ps ∧ shown ['x'] = ['1'] ∧
    ∃ pre post, sql = pre ++ " ON " ++ " AND ".intercalate ["task.id = job.id",
      String.ofList (unescape (ps.flatMap (RawPart.shown .standard shown)))] ++ post := by
  generalize hg : castGraph "AND task.mark = :x\\:\\:int OR a:x" [(.str "x", .int 1)] = g
  obtain ⟨c, sql, hc, hsql⟩ : ∃ c sql, (g.compile [] .empty).outcome = .ok c ∧
      c.statement.literal .standard = .ok sql := by
    subst hg
    exact ⟨_, _, rfl, rfl⟩
  obtain ⟨e, he, hcondition, hpairs, hparams⟩ : ∃ e ∈ g.edges,
      e.condition = some "AND task.mark = :x\\:\\:int OR a:x" ∧
        e.pairTexts .standard = ["task.id = job.id"] ∧
          (Parameters.ofEdges g.edges).values.get? "x" = some (.int 1) := by
    subst hg
    exact ⟨_, List.mem_cons_self, rfl, by decide +kernel, rfl⟩
  obtain ⟨hbound, -⟩ := placeholders_bound hc
  obtain ⟨lead, ps, trail, hparts, -, hliteral⟩ := hbound e he _ hcondition
  obtain ⟨shown, hshown, ⟨pre, post, hon⟩, -⟩ := hliteral .standard sql hsql
  have hx : .placeholder ['x'] ∈ ps :=
    hparts.mem_iff.2 ⟨"AND task.mark = ".toList, "\\:\\:int OR a:x".toList, by decide +kernel⟩
  have hvalue := (hshown ['x'] hx).1 (.int 1) (by rw [params_compile hc]; exact hparams)
  have hne : ps ≠ [] := List.ne_nil_of_mem hx
  rw [hpairs, if_neg hne] at hon
  refine ⟨c, sql, lead, ps, trail, shown, hc, hsql, hparts, hx, ?_, pre, post, hon⟩
  exact (String.ofList_inj.1 (Except.ok.inj hvalue)).symm

/-- What the marks are compared with, with every value written out. -/
def castLiteral? (condition : String) (given : List (Value × Value)) : Option String :=
  ((castGraph condition given).compile [] .empty).outcome.toOption.bind fun c =>
    (c.statement.literal .standard).toOption

/-- The statement that compares the marks under a condition. -/
def castSelect (condition : String) : String :=
  "SELECT job.id AS job_id, job.title AS job_title, task.id AS task_id, task.mark AS task_mark " ++
    "\nFROM job AS job LEFT OUTER JOIN task AS task ON task.id = job.id AND " ++ condition

/-- A name in front of a cast whose colons are not escaped shows no value, nor does one next to a
dollar sign.  A name without a value shows null, and an escaped colon in a literal loses its
backslash. -/
theorem placeholders_bound_unescaped :
    valueLiteral .standard (.int 1) = .ok "1" ∧
      castLiteral? "task.mark = :x::int" [(.str "x", .int 1)] =
        some (castSelect "task.mark = :x::int") ∧
      castLiteral? "task.mark = $:x" [(.str "x", .int 1)] = some (castSelect "task.mark = $:x") ∧
      castLiteral? "task.mark = :x$" [(.str "x", .int 1)] = some (castSelect "task.mark = :x$") ∧
      castLiteral? "task.mark = :x" [] = some (castSelect "task.mark = NULL") ∧
      valueLiteral .standard (.str "a\\:b") = .ok "'a\\:b'" ∧
      castLiteral? "task.mark = :x" [(.str "x", .str "a\\:b")] =
        some (castSelect "task.mark = 'a:b'") :=
  ⟨rfl, by decide +kernel, by decide +kernel, by decide +kernel, by decide +kernel, rfl,
    by decide +kernel⟩

end Graph

end NestedJoin
