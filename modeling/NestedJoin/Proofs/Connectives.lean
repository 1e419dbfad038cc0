import NestedJoin.Proofs.RawTexts
import NestedJoin.Proofs.Restricting
set_option autoImplicit false

/-!
# The connective in front of an extra condition

Join columns and an extra condition are connected by AND, so an extra condition may come with an AND
of its own in front.  The word is dropped if a blank follows it.  If anything else does, it stays:
in front of a longer word it belongs to this word, but in front of a bracket it is the connective,
and is then written twice.

Main statement: `Graph.compile_leading_and`.
-/

namespace NestedJoin

open Sql Text

/-! ## Blanks around a text -/

namespace Text

/-- A text of blanks. -/
def AreBlank (cs : List Char) : Prop := ∀ c ∈ cs, isBlank c = true

instance (cs : List Char) : Decidable (AreBlank cs) :=
  decidable_of_iff (cs.all isBlank = true) List.all_eq_true

/-- A text that has no blanks at its ends. -/
structure IsStripped (cs : List Char) : Prop where
  first : ∀ c ∈ cs.head?, isBlank c = false
  last : ∀ c ∈ cs.getLast?, isBlank c = false

theorem isStripped_iff {cs : List Char} : IsStripped cs ↔
    cs.head?.any isBlank = false ∧ cs.getLast?.any isBlank = false := by
  rw [Option.any_eq_false, Option.any_eq_false]
  exact ⟨fun h => ⟨h.first, h.last⟩, fun h => ⟨h.1, h.2⟩⟩

instance (cs : List Char) : Decidable (IsStripped cs) := decidable_of_iff _ isStripped_iff.symm

theorem AreBlank.append {v w : List Char} (hv : AreBlank v) (hw : AreBlank w) :
    AreBlank (v ++ w) := fun c hc => (List.mem_append.1 hc).elim (hv c) (hw c)

theorem AreBlank.colon_notMem {w : List Char} (hw : AreBlank w) : ':' ∉ w :=
  fun hc => absurd (hw ':' hc) (by decide)

/-- A blank is no capital letter. -/
theorem toLower_of_isBlank {c : Char} (h : isBlank c = true) : c.toLower = c := by
  refine dif_neg ?_
  rintro ⟨hlow, hhigh⟩
  have habove : 0x41 ≤ c.toNat := hlow
  have hbelow : c.toNat ≤ 0x5a := hhigh
  obtain ⟨r, hr, hfrom, hto⟩ := (CharRanges.holds_iff _ _).1 h
  simp only [blankRanges, List.mem_cons, List.not_mem_nil, or_false] at hr
  rcases hr with rfl | rfl | rfl | rfl | rfl | rfl | rfl | rfl | rfl | rfl <;>
    dsimp only at hfrom hto <;> omega

variable {w w' cs : List Char}

theorem dropBlanks_append (hw : AreBlank w) (cs : List Char) :
    dropBlanks (w ++ cs) = dropBlanks cs :=
  List.dropWhile_append_of_pos hw

theorem exists_dropBlanks (cs : List Char) : ∃ w, AreBlank w ∧ cs = w ++ dropBlanks cs :=
  ⟨cs.takeWhile isBlank, fun c hc => List.all_eq_true.1 List.all_takeWhile c hc,
    List.takeWhile_append_dropWhile.symm⟩

theorem strip_append (hw : AreBlank w) (cs : List Char) : strip (w ++ cs) = strip cs := by
  unfold strip trim
  rw [List.dropWhile_append_of_pos hw]

/-- A text between blanks is what is left of them without the blanks. -/
theorem strip_of_isStripped (hw : AreBlank w) (hcs : IsStripped cs) (hw' : AreBlank w') :
    strip (w ++ cs ++ w') = cs := by
  rw [List.append_assoc, strip_append hw]
  unfold strip trim
  cases cs with
  | nil =>
    have hnone : (w' ++ []).dropWhile isBlank = [] := dropWhile_run hw' nofun
    rw [List.append_nil] at hnone
    rw [List.nil_append, hnone]
    rfl
  | cons c cs =>
    have hfirst : ¬isBlank c = true := by
      rw [hcs.first c rfl]
      decide
    have hlast : ∀ d ∈ (c :: cs).reverse.head?, isBlank d = false := by
      rw [List.head?_reverse]
      exact hcs.last
    have hblank : ∀ d ∈ w'.reverse, isBlank d = true := fun d hd => hw' d (List.mem_reverse.1 hd)
    rw [List.cons_append, List.dropWhile_cons_of_neg hfirst, ← List.cons_append,
      List.reverse_append, dropWhile_run hblank hlast, List.reverse_reverse]

/-- Stripping takes blanks away from both ends and leaves none there. -/
theorem exists_strip (cs : List Char) : ∃ w w', AreBlank w ∧ AreBlank w' ∧
    cs = w ++ strip cs ++ w' ∧ IsStripped (strip cs) := by
  obtain ⟨w, hw, hcs⟩ := exists_dropBlanks cs
  obtain ⟨v, hv, hrest⟩ := exists_dropBlanks (dropBlanks cs).reverse
  have hstrip : strip cs = (dropBlanks (dropBlanks cs).reverse).reverse := rfl
  have hsplit : dropBlanks cs = strip cs ++ v.reverse := by
    rw [hstrip, ← List.reverse_append, ← hrest, List.reverse_reverse]
  refine ⟨w, v.reverse, hw, fun c hc => hv c (List.mem_reverse.1 hc), ?_, ?_, ?_⟩
  · rw [List.append_assoc, ← hsplit]
    exact hcs
  · intro c hc
    obtain ⟨rest, hrest⟩ := List.head?_eq_some_iff.1 hc
    rw [hrest, List.cons_append] at hsplit
    exact isBlank_head_dropBlanks hsplit
  · intro c hc
    rw [hstrip, List.getLast?_reverse] at hc
    obtain ⟨rest, hrest⟩ := List.head?_eq_some_iff.1 hc
    exact isBlank_head_dropBlanks hrest

theorem strip_dropBlanks (cs : List Char) : strip (dropBlanks cs) = strip cs := by
  obtain ⟨w, hw, hcs⟩ := exists_dropBlanks cs
  conv_rhs => rw [hcs, strip_append hw]

theorem IsStripped.append {cs ds : List Char} (hcs : IsStripped cs) (hds : IsStripped ds) :
    IsStripped (cs ++ ds) where
  first c hc := by
    rw [List.head?_append] at hc
    exact (Option.or_eq_some_iff.1 hc).elim (hcs.first c) fun h => hds.first c h.2
  last c hc := by
    rw [List.getLast?_append] at hc
    exact (Option.or_eq_some_iff.1 hc).elim (hds.last c) fun h => hcs.last c h.2

/-- From a text that does not start with a blank, blanks are only taken away at its end. -/
theorem exists_strip_of_first (hcs : ∀ c ∈ cs.head?, isBlank c = false) :
    ∃ w, AreBlank w ∧ cs = strip cs ++ w := by
  obtain ⟨v, w, hv, hw, hsplit, -⟩ := exists_strip cs
  refine ⟨w, hw, ?_⟩
  cases v with
  | nil => exact hsplit
  | cons c v =>
    have hc := hcs c (by rw [hsplit]; rfl)
    rw [hv c List.mem_cons_self] at hc
    cases hc

/-- A text that is stripped anyway stays in front of one that does not start with a blank. -/
theorem IsStripped.strip_append {ds : List Char} (hcs : IsStripped cs)
    (hds : ∀ c ∈ ds.head?, isBlank c = false) : strip (cs ++ ds) = cs ++ strip ds := by
  obtain ⟨w, hw, hsplit⟩ := exists_strip_of_first hds
  obtain ⟨-, -, -, -, -, hstripped⟩ := exists_strip ds
  have hwhole := strip_of_isStripped (w := []) nofun (hcs.append hstripped) hw
  rwa [List.nil_append, List.append_assoc, ← hsplit] at hwhole

theorem exists_strip_bracket (cs : List Char) : ∃ ds, strip ('(' :: cs) = '(' :: ds := by
  have hfirst : ∀ c ∈ ('(' :: cs).head?, isBlank c = false := by
    intro c hc
    obtain rfl := Option.some.inj hc
    decide
  obtain ⟨w, hw, hsplit⟩ := exists_strip_of_first hfirst
  cases hstrip : strip ('(' :: cs) with
  | nil =>
    rw [hstrip, List.nil_append] at hsplit
    exact absurd (hw '(' (hsplit ▸ List.mem_cons_self)) (by decide)
  | cons c ds =>
    rw [hstrip] at hsplit
    obtain rfl : '(' = c := (List.cons.inj hsplit).1
    exact ⟨ds, rfl⟩

end Text

/-! ## The word AND -/

/-- The letters of the word AND, in any letter case. -/
def IsAnd (cs : List Char) : Prop := cs.map Char.toLower = ['a', 'n', 'd']

instance (cs : List Char) : Decidable (IsAnd cs) := inferInstanceAs (Decidable (_ = _))

/-- A text that starts with the word AND and a blank, after any blanks. -/
def BeginsWithAnd (cs : List Char) : Prop :=
  ∃ w a b rest, AreBlank w ∧ IsAnd a ∧ isBlank b = true ∧ cs = w ++ a ++ b :: rest

section LeadingAnd

variable {w a cs : List Char}

theorem IsAnd.exists_letters (ha : IsAnd a) : ∃ x y z, a = [x, y, z] ∧ x.toLower = 'a' ∧
    y.toLower = 'n' ∧ z.toLower = 'd' := by
  have hlength : a.length = 3 := by
    rw [← List.length_map Char.toLower, ha]
    rfl
  obtain ⟨x, y, z, rfl⟩ := List.length_eq_three.1 hlength
  simp only [IsAnd, List.map_cons, List.map_nil, List.cons.injEq, and_true] at ha
  exact ⟨x, y, z, rfl, ha⟩

/-- The letters of the word AND are neither blanks nor signs. -/
theorem IsAnd.of_mem (ha : IsAnd a) {c : Char} (hc : c ∈ a) :
    isBlank c = false ∧ c ≠ ':' ∧ c ≠ '%' := by
  have hlower : c.toLower ∈ ['a', 'n', 'd'] := ha ▸ List.mem_map_of_mem hc
  refine ⟨?_, ?_, ?_⟩
  · refine eq_false_of_ne_true fun hblank => ?_
    rw [toLower_of_isBlank hblank] at hlower
    revert hblank
    simp only [List.mem_cons, List.not_mem_nil, or_false] at hlower
    rcases hlower with rfl | rfl | rfl <;> decide
  · rintro rfl
    revert hlower
    decide
  · rintro rfl
    revert hlower
    decide

theorem IsAnd.colon_notMem (ha : IsAnd a) : ':' ∉ a := fun hc => (ha.of_mem hc).2.1 rfl

/-- The word is copied as it is in every dialect. -/
theorem IsAnd.flatMap_copied (ha : IsAnd a) (d : Dialect) : a.flatMap d.copied = a :=
  Dialect.flatMap_copied_of_notMem (fun hc => (ha.of_mem hc).2.2 rfl) d

theorem IsAnd.dropBlanks_append (ha : IsAnd a) (hw : AreBlank w) (cs : List Char) :
    dropBlanks (w ++ a ++ cs) = a ++ cs := by
  obtain ⟨x, y, z, rfl, -⟩ := ha.exists_letters
  rw [List.append_assoc]
  refine dropWhile_run hw fun c hc => ?_
  obtain rfl := Option.some.inj hc
  exact (ha.of_mem List.mem_cons_self).1

/-- In front of a blank the word AND is dropped. -/
theorem dropLeadingAnd_of_blank {b : Char} (hw : AreBlank w) (ha : IsAnd a)
    (hb : isBlank b = true) : dropLeadingAnd (w ++ a ++ b :: cs) = dropBlanks cs := by
  have hdrop := ha.dropBlanks_append hw (b :: cs)
  obtain ⟨x, y, z, rfl, hx, hy, hz⟩ := ha.exists_letters
  rw [List.cons_append, List.cons_append, List.cons_append, List.nil_append] at hdrop
  simp only [dropLeadingAnd, hdrop]
  exact if_pos ⟨hx, hy, hz, hb⟩

/-- A text that does not start with the word AND and a blank is kept. -/
theorem dropLeadingAnd_of_not (h : ¬BeginsWithAnd cs) : dropLeadingAnd cs = cs := by
  unfold dropLeadingAnd
  split
  · next x y z b rest hdrop =>
    split
    · next hletters =>
      obtain ⟨hx, hy, hz, hb⟩ := hletters
      obtain ⟨w, hw, hcs⟩ := exists_dropBlanks cs
      rw [hdrop] at hcs
      refine absurd ⟨w, [x, y, z], b, rest, hw, ?_, hb, ?_⟩ h
      · simp only [IsAnd, List.map_cons, List.map_nil, hx, hy, hz]
      · rw [hcs, List.append_assoc]
        rfl
    · rfl
  · rfl

/-- A text that starts with another character than a blank or an A does not start so. -/
theorem not_beginsWithAnd_cons {c : Char} (hblank : isBlank c = false) (hletter : c.toLower ≠ 'a') :
    ¬BeginsWithAnd (c :: cs) := by
  rintro ⟨w, a, b, rest, hw, ha, -, hcs⟩
  have hdrop := ha.dropBlanks_append hw (b :: rest)
  have hstart : dropBlanks (c :: cs) = c :: cs := by
    unfold dropBlanks
    rw [List.dropWhile_cons_of_neg (by rw [hblank]; decide)]
  rw [← hcs, hstart] at hdrop
  obtain ⟨x, y, z, rfl, hx, -⟩ := ha.exists_letters
  obtain rfl : c = x := (List.cons.inj hdrop).1
  exact hletter hx

/-- The word AND in front of something else than a blank does not count. -/
theorem IsAnd.not_beginsWithAnd (ha : IsAnd a) (hw : AreBlank w)
    (hcs : ∀ c ∈ cs.head?, isBlank c = false) : ¬BeginsWithAnd (w ++ a ++ cs) := by
  rintro ⟨w', a', b, rest, hw', ha', hb, heq⟩
  have hdrop := ha.dropBlanks_append hw cs
  rw [heq, ha'.dropBlanks_append hw'] at hdrop
  obtain ⟨x, y, z, rfl, -⟩ := ha.exists_letters
  obtain ⟨x', y', z', rfl, -⟩ := ha'.exists_letters
  simp only [List.cons_append, List.nil_append, List.cons.injEq] at hdrop
  have hhead : cs.head? = some b := by
    rw [← hdrop.2.2.2]
    rfl
  rw [hcs b hhead] at hb
  cases hb

end LeadingAnd

/-! ## Extra conditions -/

/-- What is dropped of an extra condition holds no colon, and blanks stand next to what is kept. -/
theorem exists_dropped (cs : List Char) : ∃ lead trail,
    cs = lead ++ strip (dropLeadingAnd cs) ++ trail ∧ ':' ∉ lead ∧
      (∀ c ∈ lead.getLast?, isBlank c = true) ∧ AreBlank trail := by
  by_cases hand : BeginsWithAnd cs
  · obtain ⟨w, a, b, rest, hw, ha, hb, rfl⟩ := hand
    obtain ⟨v, trail, hv, htrail, hrest, -⟩ := exists_strip rest
    have hblanks : AreBlank (b :: v) := List.forall_mem_cons.2 ⟨hb, hv⟩
    refine ⟨w ++ a ++ b :: v, trail, ?_, ?_, ?_, htrail⟩
    · rw [dropLeadingAnd_of_blank hw ha hb, strip_dropBlanks]
      conv_lhs => rw [hrest]
      simp only [List.append_assoc, List.cons_append]
    · simp only [List.mem_append, not_or]
      exact ⟨⟨hw.colon_notMem, ha.colon_notMem⟩, hblanks.colon_notMem⟩
    · intro c hc
      rw [List.getLast?_append_of_ne_nil _ (List.cons_ne_nil b v)] at hc
      exact hblanks c (List.mem_of_mem_getLast? hc)
  · obtain ⟨lead, trail, hlead, htrail, hcs, -⟩ := exists_strip cs
    rw [dropLeadingAnd_of_not hand]
    exact ⟨lead, trail, hcs, hlead.colon_notMem, fun c hc => hlead c (List.mem_of_mem_getLast? hc),
      htrail⟩

section ExtraText

variable {condition text : String}

theorem extraText?_eq_some_iff : extraText? (some condition) = some text ↔
    strip (dropLeadingAnd condition.toList) = text.toList ∧ text ≠ "" := by
  have hempty : text ≠ "" ↔ text.toList ≠ [] := not_congr String.toList_eq_nil_iff.symm
  rw [extraText?, hempty]
  cases strip (dropLeadingAnd condition.toList) with
  | nil => exact iff_of_false nofun fun ⟨hnil, hne⟩ => hne hnil.symm
  | cons c cs =>
    rw [Option.some.injEq, ← String.toList_inj, String.toList_ofList]
    constructor
    · intro h
      exact ⟨h, h ▸ List.cons_ne_nil c cs⟩
    · exact And.left

theorem extraText?_eq_none_iff :
    extraText? (some condition) = none ↔ strip (dropLeadingAnd condition.toList) = [] := by
  rw [extraText?]
  cases strip (dropLeadingAnd condition.toList) with
  | nil => exact iff_of_true rfl rfl
  | cons c cs => exact iff_of_false nofun (List.cons_ne_nil c cs)

/-- What of an extra condition goes into a join is told by the stripped text. -/
theorem extraText?_congr {condition' : String}
    (h : strip (dropLeadingAnd condition.toList) = strip (dropLeadingAnd condition'.toList)) :
    extraText? (some condition) = extraText? (some condition') := by
  rw [extraText?, h, extraText?]

end ExtraText

theorem IsAnd.isStripped {a : List Char} (ha : IsAnd a) : IsStripped a where
  first _ hc := (ha.of_mem (List.mem_of_mem_head? hc)).1
  last _ hc := (ha.of_mem (List.mem_of_mem_getLast? hc)).1

/-- The word AND in front of a bracket changes nothing of what is written for the rest. -/
theorem IsAnd.print_bracket {a : List Char} (ha : IsAnd a) (cs : List Char)
    (params : OrderedMap String Value) (d : Dialect) (f : String → Option Value → String) :
    (BoundText.bind params (String.ofList (a ++ '(' :: cs))).print d f =
      String.ofList a ++ (BoundText.bind params (String.ofList ('(' :: cs))).print d f := by
  have hnames : names (a ++ '(' :: cs) = names ('(' :: cs) :=
    names_append_sign ha.colon_notMem (by decide)
  have hbracket : isRunChar '(' = false ∧ '(' ≠ ':' := by decide
  simp only [BoundText.print, BoundText.bind, BoundText.nameList, String.toList_ofList, hnames,
    printRaw_append_sign ha.colon_notMem hbracket, ha.flatMap_copied]
  exact String.ofList_append

namespace Edge

/-- The pairs of join columns as they are written. -/
def pairTexts (e : Edge) (d : Dialect) : List String :=
  e.on.entries.map fun p => pairWritten d (⟨e.aliasName, p.1⟩, ⟨e.parentAlias, p.2⟩)

/-- The pairs and the extra condition are written with the connective between them. -/
theorem conditionWritten_eq (e : Edge) (d : Dialect) (params : OrderedMap String Value)
    (f : String → Option Value → String) : e.conditionWritten d params f =
      " AND ".intercalate (e.pairTexts d ++ (e.extraWritten d params f).toList) := by
  rw [conditionWritten, OnClause.written, matching, extraWritten, pairTexts, List.map_map]
  cases extraText? e.condition <;> rfl

/-- The edge with another extra condition, if it joins a given alias. -/
def conditioned (aliasName : String) (condition : Option String) (e : Edge) : Edge :=
  { e with condition := if e.aliasName = aliasName then condition else e.condition }

end Edge

namespace Graph

variable {g : Graph}

/-- In the printed statement of a compiled graph the condition of every edge stands after ON. -/
theorem exists_condition_printed {filters : List Filter} {chains : KeyChains} {c : Compiled}
    (hc : (g.compile filters chains).outcome = .ok c) {d : Dialect}
    {f : String → Option Value → String} {sql : String} (hsql : c.statement.Printed d f sql)
    {e : Edge} (he : e ∈ g.edges) :
    ∃ pre post, sql = pre ++ " ON " ++ e.conditionWritten d c.params f ++ post := by
  obtain ⟨j, hj, hon⟩ := exists_join_compiled hc he
  rw [Edge.conditionWritten, params_compile hc, ← hon]
  cases hsql with
  | text h => exact Statement.text_join h hj
  | literal h => exact (Statement.literal_join h hj).1

/-- The graph with another extra condition for the edge that joins an alias. -/
def conditioned (g : Graph) (aliasName : String) (condition : Option String) : Graph :=
  { g with
    joins := g.joins.mapValues fun _ => Edge.conditioned aliasName condition
    inbound := g.inbound.mapValues fun _ es => es.map (Edge.conditioned aliasName condition) }

section Conditioned

variable (g) (aliasName : String) (condition : Option String)

theorem edges_conditioned : (g.conditioned aliasName condition).edges =
    g.edges.map (Edge.conditioned aliasName condition) :=
  OrderedMap.values_mapValues _ _

theorem condition_of_mem_conditioned {e : Edge}
    (he : e ∈ (g.conditioned aliasName condition).edges) (hown : e.aliasName = aliasName) :
    e.condition = condition := by
  rw [edges_conditioned] at he
  obtain ⟨e, -, rfl⟩ := List.mem_map.1 he
  exact if_pos hown

theorem climb_conditioned (es : List Edge) (a : String) :
    climb (es.map (Edge.conditioned aliasName condition)) a = climb es a := by
  induction es generalizing a with
  | nil => rfl
  | cons e es ih =>
    rw [List.map_cons, climb, climb, ih, ih]
    rfl

/-- No key chain depends on an extra condition. -/
theorem prepare_conditioned (chains : KeyChains) :
    (g.conditioned aliasName condition).prepare chains = g.prepare chains := by
  have hchain : (g.conditioned aliasName condition).chainOf = g.chainOf := by
    funext v
    unfold chainOf
    rw [edges_conditioned, ← List.map_reverse, climb_conditioned]
    rfl
  unfold prepare
  rw [hchain]
  rfl

/-- No parameter does. -/
theorem ofEdges_conditioned : Parameters.ofEdges (g.conditioned aliasName condition).edges =
    Parameters.ofEdges g.edges := by
  rw [edges_conditioned, Parameters.ofEdges, List.foldl_map]
  rfl

end Conditioned

variable {aliasName : String} {x y : Option String}

/-- Extra conditions from which the same goes into the join compile to the same. -/
theorem compile_conditioned (h : extraText? x = extraText? y) (filters : List Filter)
    (chains : KeyChains) : (g.conditioned aliasName x).compile filters chains =
      (g.conditioned aliasName y).compile filters chains := by
  have honClause : ∀ (params : OrderedMap String Value) (e : Edge),
      (g.conditioned aliasName x).onClause params (e.conditioned aliasName x) =
        (g.conditioned aliasName y).onClause params (e.conditioned aliasName y) := by
    intro params e
    have htext : extraText? (e.conditioned aliasName x).condition =
        extraText? (e.conditioned aliasName y).condition := by
      unfold Edge.conditioned
      dsimp only
      split
      · exact h
      · rfl
    unfold onClause
    rw [htext]
    rfl
  have hsource : (g.conditioned aliasName x).source = (g.conditioned aliasName y).source := by
    funext params root
    unfold source
    simp only [edges_conditioned, List.foldlM_map, honClause]
    rfl
  unfold compile
  rw [prepare_conditioned, prepare_conditioned, ofEdges_conditioned, ofEdges_conditioned]
  unfold statement
  rw [hsource]
  rfl

/-- A leading AND that a blank follows is dropped.  An extra condition with the word, in any letter
case, and blanks around it compiles to the same as what comes after, which does not start so itself.
If no blank follows, nothing is dropped: the whole text goes into the join.  So in front of a
bracket the word is left there, although the rest is written as it would be without it. -/
theorem compile_leading_and (g : Graph) (aliasName : String) {u a : List Char}
    (hu : AreBlank u) (ha : IsAnd a) (filters : List Filter) (chains : KeyChains) :
    (∀ w c, w ≠ [] → AreBlank w → ¬BeginsWithAnd c →
      (g.conditioned aliasName (some (String.ofList (u ++ a ++ w ++ c)))).compile filters chains =
        (g.conditioned aliasName (some (String.ofList c))).compile filters chains) ∧
    ∀ rest, (∀ x ∈ rest.head?, isBlank x = false) → ∀ c,
      ((g.conditioned aliasName (some (String.ofList (u ++ a ++ rest)))).compile filters
        chains).outcome = .ok c → ∀ d f sql, c.statement.Printed d f sql →
      ∀ e ∈ (g.conditioned aliasName (some (String.ofList (u ++ a ++ rest)))).edges,
        e.aliasName = aliasName →
        (∃ pre post, sql = pre ++ " ON " ++ " AND ".intercalate (e.pairTexts d ++
          [(BoundText.bind c.params (String.ofList (a ++ strip rest))).print d f]) ++ post) ∧
        ∀ r, rest = '(' :: r → ∃ t,
          (e.conditioned aliasName (some (String.ofList rest))).extraWritten d c.params f = some t ∧
          (BoundText.bind c.params (String.ofList (a ++ strip rest))).print d f =
            String.ofList a ++ t := by
  constructor
  · intro w c hne hw hc
    refine compile_conditioned (extraText?_congr ?_) filters chains
    obtain ⟨b, w, rfl⟩ := List.exists_cons_of_ne_nil hne
    have hb : isBlank b = true := hw b List.mem_cons_self
    have hblank : AreBlank w := fun x hx => hw x (List.mem_cons_of_mem b hx)
    have hdrop : dropLeadingAnd (u ++ a ++ b :: (w ++ c)) = dropBlanks (w ++ c) :=
      dropLeadingAnd_of_blank hu ha hb
    rw [String.toList_ofList, String.toList_ofList, dropLeadingAnd_of_not hc, List.append_assoc,
      List.cons_append, hdrop, dropBlanks_append hblank, strip_dropBlanks]
  intro rest hrest c hc d f sql hsql e he hown
  have htext : extraText? e.condition = some (String.ofList (a ++ strip rest)) := by
    obtain ⟨x, y, z, hletters, -⟩ := ha.exists_letters
    rw [condition_of_mem_conditioned g _ _ he hown, extraText?_eq_some_iff, String.toList_ofList,
      String.toList_ofList, dropLeadingAnd_of_not (ha.not_beginsWithAnd hu hrest),
      List.append_assoc, strip_append hu, ha.isStripped.strip_append hrest]
    exact ⟨rfl, by simp [hletters]⟩
  constructor
  · have hextra : e.extraWritten d c.params f =
        some ((BoundText.bind c.params (String.ofList (a ++ strip rest))).print d f) := by
      rw [Edge.extraWritten, htext]
      rfl
    rw [← Option.toList_some, ← hextra, ← e.conditionWritten_eq]
    exact exists_condition_printed hc hsql he
  · rintro r rfl
    obtain ⟨s, hs⟩ := exists_strip_bracket r
    have htext :
        extraText? (some (String.ofList ('(' :: r))) = some (String.ofList ('(' :: s)) := by
      rw [extraText?_eq_some_iff, String.toList_ofList, String.toList_ofList,
        dropLeadingAnd_of_not (not_beginsWithAnd_cons (by decide) (by decide))]
      exact ⟨hs, by simp⟩
    rw [hs, ha.print_bracket]
    refine ⟨_, ?_, rfl⟩
    rw [Edge.extraWritten, Edge.conditioned, if_pos hown, htext]
    rfl

/-! ### The connective in front of a blank and of a bracket -/

theorem compile_leading_and_bracket :
    (alternativesGraph.conditioned "book" (some " aNd\tbook.state = 1")).compile [] .empty =
        (alternativesGraph.conditioned "book" (some "book.state = 1")).compile [] .empty ∧
      ∃ c sql pre post, ((alternativesGraph.conditioned "book"
          (some "AND(book.state = 1)")).compile [] .empty).outcome = .ok c ∧
        c.statement.text = .ok sql ∧
        sql = pre ++ " ON " ++ "book.id = shelf.id AND AND(book.state = 1)" ++ post := by
  have hand : IsAnd "aNd".toList ∧ IsAnd "AND".toList := by decide
  constructor
  · obtain ⟨hdropped, -⟩ := compile_leading_and alternativesGraph "book" (u := [' ']) (by decide)
      hand.1 [] .empty
    exact hdropped ['\t'] "book.state = 1".toList (by decide) (by decide)
      (not_beginsWithAnd_cons (by decide) (by decide))
  · obtain ⟨-, hkept⟩ := compile_leading_and alternativesGraph "book" (u := []) (by decide)
      hand.2 [] .empty
    obtain ⟨c, sql, hc, hsql⟩ : ∃ c sql, ((alternativesGraph.conditioned "book"
        (some "AND(book.state = 1)")).compile [] .empty).outcome = .ok c ∧
          c.statement.text = .ok sql := ⟨_, _, rfl, rfl⟩
    obtain ⟨⟨pre, post, hon⟩, -⟩ := hkept "(book.state = 1)".toList (by rintro _ ⟨⟩; rfl) c hc
      _ _ sql (.text hsql) _ List.mem_cons_self rfl
    refine ⟨c, sql, pre, post, hc, hsql, ?_⟩
    rw [params_compile hc] at hon
    exact hon

end Graph

end NestedJoin
