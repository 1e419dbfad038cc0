import NestedJoin.Proofs.Connectives
import NestedJoin.Proofs.Resolving
set_option autoImplicit false

/-!
# The predicate of an edge beside its join

An edge describes its predicate in messages by the pairs of join columns and its extra condition as
it is given, while the condition of its join is put together with a connective of its own.  So a
condition without one is described without any, and a lone connective is described but not written.

Main statement: `Session.predicate_alike_iff`.
-/

namespace NestedJoin

open Sql Text

/-! ## What follows the pairs -/

/-- Two texts are alike up to the blanks around them; or both start with the word AND, in any letter
case, and a blank, and what comes after that is alike up to the blanks around it. -/
inductive AlikeTails : List Char → List Char → Prop
  | blanks {s t : List Char} (h : strip s = strip t) : AlikeTails s t
  | connective {w a r w' a' r' : List Char} {b b' : Char} (hw : AreBlank w) (ha : IsAnd a)
    (hb : isBlank b = true) (hw' : AreBlank w') (ha' : IsAnd a') (hb' : isBlank b' = true)
    (h : strip r = strip r') : AlikeTails (w ++ a ++ b :: r) (w' ++ a' ++ b' :: r')

/-- Two texts are the same, or they start with the same pairs and go on alike. -/
def AlikeAfter (pairs s t : String) : Prop :=
  s = t ∨ ∃ tail tail', s.toList = pairs.toList ++ tail ∧ t.toList = pairs.toList ++ tail' ∧
    AlikeTails tail tail'

/-- A condition starts with the word AND and a blank, something else follows, and no colon is
escaped in this. -/
def IsConnected (cs : List Char) : Prop :=
  ∃ w a b r, AreBlank w ∧ IsAnd a ∧ isBlank b = true ∧ cs = w ++ a ++ b :: r ∧ strip r ≠ [] ∧
    unescape (strip r) = strip r

section Tails

variable {cs ds w x y : List Char}

theorem beginsWithAnd_iff : BeginsWithAnd cs ↔
    ∃ a b rest, IsAnd a ∧ isBlank b = true ∧ dropBlanks cs = a ++ b :: rest := by
  constructor
  · rintro ⟨w, a, b, rest, hw, ha, hb, rfl⟩
    exact ⟨a, b, rest, ha, hb, ha.dropBlanks_append hw _⟩
  · rintro ⟨a, b, rest, ha, hb, hdrop⟩
    obtain ⟨w, hw, hcs⟩ := exists_dropBlanks cs
    exact ⟨w, a, b, rest, hw, ha, hb, by rw [List.append_assoc, ← hdrop, ← hcs]⟩

/-- Blanks in front of a text do not count where it may start with the word AND. -/
theorem beginsWithAnd_append_iff (hw : AreBlank w) :
    BeginsWithAnd (w ++ cs) ↔ BeginsWithAnd cs := by
  rw [beginsWithAnd_iff, beginsWithAnd_iff, dropBlanks_append hw]

theorem strip_dropLeadingAnd_append (hw : AreBlank w) :
    strip (dropLeadingAnd (w ++ cs)) = strip (dropLeadingAnd cs) := by
  by_cases h : BeginsWithAnd cs
  · obtain ⟨v, a, b, rest, hv, ha, hb, rfl⟩ := h
    rw [dropLeadingAnd_of_blank hv ha hb, List.append_assoc v, ← List.append_assoc w,
      ← List.append_assoc, dropLeadingAnd_of_blank (hw.append hv) ha hb]
  · rw [dropLeadingAnd_of_not h, dropLeadingAnd_of_not (mt (beginsWithAnd_append_iff hw).1 h),
      strip_append hw]

/-- Alike are texts that are the same without blanks around them, or without the word AND. -/
theorem alikeTails_iff : AlikeTails cs ds ↔ strip cs = strip ds ∨
    BeginsWithAnd cs ∧ BeginsWithAnd ds ∧
      strip (dropLeadingAnd cs) = strip (dropLeadingAnd ds) := by
  constructor
  · intro h
    cases h with
    | blanks h => exact Or.inl h
    | connective hw ha hb hw' ha' hb' h =>
      refine Or.inr ⟨⟨_, _, _, _, hw, ha, hb, rfl⟩, ⟨_, _, _, _, hw', ha', hb', rfl⟩, ?_⟩
      rwa [dropLeadingAnd_of_blank hw ha hb, dropLeadingAnd_of_blank hw' ha' hb',
        strip_dropBlanks, strip_dropBlanks]
  · rintro (h | ⟨⟨w, a, b, r, hw, ha, hb, rfl⟩, ⟨w', a', b', r', hw', ha', hb', rfl⟩, h⟩)
    · exact .blanks h
    · rw [dropLeadingAnd_of_blank hw ha hb, dropLeadingAnd_of_blank hw' ha' hb',
        strip_dropBlanks, strip_dropBlanks] at h
      exact .connective hw ha hb hw' ha' hb' h

theorem isConnected_iff : IsConnected cs ↔ BeginsWithAnd cs ∧ strip (dropLeadingAnd cs) ≠ [] ∧
    unescape (strip (dropLeadingAnd cs)) = strip (dropLeadingAnd cs) := by
  constructor
  · rintro ⟨w, a, b, r, hw, ha, hb, rfl, hr⟩
    rw [dropLeadingAnd_of_blank hw ha hb, strip_dropBlanks]
    exact ⟨⟨w, a, b, r, hw, ha, hb, rfl⟩, hr⟩
  · rintro ⟨⟨w, a, b, r, hw, ha, hb, rfl⟩, hr⟩
    rw [dropLeadingAnd_of_blank hw ha hb, strip_dropBlanks] at hr
    exact ⟨w, a, b, r, hw, ha, hb, rfl, hr⟩

/-- Only a text without escaped colons is left when it is printed and stripped. -/
theorem strip_unescape_eq_iff (hx : IsStripped x) : strip (unescape x) = x ↔ unescape x = x := by
  constructor
  · intro h
    obtain ⟨v, u, -, -, hsplit, -⟩ := exists_strip (unescape x)
    rw [h] at hsplit
    have hlength := length_unescape_le x
    rw [hsplit, List.length_append, List.length_append] at hlength
    have hv : v = [] := List.length_eq_zero_iff.1 (by omega)
    have hu : u = [] := List.length_eq_zero_iff.1 (by omega)
    rwa [hv, hu, List.nil_append, List.append_nil] at hsplit
  · intro h
    rw [h]
    have hstrip : strip ([] ++ x ++ []) = x := strip_of_isStripped nofun hx nofun
    rwa [List.nil_append, List.append_nil] at hstrip

/-- Nothing is left of blanks only. -/
theorem strip_eq_nil_iff : strip cs = [] ↔ AreBlank cs := by
  constructor
  · intro h
    obtain ⟨w, u, hw, hu, hcs, -⟩ := exists_strip cs
    rw [h, List.append_nil] at hcs
    exact hcs ▸ hw.append hu
  · intro h
    have hstrip : strip (cs ++ [] ++ []) = [] := strip_of_isStripped h ⟨nofun, nofun⟩ nofun
    rwa [List.append_nil, List.append_nil] at hstrip

theorem strip_dropLeadingAnd_of_areBlank (h : AreBlank cs) : strip (dropLeadingAnd cs) = [] := by
  have hnot : ¬BeginsWithAnd cs := by
    rintro ⟨w, a, b, rest, -, ha, -, rfl⟩
    obtain ⟨x, y, z, rfl, -⟩ := ha.exists_letters
    have hletter := (ha.of_mem List.mem_cons_self).1
    rw [h x (by simp)] at hletter
    cases hletter
  rw [dropLeadingAnd_of_not hnot, strip_eq_nil_iff.2 h]

/-! ### A condition beside what is written for it -/

/-- What is written between the pairs and the extra condition starts with the word. -/
theorem beginsWithAnd_connective (cs : List Char) :
    BeginsWithAnd (" AND ".toList ++ cs) ∧
      strip (dropLeadingAnd (" AND ".toList ++ cs)) = strip cs := by
  have hand : IsAnd "AND".toList := by decide
  have hblank : AreBlank [' '] := by decide
  have hsplit : " AND ".toList ++ cs = [' '] ++ "AND".toList ++ ' ' :: cs := rfl
  rw [hsplit, dropLeadingAnd_of_blank hblank hand (by decide), strip_dropBlanks]
  exact ⟨⟨_, _, _, _, hblank, hand, by decide, rfl⟩, rfl⟩

/-- The word stays in front when blanks are taken away. -/
theorem exists_strip_connective (cs : List Char) : ∃ u, AreBlank u ∧
    'A' :: 'N' :: 'D' :: ' ' :: cs = strip (" AND ".toList ++ cs) ++ u := by
  have hfirst : ∀ c ∈ ('A' :: 'N' :: 'D' :: ' ' :: cs).head?, isBlank c = false := by
    intro c hc
    obtain rfl := Option.some.inj hc
    decide
  have hblank : AreBlank [' '] := by decide
  have hstrip : strip (" AND ".toList ++ cs) = strip ('A' :: 'N' :: 'D' :: ' ' :: cs) :=
    strip_append hblank _
  rw [hstrip]
  exact exists_strip_of_first hfirst

/-- A text that is the same with the word written in front of it starts with the word itself. -/
theorem beginsWithAnd_of_strip_eq (hne : x ≠ [])
    (h : x = strip (" AND ".toList ++ unescape x)) : BeginsWithAnd x := by
  obtain ⟨u, hu, hsplit⟩ := exists_strip_connective (unescape x)
  rw [← h] at hsplit
  -- the blanks at the end hold no letter, so the word is all in front of them
  rcases x with _ | ⟨x₁, _ | ⟨x₂, _ | ⟨x₃, _ | ⟨x₄, x⟩⟩⟩⟩
  · exact absurd rfl hne
  · cases hsplit
    exact absurd (hu 'N' List.mem_cons_self) (by decide)
  · cases hsplit
    exact absurd (hu 'D' List.mem_cons_self) (by decide)
  · cases hsplit
    exact absurd (hu 'A' (List.mem_cons_of_mem _ List.mem_cons_self)) (by decide)
  · simp only [List.cons_append, List.cons.injEq] at hsplit
    obtain ⟨rfl, rfl, rfl, rfl, -⟩ := hsplit
    exact ⟨[], "AND".toList, ' ', x, nofun, by decide, by decide, rfl⟩

/-- A text that starts with the word, without the blanks around it. -/
theorem exists_strip_of_and {a r : List Char} {b : Char} (hw : AreBlank w) (ha : IsAnd a)
    (hne : strip r ≠ []) : ∃ v, strip (w ++ a ++ b :: r) = a ++ b :: (v ++ strip r) := by
  obtain ⟨v, u, -, hu, hr, hstripped⟩ := exists_strip r
  refine ⟨v, ?_⟩
  have hinner : IsStripped (a ++ b :: (v ++ strip r)) := by
    constructor
    · intro c hc
      obtain ⟨x, y, z, rfl, -⟩ := ha.exists_letters
      obtain rfl := Option.some.inj hc
      exact (ha.of_mem List.mem_cons_self).1
    · intro c hc
      have hlast : (a ++ b :: (v ++ strip r)).getLast? = (strip r).getLast? := by
        rw [← List.cons_append, ← List.append_assoc, List.getLast?_append_of_ne_nil _ hne]
      exact hstripped.last c (hlast ▸ hc)
  have hsplit : w ++ a ++ b :: r = w ++ (a ++ b :: (v ++ strip r)) ++ u := by
    conv_lhs => rw [hr]
    simp
  rw [hsplit, strip_of_isStripped hw hinner hu]

/-- A condition that is the same as what is written for it is connected. -/
theorem isConnected_of_strip_eq (hne : strip (dropLeadingAnd cs) ≠ [])
    (h : strip cs = strip (" AND ".toList ++ unescape (strip (dropLeadingAnd cs)))) :
    IsConnected cs := by
  have hand : BeginsWithAnd cs := by
    refine Classical.byContradiction fun hnot => hnot ?_
    rw [dropLeadingAnd_of_not hnot] at h hne
    obtain ⟨w, u, hw, hu, hcs, -⟩ := exists_strip cs
    obtain ⟨v, a, b, rest, hv, ha, hb, hx⟩ := beginsWithAnd_of_strip_eq hne h
    refine ⟨w ++ v, a, b, rest ++ u, hw.append hv, ha, hb, ?_⟩
    conv_lhs => rw [hcs, hx]
    simp
  obtain ⟨w, a, b, r, hw, ha, hb, rfl⟩ := hand
  rw [dropLeadingAnd_of_blank hw ha hb, strip_dropBlanks] at h hne
  refine ⟨w, a, b, r, hw, ha, hb, rfl, hne, ?_⟩
  obtain ⟨v, hstrip⟩ := exists_strip_of_and (b := b) hw ha hne
  obtain ⟨u, -, hwritten⟩ := exists_strip_connective (unescape (strip r))
  obtain ⟨x, y, z, rfl, -⟩ := ha.exists_letters
  rw [← h, hstrip] at hwritten
  -- printing makes nothing longer, so there is no room for further blanks
  have hlength := congrArg List.length hwritten
  have hshorter := length_unescape_le (strip r)
  simp only [List.length_cons, List.length_append, List.length_nil] at hlength
  have hv : v = [] := List.length_eq_zero_iff.1 (by omega)
  have hu : u = [] := List.length_eq_zero_iff.1 (by omega)
  rw [hv, hu, List.append_nil] at hwritten
  simp only [List.cons_append, List.nil_append, List.cons.injEq] at hwritten
  exact hwritten.2.2.2.2

/-- What the description of an edge adds to the pairs. -/
def shownTail (condition : Option String) : List Char :=
  match condition with
  | none => []
  | some c => if c = "" then [] else ' ' :: c.toList

/-- What the condition of a join adds to the pairs, with the placeholders as they are. -/
def writtenTail (condition : Option String) : List Char :=
  match extraText? condition with
  | none => []
  | some text => " AND ".toList ++ unescape text.toList

/-- A condition that says nothing is described as it is written exactly if it is blank. -/
theorem alikeTails_nothing_iff {condition : String}
    (h : strip (dropLeadingAnd condition.toList) = []) :
    AlikeTails (shownTail (some condition)) (writtenTail (some condition)) ↔
      AreBlank condition.toList := by
  have hwritten : writtenTail (some condition) = [] := by
    simp only [writtenTail, extraText?_eq_none_iff.2 h]
  have hnothing : ¬BeginsWithAnd [] := by
    rintro ⟨w, a, b, rest, -, -, -, hnil⟩
    simp at hnil
  have hshown : strip (shownTail (some condition)) = strip condition.toList := by
    rw [shownTail]
    split
    · next hempty =>
      rw [hempty]
      rfl
    · exact strip_append (w := [' ']) (by decide) _
  rw [hwritten, alikeTails_iff, hshown, ← strip_eq_nil_iff]
  exact or_iff_left fun h => hnothing h.2.1

/-- A condition that says something is described as it is written exactly if it is connected. -/
theorem alikeTails_condition_iff {condition : String}
    (h : strip (dropLeadingAnd condition.toList) ≠ []) :
    AlikeTails (shownTail (some condition)) (writtenTail (some condition)) ↔
      IsConnected condition.toList := by
  have hblank : AreBlank [' '] := by decide
  have hne : condition ≠ "" := by
    rintro rfl
    exact h rfl
  obtain ⟨-, -, -, -, -, hstripped⟩ := exists_strip (dropLeadingAnd condition.toList)
  generalize hx : strip (dropLeadingAnd condition.toList) = x at h hstripped
  have htext : extraText? (some condition) = some (String.ofList x) := by
    rw [extraText?_eq_some_iff, String.toList_ofList]
    exact ⟨hx, by simpa using h⟩
  have hwritten : writtenTail (some condition) = " AND ".toList ++ unescape x := by
    simp only [writtenTail, htext, String.toList_ofList]
  have hshown : shownTail (some condition) = [' '] ++ condition.toList := if_neg hne
  obtain ⟨hand, hrest⟩ := beginsWithAnd_connective (unescape x)
  rw [hwritten, alikeTails_iff, hshown, strip_append hblank, beginsWithAnd_append_iff hblank,
    strip_dropLeadingAnd_append hblank, hx, hrest]
  constructor
  · rintro (hsame | ⟨hbegins, -, hsame⟩)
    · exact isConnected_of_strip_eq (hx ▸ h) (hx ▸ hsame)
    · rw [isConnected_iff, hx]
      exact ⟨hbegins, h, (strip_unescape_eq_iff hstripped).1 hsame.symm⟩
  · intro hconnected
    rw [isConnected_iff, hx] at hconnected
    obtain ⟨hbegins, -, hunescape⟩ := hconnected
    exact Or.inr ⟨hbegins, hand, ((strip_unescape_eq_iff hstripped).2 hunescape).symm⟩

end Tails

/-- With its placeholders as they are, a raw text is printed without what escapes a colon. -/
theorem Sql.BoundText.toList_print_names (b : BoundText) :
    (b.print .standard fun n _ => ":" ++ n).toList = unescape b.text.toList := by
  have hnames : (fun run => (":" ++ String.ofList run).toList) = (':' :: ·) := by
    funext run
    simp [String.toList_append]
  rw [BoundText.print, String.toList_ofList, printRaw, hnames, replaceFrom_self]

/-! ## Predicates of edges -/

namespace Edge

variable {e : Edge}

/-- The aliases and the join columns of an edge are written without quotes. -/
def HasPlainNames (e : Edge) : Prop :=
  needsQuotes .standard e.aliasName = false ∧ needsQuotes .standard e.parentAlias = false ∧
    ∀ p ∈ e.on.entries, needsQuotes .standard p.1 = false ∧ needsQuotes .standard p.2 = false

instance (e : Edge) : Decidable e.HasPlainNames := inferInstanceAs (Decidable (_ ∧ _ ∧ _))

/-- The pairs of join columns as they are written. -/
def pairsText (e : Edge) : String := " AND ".intercalate (e.pairTexts .standard)

/-- The condition of an edge's join as it is written with its placeholders. -/
def onText (e : Edge) (params : OrderedMap String Value) : String :=
  e.conditionWritten .standard params fun n _ => ":" ++ n

/-- The extra condition of an edge is none or blank, or it brings its own connective. -/
def HasConnective (e : Edge) : Prop :=
  (∀ condition, e.condition = some condition → AreBlank condition.toList) ∨
    ∃ condition, e.condition = some condition ∧ IsConnected condition.toList

theorem toList_predicateText (h : e.HasPlainNames) :
    e.predicateText.toList = e.pairsText.toList ++ shownTail e.condition := by
  obtain ⟨hown, hparent, hcolumns⟩ := h
  have hpairs : e.pairTexts .standard = e.on.entries.map fun p =>
      e.aliasName ++ "." ++ p.1 ++ " = " ++ e.parentAlias ++ "." ++ p.2 := by
    refine List.map_congr_left fun p hp => ?_
    obtain ⟨hchild, href⟩ := hcolumns p hp
    simp only [pairWritten, ColumnRef.written, identifier_of_not_needsQuotes, hown, hparent, hchild,
      href, String.append_assoc]
  rw [predicateText, pairsText, hpairs]
  cases e.condition with
  | none => exact (List.append_nil _).symm
  | some c =>
    dsimp only [shownTail]
    split
    · exact (List.append_nil _).symm
    · rw [String.toList_append, String.toList_append, List.append_assoc]
      rfl

theorem toList_onText (e : Edge) (params : OrderedMap String Value) :
    (e.onText params).toList = e.pairsText.toList ++ writtenTail e.condition := by
  have hne : e.pairTexts .standard ≠ [] := mt List.map_eq_nil_iff.1 e.on_ne_nil
  rw [onText, conditionWritten_eq, extraWritten, pairsText, writtenTail]
  cases extraText? e.condition with
  | none =>
    rw [Option.map_none, Option.toList_none, List.append_nil, List.append_nil]
  | some text =>
    rw [Option.map_some, Option.toList_some,
      String.intercalate_append_of_ne_nil hne (List.cons_ne_nil _ _), String.intercalate_singleton,
      String.toList_append, String.toList_append, BoundText.toList_print_names, List.append_assoc]
    rfl

/-- What an edge shows and writes after the pairs is alike exactly if there is nothing to connect or
the condition brings its own connective. -/
theorem alikeTails_iff_hasConnective (e : Edge) :
    AlikeTails (shownTail e.condition) (writtenTail e.condition) ↔ e.HasConnective := by
  unfold HasConnective
  cases e.condition with
  | none => exact iff_of_true (.blanks rfl) (Or.inl nofun)
  | some c =>
    have hconnective : ((∀ condition, some c = some condition → AreBlank condition.toList) ∨
        ∃ condition, some c = some condition ∧ IsConnected condition.toList) ↔
          AreBlank c.toList ∨ IsConnected c.toList := by
      simp only [Option.some.injEq, forall_eq', exists_eq_left']
    rw [hconnective]
    by_cases hrest : strip (dropLeadingAnd c.toList) = []
    · have hconnected : ¬IsConnected c.toList := fun h => (isConnected_iff.1 h).2.1 hrest
      rw [alikeTails_nothing_iff hrest, or_iff_left hconnected]
    · have hblank : ¬AreBlank c.toList := mt strip_dropLeadingAnd_of_areBlank hrest
      rw [alikeTails_condition_iff hrest, or_iff_right hblank]

theorem alikeAfter_iff (h : e.HasPlainNames) (params : OrderedMap String Value) :
    AlikeAfter e.pairsText e.predicateText (e.onText params) ↔ e.HasConnective := by
  have hshown := toList_predicateText h
  have hwritten := e.toList_onText params
  rw [← e.alikeTails_iff_hasConnective, AlikeAfter]
  constructor
  · rintro (hsame | ⟨tail, tail', htail, htail', halike⟩)
    · rw [hsame, hwritten] at hshown
      rw [List.append_cancel_left hshown]
      exact .blanks rfl
    · rw [hshown] at htail
      rw [hwritten] at htail'
      rwa [List.append_cancel_left htail, List.append_cancel_left htail']
  · intro halike
    exact Or.inr ⟨_, _, hshown, hwritten, halike⟩

end Edge

namespace Session

/-- For every builder that calls have made, and an edge of it whose names are written without
quotes.  Compiling without filters succeeds, and the statement can be written unless a table has an
empty name or field.  In the statement the condition of the edge's join stands after ON, and the
edge describes its predicate alike, up to blanks and to the letter case of the connective, exactly
if its extra condition is blank or is none, or if it starts with an AND that is dropped, something
follows, and no colon is escaped in it.  Otherwise the two texts differ. -/
theorem predicate_alike_iff (schema : Schema) (cs : List Command) {name : String} {b : Builder}
    (hb : ((ofSchema schema).obeyAll cs).builder? name = some b) {e : Edge}
    (he : e ∈ b.graph.edges) (hplain : e.HasPlainNames) (chains : KeyChains) :
    (∃ c, (b.graph.compile [] chains).outcome = .ok c ∧
      (c.statement.IsWritable ↔ ∀ v ∈ b.graph.vertices, v.table.name ≠ "" ∧ "" ∉ v.table.fields)) ∧
    ∀ filters c sql, (b.graph.compile filters chains).outcome = .ok c →
      c.statement.text = .ok sql →
        (∃ pre post, sql = pre ++ " ON " ++ e.onText c.params ++ post) ∧
        (AlikeAfter e.pairsText e.predicateText (e.onText c.params) ↔ e.HasConnective) ∧
        (¬e.HasConnective → e.predicateText ≠ e.onText c.params) := by
  have hg := grown_run schema cs hb
  obtain ⟨root, hroot⟩ := Option.isSome_iff_exists.1 hg.has_root
  constructor
  · exact ⟨_, hg.outcome_compile hroot [] chains, hg.isWritable_plain_iff hroot⟩
  · intro filters c sql hc hsql
    have halike := e.alikeAfter_iff hplain c.params
    exact ⟨Graph.exists_condition_printed hc (.text hsql) he, halike,
      fun hnot hsame => hnot (halike.1 (Or.inl hsame))⟩

/-- Calls that join a table under an extra condition. -/
def describedCalls (condition : String) : List Command :=
  [.select "q" (.named "a") "a" false,
    .join "q" true (.named "b") (some "bs") "b" "a"
      { kind := .ok .multiple, on := [(.str "x", .str "id")], condition := some condition }]

def describedBuilder (condition : String) : Builder :=
  (((ofSchema (.ofSource (.uniform ⟨["id", "x"], ["id"]⟩))).obeyAll
    (describedCalls condition)).builder? "q").getD default

/-- A condition with the word AND is described as it is written; without it, the description has
no connective, and the two texts differ. -/
theorem predicate_alike_iff_described :
    (∃ c sql pre post, ∃ e ∈ (describedBuilder "and b.id = 1 ").graph.edges,
      ((describedBuilder "and b.id = 1 ").graph.compile [] .empty).outcome = .ok c ∧
      c.statement.text = .ok sql ∧ sql = pre ++ " ON " ++ "b.x = a.id AND b.id = 1" ++ post ∧
      e.predicateText = "b.x = a.id and b.id = 1 " ∧
      AlikeAfter "b.x = a.id" "b.x = a.id and b.id = 1 " "b.x = a.id AND b.id = 1") ∧
    ∃ c sql pre post, ∃ e ∈ (describedBuilder "b.id = 1").graph.edges,
      ((describedBuilder "b.id = 1").graph.compile [] .empty).outcome = .ok c ∧
      c.statement.text = .ok sql ∧ sql = pre ++ " ON " ++ "b.x = a.id AND b.id = 1" ++ post ∧
      e.predicateText = "b.x = a.id b.id = 1" ∧
      ¬AlikeAfter "b.x = a.id" "b.x = a.id b.id = 1" "b.x = a.id AND b.id = 1" ∧
      "b.x = a.id b.id = 1" ≠ "b.x = a.id AND b.id = 1" := by
  constructor
  · have hb : ((ofSchema (.ofSource (.uniform ⟨["id", "x"], ["id"]⟩))).obeyAll
        (describedCalls "and b.id = 1 ")).builder? "q" =
          some (describedBuilder "and b.id = 1 ") := rfl
    obtain ⟨e, he, hcondition, hplain, hpairs, hpredicate, hwritten⟩ :
        ∃ e ∈ (describedBuilder "and b.id = 1 ").graph.edges,
          e.condition = some "and b.id = 1 " ∧ e.HasPlainNames ∧ e.pairsText = "b.x = a.id" ∧
            e.predicateText = "b.x = a.id and b.id = 1 " ∧
              e.onText (Parameters.ofEdges (describedBuilder "and b.id = 1 ").graph.edges).values =
                "b.x = a.id AND b.id = 1" :=
      ⟨_, List.mem_cons_self, rfl, by decide +kernel, by decide +kernel, by decide +kernel,
        by decide +kernel⟩
    obtain ⟨⟨c, hc, hwritable⟩, hon⟩ := predicate_alike_iff _ _ hb he hplain .empty
    obtain ⟨sql, hsql⟩ := hwritable.2 (by decide)
    obtain ⟨⟨pre, post, hsplit⟩, halike, -⟩ := hon [] c sql hc hsql
    rw [Graph.params_compile hc, hwritten] at hsplit halike
    rw [hpairs, hpredicate] at halike
    refine ⟨c, sql, pre, post, e, he, hc, hsql, hsplit, hpredicate,
      halike.2 (Or.inr ⟨_, hcondition, ?_⟩)⟩
    exact ⟨[], "and".toList, ' ', "b.id = 1 ".toList, by decide +kernel⟩
  · have hb : ((ofSchema (.ofSource (.uniform ⟨["id", "x"], ["id"]⟩))).obeyAll
        (describedCalls "b.id = 1")).builder? "q" = some (describedBuilder "b.id = 1") := rfl
    obtain ⟨e, he, hcondition, hplain, hpairs, hpredicate, hwritten⟩ :
        ∃ e ∈ (describedBuilder "b.id = 1").graph.edges,
          e.condition = some "b.id = 1" ∧ e.HasPlainNames ∧ e.pairsText = "b.x = a.id" ∧
            e.predicateText = "b.x = a.id b.id = 1" ∧
              e.onText (Parameters.ofEdges (describedBuilder "b.id = 1").graph.edges).values =
                "b.x = a.id AND b.id = 1" :=
      ⟨_, List.mem_cons_self, rfl, by decide +kernel, by decide +kernel, by decide +kernel,
        by decide +kernel⟩
    obtain ⟨⟨c, hc, hwritable⟩, hon⟩ := predicate_alike_iff _ _ hb he hplain .empty
    obtain ⟨sql, hsql⟩ := hwritable.2 (by decide)
    obtain ⟨⟨pre, post, hsplit⟩, halike, hdiffer⟩ := hon [] c sql hc hsql
    have hnot : ¬e.HasConnective := by
      rintro (hblank | ⟨condition, hsome, hconnected⟩)
      · exact absurd (hblank _ hcondition) (by decide)
      · rw [hcondition] at hsome
        cases hsome
        exact not_beginsWithAnd_cons (by decide) (by decide) (isConnected_iff.1 hconnected).1
    rw [Graph.params_compile hc, hwritten] at hsplit halike hdiffer
    rw [hpairs, hpredicate] at halike
    rw [hpredicate] at hdiffer
    exact ⟨c, sql, pre, post, e, he, hc, hsql, hsplit, hpredicate, mt halike.1 hnot,
      hdiffer hnot⟩

end Session

end NestedJoin
