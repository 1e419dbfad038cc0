import NestedJoin.Fault
set_option autoImplicit false

/-!
# Sources of a statement

What a statement reads from: a tree of tables, aliases, joins and named queries.  A join
that stands to the right of another join is put in brackets; searches by alias see a
bracketed tree as one nameless source, while the list of table names looks inside.  No
search looks inside a query.

Another name for a shared query is itself a shared query and no alias.  Of the names given
to a source one over the other only the outermost is written.  A source can be written only
if every name that is written has a written form and the shared queries have different
names.

The type of a join's condition is a parameter, so that searches, printing and meaning are
about one tree.

Main statements: `tableNames_grouped` and `aliasNames_grouped`, brackets are open to the
one list and closed to the other, and `writingFault?_eq_none_iff`, which says what sources
can be written.
-/

namespace NestedJoin

/-- Where a named query is written. -/
inductive QueryPlace where
  /-- where it is read -/
  | inline
  /-- once, in front of the statement; it is read by its name -/
  | shared
  deriving DecidableEq, Repr, Inhabited

/-- What a statement reads from, with join conditions of type `γ`. -/
inductive Source (γ : Type) where
  /-- a physical table -/
  | table (name : String) (columns : List String)
  /-- a source under another name -/
  | aliased (name : String) (inner : Source γ)
  /-- the matches of two sources, with `outer` also the unmatched rows of the left one -/
  | join (left right : Source γ) (outer : Bool) (on : γ)
  /-- a source in brackets -/
  | grouped (inner : Source γ)
  /-- a named query for all columns of a source -/
  | query (place : QueryPlace) (name : String) (inner : Source γ)
  deriving Repr

/-- A column of a named source. -/
structure ColumnRef where
  /-- the name of the source -/
  owner : String
  column : String
  deriving DecidableEq, Repr, Inhabited

namespace Source

variable {γ : Type}

instance : Inhabited (Source γ) := ⟨.table "" []⟩

/-- A physical table; a column that is listed twice counts once. -/
def ofTable (name : String) (columns : List String) : Source γ := .table name columns.eraseDups

/-! ## Views -/

/-- The columns a source offers. -/
def columns : Source γ → List String
  | .table _ cs => cs
  | .aliased _ s => s.columns
  | .join l r _ _ => l.columns ++ r.columns
  | .grouped s => s.columns
  | .query _ _ s => s.columns

/-- The name of a source; joins and brackets have none. -/
def name? : Source γ → Option String
  | .table n _ => some n
  | .aliased n _ => some n
  | .join .. => none
  | .grouped _ => none
  | .query _ n _ => some n

/-- A source as the right side of a join: a join is put in brackets. -/
def bracketed : Source γ → Source γ
  | .join l r o c => .grouped (.join l r o c)
  | s => s

/-- The parts of a tree of joins from left to right; brackets are one part. -/
def parts : Source γ → List (Source γ)
  | .join l r _ _ => l.parts ++ r.parts
  | s => [s]

/-! ## Names -/

/-- Whether a source is a shared query, under its own name or another one. -/
def isShared : Source γ → Bool
  | .query .shared _ _ => true
  | .aliased _ s => s.isShared
  | _ => false

/-- The physical tables from left to right, with repetitions, brackets included. -/
def tableNames : Source γ → List String
  | .table n _ => [n]
  | .aliased _ s => s.tableNames
  | .join l r _ _ => l.tableNames ++ r.tableNames
  | .grouped s => s.tableNames
  | .query _ _ _ => []

/-- The aliases from left to right, with repetitions, brackets excluded. -/
def aliasNames : Source γ → List String
  | .aliased n s => if s.isShared then [] else [n]
  | .join l r _ _ => l.aliasNames ++ r.aliasNames
  | _ => []

@[simp] theorem tableNames_grouped (s : Source γ) : (grouped s).tableNames = s.tableNames := rfl

@[simp] theorem aliasNames_grouped (s : Source γ) : (grouped s).aliasNames = [] := rfl

@[simp] theorem tableNames_bracketed (s : Source γ) : s.bracketed.tableNames = s.tableNames := by
  cases s <;> rfl

/-- The distinct physical tables that some sources read, empty names left out. -/
def allTableNames (roots : List (Source γ)) : List String :=
  ((roots.flatMap tableNames).filter (· ≠ "")).eraseDups

/-- The distinct aliases that some sources show. -/
def allAliasNames (roots : List (Source γ)) : List String :=
  (roots.flatMap aliasNames).eraseDups

/-! ## References -/

/-- The part of a tree of joins with a name; of several the rightmost. -/
def findNamed? : Source γ → String → Option (Source γ)
  | .join l r _ _, n => (r.findNamed? n).or (l.findNamed? n)
  | s, n => if s.name? = some n then some s else none

/-- The texts before and after the first point of a text. -/
def splitReference? (ref : String) : Option (String × String) :=
  let cs := ref.toList
  match cs.dropWhile (· != '.') with
  | [] => none
  | _ :: rest => some (String.ofList (cs.takeWhile (· != '.')), String.ofList rest)

/-- The first source, among the parts of some trees, with a name. -/
def findInRoots? (roots : List (Source γ)) (name : String) : Option (Source γ) :=
  roots.findSome? fun root => root.findNamed? name

/-- The column that a reference of the form `alias.column` means. -/
def resolve (roots : List (Source γ)) (ref : String) : Except Fault ColumnRef :=
  match splitReference? ref with
  | none => .error (.malformedReference ref)
  | some (owner, column) =>
    match findInRoots? roots owner with
    | none => .error (.aliasNotFound owner (allAliasNames roots))
    | some found =>
      if column ∈ found.columns then .ok ⟨owner, column⟩
      else .error (.columnNotFound column owner found.columns)

/-! ## Writing -/

/-- A name as the writing of a statement meets it. -/
inductive Mention where
  /-- a name is written -/
  | written (name : String)
  /-- a shared query gets its name -/
  | defined (name : String)
  deriving DecidableEq, Repr, Inhabited

/-- The name that a shared query gets. -/
def Mention.defined? : Mention → Option String
  | .written _ => none
  | .defined n => some n

/-- The columns of a source with the names of their owners. -/
def columnRefs : Source γ → List ColumnRef
  | .table n cs => cs.map (⟨n, ·⟩)
  | .aliased n s => s.columns.map (⟨n, ·⟩)
  | .join l r _ _ => l.columnRefs ++ r.columnRefs
  | .grouped s => s.columnRefs
  | .query _ n s => s.columns.map (⟨n, ·⟩)

/-- The names that writing a query for all columns of a source starts with. -/
def selectionMentions (s : Source γ) : List Mention :=
  s.columnRefs.flatMap fun r => [.written r.owner, .written r.column]

/-- The names in a source in the order of writing.  A name is written after what it is given
to, and only if the source is read by it: an alias or an inline query that has another name is
not.  A shared query gets its names from the outermost one inwards before it is written. -/
def mentionsWhere (isRead : Bool) : Source γ → List Mention
  | .table n _ => [.written n]
  | .aliased n s =>
    (if s.isShared then [.defined n] else []) ++ s.mentionsWhere false ++
      if isRead then [.written n] else []
  | .join l r _ _ => l.mentionsWhere true ++ r.mentionsWhere true
  | .grouped s => s.mentionsWhere true
  | .query .inline n s =>
    s.selectionMentions ++ s.mentionsWhere true ++ if isRead then [.written n] else []
  | .query .shared n s =>
    .defined n :: .written n :: (s.selectionMentions ++ s.mentionsWhere true)

/-- The names in a source that is read, in the order of writing. -/
def mentions (s : Source γ) : List Mention := s.mentionsWhere true

/-- What keeps names from being written, given the names of the shared queries before. -/
def mentionFault? (seen : List String) : List Mention → Option Fault
  | [] => none
  | .written n :: rest => if n = "" then some .emptyIdentifier else mentionFault? seen rest
  | .defined n :: rest =>
    if n ∈ seen then some (.repeatedQuery n) else mentionFault? (n :: seen) rest

/-- The names that the shared queries among some mentions get. -/
def definedNames (ms : List Mention) : List String := ms.filterMap Mention.defined?

@[simp] theorem definedNames_nil : definedNames [] = [] := rfl

@[simp] theorem definedNames_written (n : String) (ms : List Mention) :
    definedNames (.written n :: ms) = definedNames ms := rfl

@[simp] theorem definedNames_defined (n : String) (ms : List Mention) :
    definedNames (.defined n :: ms) = n :: definedNames ms := rfl

theorem mentionFault?_eq_none_iff {seen : List String} {ms : List Mention} :
    mentionFault? seen ms = none ↔
      .written "" ∉ ms ∧ (definedNames ms).Nodup ∧ ∀ n ∈ definedNames ms, n ∉ seen := by
  induction ms generalizing seen with
  | nil => simp [mentionFault?]
  | cons m rest ih =>
    cases m with
    | written n =>
      by_cases hn : n = ""
      · simp [mentionFault?, hn]
      · have hm : "" ≠ n := fun h => hn h.symm
        simp [mentionFault?, hn, ih, hm]
    | defined n =>
      by_cases hn : n ∈ seen
      · simp [mentionFault?, hn]
      · simp only [mentionFault?, hn, if_false, ih, definedNames_defined, List.nodup_cons,
          List.mem_cons, reduceCtorEq, false_or]
        constructor
        · rintro ⟨hw, hd, hs⟩
          refine ⟨hw, ⟨fun h => hs n h (.inl rfl), hd⟩, ?_⟩
          rintro k (rfl | hk)
          · exact hn
          · exact fun h => hs k hk (.inr h)
        · rintro ⟨hw, ⟨hnot, hd⟩, hs⟩
          refine ⟨hw, hd, fun k hk => ?_⟩
          rintro (rfl | h)
          · exact hnot hk
          · exact hs k (.inr hk) h

/-- The first thing that keeps some sources from being written, if there is one. -/
def writingFault? (roots : List (Source γ)) : Option Fault :=
  mentionFault? [] (roots.flatMap mentions)

/-- Sources can be written exactly when no name that is written is empty and the shared queries
have different names. -/
theorem writingFault?_eq_none_iff {roots : List (Source γ)} :
    writingFault? roots = none ↔ .written "" ∉ roots.flatMap mentions ∧
      (definedNames (roots.flatMap mentions)).Nodup := by
  simp [writingFault?, mentionFault?_eq_none_iff]

end Source

end NestedJoin
