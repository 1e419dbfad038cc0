import NestedJoin.Schema.Description
set_option autoImplicit false

/-!
# Declared schemas

A schema made of declared tables.  A table is filed under its full name, and a subject is
looked up by its table name; a declared table stands for itself, whether or not the schema
declares it.

A table can be declared if no other one has its full name, its columns have names, none of
them is listed twice, and its primary key names columns.  A declaration that says nothing
but a name may also stand for a table that is declared already.  A class can be mapped to a
table only if the table has a primary key.

A schema is built from a collection of declarations, or from a class that stands directly
under the root of all declarative classes.

Main statements: `columnFault?_eq_none_iff`, which columns can be declared, and
`get?_of_declare`, what is filed under the name of a table that was declared.
-/

namespace NestedJoin

namespace Declaration

/-- Why columns cannot be declared after some others, if there is a reason. -/
def columnFault? (table : String) (seen : List String) : List String → Option Fault
  | [] => none
  | c :: cs =>
    if c = "" then some (.unnamedColumn table)
    else if c ∈ seen then some (.repeatedColumn c table)
    else columnFault? table (c :: seen) cs

/-- Columns can be declared exactly if all have names and none is listed twice. -/
theorem columnFault?_eq_none_iff {table : String} {seen cs : List String} :
    columnFault? table seen cs = none ↔ "" ∉ cs ∧ cs.Nodup ∧ ∀ c ∈ cs, c ∉ seen := by
  induction cs generalizing seen with
  | nil => simp [columnFault?]
  | cons c cs ih =>
    by_cases hc : c = ""
    · simp [columnFault?, hc]
    · have hm : "" ≠ c := fun h => hc h.symm
      by_cases hs : c ∈ seen
      · simp [columnFault?, hc, hs]
      · simp only [columnFault?, hc, hs, if_false, ih, List.mem_cons, hm, false_or,
          List.nodup_cons, not_or, forall_eq_or_imp, not_false_eq_true, true_and]
        constructor
        · rintro ⟨he, hd, hn⟩
          exact ⟨he, ⟨fun h => (hn c h).1 rfl, hd⟩, fun k hk => (hn k hk).2⟩
        · rintro ⟨he, ⟨hnot, hd⟩, hn⟩
          exact ⟨he, hd, fun k hk => ⟨fun h => hnot (h ▸ hk), hn k hk⟩⟩

/-- Why a table cannot be declared as it is, if there is a reason. -/
def fault? (d : Declaration) : Option Fault :=
  (columnFault? d.name [] d.columns).or <|
    (d.primaryKey.find? fun c => decide (c ∉ d.columns)).map (.keyNotColumn · d.name)

/-- Why a class cannot be mapped to a table, if there is one and a reason. -/
def mappingFault? (d : Declaration) (model : Option Model) : Option Fault :=
  if d.primaryKey = [] then model.map (.unmappable ·.name) else none

/-- Whether a declaration says nothing but a name. -/
def isBare (d : Declaration) : Bool := d.columns.isEmpty && d.primaryKey.isEmpty

end Declaration

/-- The tables that are declared. -/
structure Metadata where
  tables : List Declaration
  deriving DecidableEq, Repr, Inhabited

namespace Metadata

/-- The table filed under a name. -/
def get? (m : Metadata) (name : String) : Option Declaration :=
  m.tables.find? fun d => d.fullName == name

/-- The declared tables with one more, and perhaps a class mapped to it. -/
def declare (m : Metadata) (d : Declaration) (model : Option Model) : Except Fault Metadata :=
  match m.get? d.fullName with
  | some e =>
    if d.isBare then (e.mappingFault? model).elim (.ok m) .error
    else .error (.repeatedTable d.fullName)
  | none => (d.fault?.or (d.mappingFault? model)).elim (.ok ⟨m.tables ++ [d]⟩) .error

/-- Under the full name of a table that was declared the table itself is filed, unless another
one was before. -/
theorem get?_of_declare {m m' : Metadata} {d : Declaration} {model : Option Model}
    (h : m.declare d model = .ok m') :
    m'.get? d.fullName = some ((m.get? d.fullName).getD d) := by
  simp only [declare] at h
  split at h
  · next e he =>
    split at h
    · cases hf : e.mappingFault? model with
      | some f => simp [hf] at h
      | none =>
        simp only [hf, Option.elim_none, Except.ok.injEq] at h
        rw [← h, he, Option.getD_some]
    · cases h
  · next he =>
    cases hf : d.fault?.or (d.mappingFault? model) with
    | some f => simp [hf] at h
    | none =>
      simp only [hf, Option.elim_none, Except.ok.injEq] at h
      have hm : m.tables.find? (fun e => e.fullName == d.fullName) = none := he
      rw [← h, he, Option.getD_none]
      simp [get?, List.find?_append, hm]

/-- The names that tables are filed under, in the order of their code points. -/
def sortedNames (m : Metadata) : List String :=
  (m.tables.map Declaration.fullName).mergeSort fun a b => decide (a ≤ b)

/-- The written form of a declared schema. -/
def text (m : Metadata) : String := "<MetadataSchema " ++ Text.quotedList m.sortedNames ++ ">"

/-- The table a subject means. -/
def find (m : Metadata) (s : Subject) : Except Fault Declaration :=
  match s with
  | .declared d => .ok d
  | s => do
    match m.get? (← s.tableName) with
    | some d => .ok d
    | none => .error (.unknownSubject s)

/-- What a schema may be asked to be built from. -/
inductive Base where
  | declarations (m : Metadata)
  /-- a class directly under the root of all declarative classes, with its declarations -/
  | declarative (m : Metadata)
  /-- anything else -/
  | unrelated
  deriving Repr, Inhabited

/-- The schema built from a base. -/
def ofBase : Base → Except Fault Metadata
  | .declarations m => .ok m
  | .declarative m => .ok m
  | .unrelated => .error .notSchemaBase

end Metadata

end NestedJoin
