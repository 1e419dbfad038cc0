import NestedJoin.Schema.Metadata
import NestedJoin.Schema.Inspector
set_option autoImplicit false

/-!
# Schemas

A schema answers three questions about a subject: the physical name of its table, its
columns and the columns of its primary key.  There are three kinds: declared tables, a
live database, and one description for all subjects.

Asking may change what an inspector keeps and puts questions to the live database, so
every answer comes with the schema afterwards.  The questions are kept in the order in
which they were put, until they are collected.
-/

namespace NestedJoin

/-- Where descriptions come from. -/
inductive SchemaSource where
  /-- declared tables -/
  | declared (m : Metadata)
  /-- a live database -/
  | inspected (i : Inspector) (db : Database)
  /-- one description for all subjects -/
  | uniform (d : Description)

instance : Inhabited SchemaSource := ⟨.uniform ⟨[], []⟩⟩

/-- A source of descriptions, and the questions it put to a live database so far. -/
structure Schema where
  source : SchemaSource
  questions : List Question

namespace Schema

/-- A schema that has put no question. -/
def ofSource (source : SchemaSource) : Schema := ⟨source, []⟩

instance : Inhabited Schema := ⟨ofSource default⟩

/-! ## Answers -/

/-- The physical name of a subject's table. -/
def tableName (s : Schema) (subject : Subject) : Except Fault String :=
  match s.source with
  | .declared m => (m.find subject).map Declaration.name
  | .inspected _ _ => subject.tableName
  | .uniform _ => .ok subject.display

/-- Describes the table of a subject. -/
def describe (s : Schema) (subject : Subject) : Except Fault Description × Schema :=
  match s.source with
  | .declared m => ((m.find subject).map Declaration.description, s)
  | .uniform d => (.ok d, s)
  | .inspected i db =>
    match subject.tableName with
    | .error f => (.error f, s)
    | .ok name =>
      let answer := i.describe db ⟨subject.nameOrigin, name⟩
      (answer.outcome, ⟨.inspected answer.inspector db, s.questions ++ answer.questions⟩)

/-- The columns of a subject's table. -/
def fields (s : Schema) (subject : Subject) : Except Fault (List String) × Schema :=
  let (answer, s') := s.describe subject
  (answer.map Description.columns, s')

/-- The columns of the primary key of a subject's table. -/
def primaryKey (s : Schema) (subject : Subject) : Except Fault (List String) × Schema :=
  let (answer, s') := s.describe subject
  (answer.map Description.primaryKey, s')

/-- The columns of some subjects, one after the other, up to the first fault. -/
def sweep (s : Schema) : List Subject → Except Fault Unit × Schema
  | [] => (.ok (), s)
  | subject :: rest =>
    match s.fields subject with
    | (.error f, s') => (.error f, s')
    | (.ok _, s') => s'.sweep rest

/-! ## Upkeep -/

/-- The schema without cached descriptions. -/
def clear (s : Schema) : Except Fault Schema :=
  match s.source with
  | .inspected i db => .ok { s with source := .inspected i.clear db }
  | _ => .error .nothingCached

/-- The schema after its live database changed. -/
def changeDatabase (s : Schema) (change : Database → Except Fault Database) :
    Except Fault Schema :=
  match s.source with
  | .inspected i db => (change db).map fun db' => { s with source := .inspected i db' }
  | _ => .ok s

/-- The questions put so far, and the schema with none. -/
def collect (s : Schema) : List Question × Schema := (s.questions, { s with questions := [] })

/-- The written form of a schema. -/
def text (s : Schema) : String :=
  match s.source with
  | .declared m => m.text
  | .inspected _ _ => "<InspectorSchema <Db>>"
  | .uniform _ => "<UniformSchema>"

end Schema

end NestedJoin
