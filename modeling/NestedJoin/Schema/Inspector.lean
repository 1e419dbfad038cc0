import NestedJoin.Schema.Description
import NestedJoin.OrderedMap
import NestedJoin.RecentCache
set_option autoImplicit false

/-!
# Inspected schemas

A schema that asks a live database.  Describing a table takes two questions, one for its
columns and one for its primary key; a table the database does not have answers the first
one with a fault, and a table without columns counts as missing.  Descriptions are cached
until they are cleared or crowded out; faults are not cached.  A name that a declared table
carries and the same name stated as a text are cached apart.

Main statements: `describe_of_cached`, a cached description is given without a question,
and `describe_of_fresh`, otherwise the answer is what the database says now.
-/

namespace NestedJoin

/-! ## Live databases -/

/-- A table of a live database. -/
structure LiveTable where
  columns : List String
  /-- the columns of the primary key, if the database says what they are -/
  primaryKey : Option (List String)
  deriving DecidableEq, Repr, Inhabited

/-- The tables of a live database, by the namespace they live in and their name. -/
abbrev Database : Type := OrderedMap (Option String × String) LiveTable

/-- A question put to a live database. -/
inductive Question where
  | columns (table : String) (namespaceName : Option String)
  | primaryKey (table : String) (namespaceName : Option String)
  deriving DecidableEq, Repr, Inhabited

namespace Database

/-- The database without a table that it has. -/
def drop (db : Database) (namespaceName : Option String) (name : String) :
    Except Fault Database :=
  if OrderedMap.contains db (namespaceName, name) then
    .ok (OrderedMap.erase db (namespaceName, name))
  else .error (.missingTable namespaceName name)

/-- What a live database says about a table, with the questions it takes to find out. -/
def reflect (db : Database) (namespaceName : Option String) (name : String) :
    List Question × Except Fault Description :=
  match OrderedMap.get? db (namespaceName, name) with
  | none => ([.columns name namespaceName], .error (.unknownSubject (.named name)))
  | some t =>
    ([.columns name namespaceName, .primaryKey name namespaceName],
      if t.columns = [] then .error (.unknownSubject (.named name))
      else .ok ⟨t.columns, t.primaryKey.getD []⟩)

end Database

/-! ## Inspectors -/

/-- The number of descriptions an inspector keeps. -/
def inspectorCapacity : Nat := 256

/-- What a description is cached under: a table name and where it comes from. -/
structure CacheKey where
  origin : Subject.NameOrigin
  name : String
  deriving DecidableEq, Repr, Inhabited

/-- A schema that asks a live database. -/
structure Inspector where
  /-- the namespace in which tables are looked for -/
  namespaceName : Option String
  cache : RecentCache CacheKey Description inspectorCapacity

namespace Inspector

/-- An inspector that has not asked anything yet. -/
def ofNamespace (namespaceName : Option String) : Inspector := ⟨namespaceName, .empty⟩

instance : Inhabited Inspector := ⟨ofNamespace none⟩

/-- The inspector without its cached descriptions. -/
def clear (i : Inspector) : Inspector := { i with cache := .empty }

/-- The inspector with a description cached. -/
def keep (i : Inspector) (key : CacheKey) (d : Description) : Inspector :=
  { i with cache := i.cache.store key d }

/-- An answer of an inspector: the questions it put, what it says, and what it keeps. -/
structure Answer where
  questions : List Question
  outcome : Except Fault Description
  inspector : Inspector

/-- Describes the table of a name. -/
def describe (i : Inspector) (db : Database) (key : CacheKey) : Answer :=
  match i.cache.get? key with
  | some d => ⟨[], .ok d, i.keep key d⟩
  | none =>
    match db.reflect i.namespaceName key.name with
    | (questions, .ok d) => ⟨questions, .ok d, i.keep key d⟩
    | (questions, .error f) => ⟨questions, .error f, i⟩

/-- A cached description is given without a question. -/
theorem describe_of_cached {i : Inspector} {db : Database} {key : CacheKey} {d : Description}
    (h : i.cache.get? key = some d) : i.describe db key = ⟨[], .ok d, i.keep key d⟩ := by
  simp [describe, h]

/-- Without a cached description the answer is what the database says now. -/
theorem describe_of_fresh {i : Inspector} {db : Database} {key : CacheKey}
    (h : i.cache.get? key = none) :
    (i.describe db key).outcome = (db.reflect i.namespaceName key.name).2 := by
  simp only [describe, h]
  split <;> simp_all

end Inspector

end NestedJoin
