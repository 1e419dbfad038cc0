import NestedJoin.Builder
set_option autoImplicit false

/-!
# Descriptions of a fixed source

A schema keeps what it has learned from a live database.  As long as the database bears out what
is kept, nobody can tell from the descriptions what was asked before: a schema describes every
subject as it would without its cache.

Main statement: `Schema.Faithful.table_eq`.
-/

namespace NestedJoin

/-! ## Inspectors -/

namespace Inspector

/-- Every cached description is what the database says. -/
def Faithful (i : Inspector) (db : Database) : Prop :=
  ∀ key d, i.cache.get? key = some d → (db.reflect i.namespaceName key.name).2 = .ok d

variable {i : Inspector} {db : Database}

theorem faithful_clear (i : Inspector) (db : Database) : i.clear.Faithful db := by
  intro key d h
  cases h

/-- What the database says may be kept. -/
theorem Faithful.keep (h : i.Faithful db) {key : CacheKey} {d : Description}
    (hd : (db.reflect i.namespaceName key.name).2 = .ok d) : (i.keep key d).Faithful db := by
  intro key' d' hget
  have hstored := RecentCache.get?_store hget
  split at hstored
  · next hkey =>
    rw [hstored, hkey]
    exact hd
  · exact h key' d' hstored

/-- A faithful inspector answers what the database says, and stays faithful. -/
theorem Faithful.describe (h : i.Faithful db) (key : CacheKey) :
    (i.describe db key).outcome = (db.reflect i.namespaceName key.name).2 ∧
      (i.describe db key).inspector.Faithful db ∧
      (i.describe db key).inspector.clear = i.clear := by
  cases hc : i.cache.get? key with
  | some d =>
    rw [describe_of_cached hc]
    exact ⟨(h key d hc).symm, h.keep (h key d hc), rfl⟩
  | none =>
    refine ⟨describe_of_fresh hc, ?_⟩
    unfold Inspector.describe
    rw [hc]
    dsimp only
    split
    · next hr => exact ⟨h.keep (by rw [hr]), rfl⟩
    · exact ⟨h, rfl⟩

end Inspector

/-! ## Schemas -/

/-- The source with nothing cached. -/
def SchemaSource.uncached : SchemaSource → SchemaSource
  | .inspected i db => .inspected i.clear db
  | source => source

namespace Schema

/-- A schema of the same source that has put no question. -/
def uncached (s : Schema) : Schema := ofSource s.source.uncached

/-- Every cached description is what the live database says. -/
def Faithful (s : Schema) : Prop := ∀ i db, s.source = .inspected i db → i.Faithful db

/-- A schema of the same source, and a faithful one. -/
structure Follows (s' s : Schema) : Prop where
  faithful : s'.Faithful
  uncached_eq : s'.uncached = s.uncached

theorem Faithful.follows {s : Schema} (h : s.Faithful) : s.Follows s := ⟨h, rfl⟩

theorem Follows.trans {s s' s'' : Schema} (h' : s''.Follows s') (h : s'.Follows s) :
    s''.Follows s :=
  ⟨h'.faithful, h'.uncached_eq.trans h.uncached_eq⟩

theorem tableName_uncached (s : Schema) (subject : Subject) :
    s.uncached.tableName subject = s.tableName subject := by
  obtain ⟨source, questions⟩ := s
  cases source <;> rfl

variable {s : Schema}

/-- A faithful schema describes a subject as it does without its cache, and stays faithful. -/
theorem Faithful.describe (h : s.Faithful) (subject : Subject) :
    (s.describe subject).1 = (s.uncached.describe subject).1 ∧
      (s.describe subject).2.Follows s := by
  obtain ⟨source, questions⟩ := s
  cases source with
  | declared m => exact ⟨rfl, h.follows⟩
  | uniform d => exact ⟨rfl, h.follows⟩
  | inspected i db =>
    simp only [Schema.describe, uncached, SchemaSource.uncached, ofSource]
    cases subject.tableName with
    | error f => exact ⟨rfl, h.follows⟩
    | ok name =>
      have hi : i.Faithful db := h i db rfl
      obtain ⟨hanswer, hkeeps, hclear⟩ := hi.describe ⟨subject.nameOrigin, name⟩
      have hfresh := ((Inspector.faithful_clear i db).describe ⟨subject.nameOrigin, name⟩).1
      refine ⟨hanswer.trans hfresh.symm, ?_, ?_⟩
      · intro i' db' hsource
        cases hsource
        exact hkeeps
      · exact congrArg (fun i' => Schema.mk (.inspected i' db) []) hclear

/-- The table of a subject as the source describes it, whatever is cached. -/
def tableOf (s : Schema) (subject : Subject) (aliasName : String) (container : Option String) :
    Except Fault Table := do
  let name ← s.tableName subject
  let d ← (s.uncached.describe subject).1
  Table.make aliasName name d.columns d.primaryKey container subject

theorem tableOf_uncached (s : Schema) : s.uncached.tableOf = s.tableOf := by
  have htwice : s.uncached.uncached = s.uncached := by
    obtain ⟨source, questions⟩ := s
    cases source <;> rfl
  funext subject aliasName container
  unfold tableOf
  rw [htwice, tableName_uncached]

/-- Schemas of one source make the same tables. -/
theorem tableOf_eq_of_uncached_eq {t : Schema} (h : s.uncached = t.uncached) :
    s.tableOf = t.tableOf := by
  rw [← tableOf_uncached, h, tableOf_uncached]

/-- A faithful schema makes the table that its source describes, and stays faithful. -/
theorem Faithful.table_eq (h : s.Faithful) (subject : Subject) (aliasName : String)
    (container : Option String) :
    (s.table subject aliasName container).1 = s.tableOf subject aliasName container ∧
      (s.table subject aliasName container).2.Follows s := by
  unfold table tableOf
  cases s.tableName subject with
  | error f => exact ⟨rfl, h.follows⟩
  | ok name =>
    obtain ⟨hanswer, hfollows⟩ := h.describe subject
    have hfields : s.fields subject =
        ((s.uncached.describe subject).1.map Description.columns, (s.describe subject).2) := by
      rw [← hanswer]
      rfl
    -- the second question is put to the schema that the first one left
    obtain ⟨hanswer', hfollows'⟩ := hfollows.faithful.describe subject
    have hkey : (s.describe subject).2.primaryKey subject =
        ((s.uncached.describe subject).1.map Description.primaryKey,
          ((s.describe subject).2.describe subject).2) := by
      rw [← hfollows.uncached_eq, ← hanswer']
      rfl
    simp only [hfields]
    cases hd : (s.uncached.describe subject).1 with
    | error f => exact ⟨rfl, hfollows⟩
    | ok d =>
      rw [hd] at hkey
      simp only [Except.map, hkey]
      exact ⟨rfl, hfollows'.trans hfollows⟩

end Schema

end NestedJoin
