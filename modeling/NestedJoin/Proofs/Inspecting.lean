import NestedJoin.Builder
set_option autoImplicit false

/-!
# Descriptions of a changing database

A schema that inspects a live database is asked about subjects, makes tables and is cleared, while
the database changes.  Whatever it answers, the database said so itself at some moment since the
descriptions were last cleared; a fault is what the database says now, and nothing is kept of it.
The two descriptions that one table takes are the same, since the first one is still kept when the
second is asked for.

Main statement: `Schema.answers_borneOut`.
-/

namespace NestedJoin

namespace Database

/-- What a database says about the table of a subject. -/
def describes (db : Database) (namespaceName : Option String) (subject : Subject) :
    Except Fault Description :=
  subject.tableName >>= fun name => (db.reflect namespaceName name).2

/-- The questions it takes to find out. -/
def asked (db : Database) (namespaceName : Option String) (subject : Subject) : List Question :=
  match subject.tableName with
  | .error _ => []
  | .ok name => (db.reflect namespaceName name).1

end Database

/-! ## Inspectors -/

namespace Inspector

/-- Every cached description is what one of some databases says. -/
def Recalls (i : Inspector) (moments : List Database) : Prop :=
  ∀ key d, i.cache.get? key = some d →
    ∃ db ∈ moments, (db.reflect i.namespaceName key.name).2 = .ok d

variable {i : Inspector} {moments : List Database} {db : Database} {key : CacheKey}

theorem Recalls.mono (h : i.Recalls moments) {moments' : List Database}
    (hsub : moments ⊆ moments') : i.Recalls moments' := by
  intro key d hget
  obtain ⟨db, hdb, hd⟩ := h key d hget
  exact ⟨db, hsub hdb, hd⟩

/-- What one of the databases says may be kept. -/
theorem Recalls.keep (h : i.Recalls moments) (hdb : db ∈ moments) {d : Description}
    (hd : (db.reflect i.namespaceName key.name).2 = .ok d) : (i.keep key d).Recalls moments := by
  intro key' d' hget
  have hstored := RecentCache.get?_store hget
  split at hstored
  · next hkey =>
    rw [hstored, hkey]
    exact ⟨db, hdb, hd⟩
  · exact h key' d' hstored

/-- A description just kept is given again. -/
theorem get?_keep (i : Inspector) (key : CacheKey) (d : Description) :
    (i.keep key d).cache.get? key = some d :=
  RecentCache.get?_store_self i.cache key d (by decide)

/-- The rules by which a database is described to those who ask. -/
inductive Describes (i : Inspector) (db : Database) (key : CacheKey) : Answer → Prop
  | cached {d : Description} (h : i.cache.get? key = some d) :
    Describes i db key ⟨[], .ok d, i.keep key d⟩
  | reflected {d : Description} (h : (db.reflect i.namespaceName key.name).2 = .ok d) :
    Describes i db key ⟨(db.reflect i.namespaceName key.name).1, .ok d, i.keep key d⟩
  /-- nothing is kept of a fault -/
  | missing {f : Fault} (h : (db.reflect i.namespaceName key.name).2 = .error f) :
    Describes i db key ⟨(db.reflect i.namespaceName key.name).1, .error f, i⟩

/-- Every description follows one of the rules. -/
theorem describes_describe (i : Inspector) (db : Database) (key : CacheKey) :
    i.Describes db key (i.describe db key) := by
  cases hc : i.cache.get? key with
  | some d =>
    rw [describe_of_cached hc]
    exact .cached hc
  | none =>
    rcases hr : db.reflect i.namespaceName key.name with ⟨questions, outcome⟩
    cases outcome with
    | ok d =>
      have hdescribe : i.describe db key =
          ⟨(db.reflect i.namespaceName key.name).1, .ok d, i.keep key d⟩ := by
        simp only [describe, hc, hr]
      rw [hdescribe]
      exact .reflected (by rw [hr])
    | error f =>
      have hdescribe : i.describe db key =
          ⟨(db.reflect i.namespaceName key.name).1, .error f, i⟩ := by
        simp only [describe, hc, hr]
      rw [hdescribe]
      exact .missing (by rw [hr])

end Inspector

/-! ## Periods -/

/-- The databases that a schema has inspected since its descriptions were last cleared. -/
structure Period where
  present : Database
  earlier : List Database

/-- All databases of a period. -/
def Period.moments (p : Period) : List Database := p.present :: p.earlier

theorem Period.present_mem (p : Period) : p.present ∈ p.moments := List.mem_cons_self

namespace Schema

/-- What may happen to a schema that inspects a live database. -/
inductive Happening where
  | tableName (subject : Subject)
  | fields (subject : Subject)
  | primaryKey (subject : Subject)
  /-- a builder makes a table -/
  | table (subject : Subject) (aliasName : String) (container : Option String)
  /-- the cached descriptions are forgotten -/
  | clear
  /-- the tables of the database are created, altered or dropped -/
  | alter (db : Database)

/-- The schema after something happened. -/
def after (s : Schema) : Happening → Schema
  | .tableName _ => s
  | .fields subject => (s.fields subject).2
  | .primaryKey subject => (s.primaryKey subject).2
  | .table subject aliasName container => (s.table subject aliasName container).2
  | .clear => s.clear.toOption.getD s
  | .alter db => (s.changeDatabase fun _ => .ok db).toOption.getD s

/-- A schema that has not inspected its database yet. -/
def ofDatabase (namespaceName : Option String) (db : Database) : Schema :=
  ofSource (.inspected (.ofNamespace namespaceName) db)

end Schema

namespace Period

/-- The period after something happened. -/
def after (p : Period) : Schema.Happening → Period
  | .clear => ⟨p.present, []⟩
  | .alter db => ⟨db, p.moments⟩
  | _ => p

/-- The period at the beginning. -/
def ofDatabase (db : Database) : Period := ⟨db, []⟩

end Period

namespace Schema

/-- The schema inspects the present database, and has cached what the databases of a period say. -/
def Inspects (s : Schema) (namespaceName : Option String) (p : Period) : Prop :=
  ∃ i : Inspector, s.source = .inspected i p.present ∧ i.namespaceName = namespaceName ∧
    i.Recalls p.moments

/-! ## What a question does -/

section Question

variable {s : Schema} {namespaceName : Option String} {p : Period}

theorem Inspects.tableName (h : s.Inspects namespaceName p) (subject : Subject) :
    s.tableName subject = subject.tableName := by
  obtain ⟨i, hs, -, -⟩ := h
  simp only [Schema.tableName, hs]

/-- The rules by which a schema describes a subject in a period. -/
inductive Describes (s : Schema) (namespaceName : Option String) (p : Period) (subject : Subject) :
    Except Fault Description × Schema → Prop
  /-- the fault is the present database's, and nothing is kept of it -/
  | fault {f : Fault} {s' : Schema} (h : p.present.describes namespaceName subject = .error f)
    (hs : s'.source = s.source)
    (hq : s'.questions = s.questions ++ p.present.asked namespaceName subject) :
    Describes s namespaceName p subject (.error f, s')
  /-- the description is of some moment; it is given again, without a question -/
  | given {d : Description} {s' : Schema} {db : Database} (hdb : db ∈ p.moments)
    (h : db.describes namespaceName subject = .ok d) (hs : s'.Inspects namespaceName p)
    (hq : s'.questions = s.questions ∨
      s'.questions = s.questions ++ p.present.asked namespaceName subject)
    (hagain : ∃ s'', s'.describe subject = (.ok d, s'') ∧ s''.Inspects namespaceName p ∧
      s''.questions = s'.questions) :
    Describes s namespaceName p subject (.ok d, s')

/-- A cached description is given without a question, and is kept. -/
theorem describe_of_cached {i : Inspector} {db : Database} {subject : Subject} {name : String}
    {d : Description} (hs : s.source = .inspected i db) (hn : subject.tableName = .ok name)
    (hc : i.cache.get? ⟨subject.nameOrigin, name⟩ = some d) :
    s.describe subject =
      (.ok d, ⟨.inspected (i.keep ⟨subject.nameOrigin, name⟩ d) db, s.questions⟩) := by
  simp only [Schema.describe, hs, hn, Inspector.describe_of_cached hc, List.append_nil]

theorem Inspects.describes (h : s.Inspects namespaceName p) (subject : Subject) :
    s.Describes namespaceName p subject (s.describe subject) := by
  obtain ⟨i, hs, rfl, hrecalls⟩ := h
  cases hn : subject.tableName with
  | error f =>
    have hdescribe : s.describe subject = (.error f, s) := by simp only [Schema.describe, hs, hn]
    rw [hdescribe]
    exact .fault (by simp only [Database.describes, hn, bind, Except.bind]) rfl
      (by simp only [Database.asked, hn, List.append_nil])
  | ok name =>
    have hreflects : ∀ db : Database,
        db.describes i.namespaceName subject = (db.reflect i.namespaceName name).2 :=
      fun db => by simp only [Database.describes, hn, bind, Except.bind]
    have hasked : p.present.asked i.namespaceName subject =
        (p.present.reflect i.namespaceName name).1 := by
      simp only [Database.asked, hn]
    -- a description that is kept answers the next question
    have hkept : ∀ (d : Description) (questions : List Question) (db : Database),
        db ∈ p.moments → (db.reflect i.namespaceName name).2 = .ok d → ∀ s' : Schema,
          s' = ⟨.inspected (i.keep ⟨subject.nameOrigin, name⟩ d) p.present, questions⟩ →
            s'.Inspects i.namespaceName p ∧ ∃ s'', s'.describe subject = (.ok d, s'') ∧
              s''.Inspects i.namespaceName p ∧ s''.questions = questions := by
      rintro d questions db hdb hd - rfl
      have hrecalls' : (i.keep ⟨subject.nameOrigin, name⟩ d).Recalls p.moments :=
        hrecalls.keep hdb hd
      exact ⟨⟨_, rfl, rfl, hrecalls'⟩, _, describe_of_cached rfl hn (Inspector.get?_keep ..),
        ⟨_, rfl, rfl, hrecalls'.keep hdb hd⟩, rfl⟩
    have hdescribe : s.describe subject =
        ((i.describe p.present ⟨subject.nameOrigin, name⟩).outcome,
          ⟨.inspected (i.describe p.present ⟨subject.nameOrigin, name⟩).inspector p.present,
            s.questions ++ (i.describe p.present ⟨subject.nameOrigin, name⟩).questions⟩) := by
      simp only [Schema.describe, hs, hn]
    rw [hdescribe]
    have hrule := i.describes_describe p.present ⟨subject.nameOrigin, name⟩
    generalize i.describe p.present ⟨subject.nameOrigin, name⟩ = answer at hrule ⊢
    cases hrule with
    | cached hc =>
      obtain ⟨db, hdb, hd⟩ := hrecalls _ _ hc
      obtain ⟨hinspects, hagain⟩ := hkept _ (s.questions ++ []) db hdb hd _ rfl
      exact .given hdb ((hreflects db).trans hd) hinspects (Or.inl (List.append_nil _)) hagain
    | reflected hd =>
      obtain ⟨hinspects, hagain⟩ := hkept _
        (s.questions ++ (p.present.reflect i.namespaceName name).1) _ p.present_mem hd _ rfl
      exact .given p.present_mem ((hreflects _).trans hd) hinspects
        (Or.inr (congrArg (s.questions ++ ·) hasked.symm)) hagain
    | missing hf =>
      exact .fault ((hreflects _).trans hf) hs.symm (congrArg (s.questions ++ ·) hasked.symm)

theorem Inspects.of_source_eq {s' : Schema} (h : s.Inspects namespaceName p)
    (hs : s'.source = s.source) : s'.Inspects namespaceName p := by
  obtain ⟨i, hi, hrest⟩ := h
  exact ⟨i, hs.trans hi, hrest⟩

theorem Inspects.describe (h : s.Inspects namespaceName p) (subject : Subject) :
    (s.describe subject).2.Inspects namespaceName p := by
  have hrule := h.describes subject
  generalize s.describe subject = answer at hrule
  cases hrule with
  | fault hf hs hq => exact h.of_source_eq hs
  | given hdb hd hs hq hagain => exact hs

/-- The description is what the database said at some moment of the period. -/
theorem Inspects.exists_describes (h : s.Inspects namespaceName p) (subject : Subject) :
    ∃ db ∈ p.moments, (s.describe subject).1 = db.describes namespaceName subject := by
  have hrule := h.describes subject
  generalize s.describe subject = answer at hrule ⊢
  cases hrule with
  | fault hf hs hq => exact ⟨p.present, p.present_mem, hf.symm⟩
  | given hdb hd hs hq hagain => exact ⟨_, hdb, hd.symm⟩

/-- A fault is what the database says now, and nothing is kept of it. -/
theorem Inspects.describe_eq_error (h : s.Inspects namespaceName p) {subject : Subject} {f : Fault}
    (hf : (s.describe subject).1 = .error f) :
    p.present.describes namespaceName subject = .error f ∧
      (s.describe subject).2.source = s.source := by
  have hrule := h.describes subject
  generalize s.describe subject = answer at hrule hf ⊢
  cases hrule with
  | fault hpresent hs hq => exact ⟨hpresent.trans hf, hs⟩
  | given hdb hd hs hq hagain => cases hf

/-- A table is made of one description, which takes the questions of one look at most. -/
theorem Inspects.table (h : s.Inspects namespaceName p) (subject : Subject) (aliasName : String)
    (container : Option String) :
    (∃ db ∈ p.moments, (s.table subject aliasName container).1 = do
      let name ← subject.tableName
      let d ← db.describes namespaceName subject
      Table.make aliasName name d.columns d.primaryKey container subject) ∧
    ((s.table subject aliasName container).2.questions = s.questions ∨
      (s.table subject aliasName container).2.questions =
        s.questions ++ p.present.asked namespaceName subject) ∧
    (s.table subject aliasName container).2.Inspects namespaceName p := by
  unfold Schema.table
  rw [h.tableName]
  cases hn : subject.tableName with
  | error f => exact ⟨⟨p.present, p.present_mem, rfl⟩, Or.inl rfl, h⟩
  | ok name =>
    have hrule := h.describes subject
    unfold Schema.fields
    generalize s.describe subject = answer at hrule ⊢
    cases hrule with
    | fault hf hs hq =>
      refine ⟨⟨p.present, p.present_mem, ?_⟩, Or.inr hq, h.of_source_eq hs⟩
      rw [hf]
      rfl
    | given hdb hd hs hq hagain =>
      obtain ⟨s'', hdescribe, hinspects, hquestions⟩ := hagain
      simp only [Except.map, primaryKey, hdescribe]
      refine ⟨⟨_, hdb, ?_⟩, ?_, hinspects⟩
      · rw [hd]
        rfl
      · rwa [hquestions]

/-- Whatever happens, the schema has cached what the databases of the period say. -/
theorem Inspects.step (h : s.Inspects namespaceName p) (happening : Happening) :
    (s.after happening).Inspects namespaceName (p.after happening) := by
  cases happening with
  | tableName subject => exact h
  | fields subject => exact h.describe subject
  | primaryKey subject => exact h.describe subject
  | table subject aliasName container => exact (h.table subject aliasName container).2.2
  | clear =>
    obtain ⟨i, hs, rfl, -⟩ := h
    refine ⟨i.clear, ?_, rfl, nofun⟩
    simp only [Schema.after, clear, hs]
    rfl
  | alter db =>
    obtain ⟨i, hs, hns, hrecalls⟩ := h
    refine ⟨i, ?_, hns, hrecalls.mono (List.subset_cons_self ..)⟩
    simp only [Schema.after, changeDatabase, hs]
    rfl

end Question

/-! ## Runs -/

theorem inspects_ofDatabase (namespaceName : Option String) (db : Database) :
    (ofDatabase namespaceName db).Inspects namespaceName (.ofDatabase db) :=
  ⟨.ofNamespace namespaceName, rfl, rfl, nofun⟩

theorem Inspects.run {s : Schema} {namespaceName : Option String} {p : Period}
    (h : s.Inspects namespaceName p) (happenings : List Happening) :
    (happenings.foldl Schema.after s).Inspects namespaceName (happenings.foldl Period.after p) := by
  induction happenings generalizing s p with
  | nil => exact h
  | cons happening happenings ih => exact ih (h.step happening)

/-- The answers of a schema about a subject are borne out by the databases of a period. -/
structure BorneOut (s : Schema) (namespaceName : Option String) (p : Period) (subject : Subject) :
    Prop where
  tableName : s.tableName subject = subject.tableName
  /-- every answer is what the database said at some moment -/
  fields : ∃ db ∈ p.moments,
    (s.fields subject).1 = (db.describes namespaceName subject).map Description.columns
  primaryKey : ∃ db ∈ p.moments,
    (s.primaryKey subject).1 = (db.describes namespaceName subject).map Description.primaryKey
  /-- if the database did not change, it is what it says now, faults included -/
  fields_unchanged : (∀ db ∈ p.earlier, db = p.present) →
    (s.fields subject).1 = (p.present.describes namespaceName subject).map Description.columns
  primaryKey_unchanged : (∀ db ∈ p.earlier, db = p.present) →
    (s.primaryKey subject).1 =
      (p.present.describes namespaceName subject).map Description.primaryKey
  /-- a fault is what the database says now in any case, and the schema keeps nothing of it -/
  fields_fault : ∀ f, (s.fields subject).1 = .error f →
    p.present.describes namespaceName subject = .error f ∧ (s.fields subject).2.source = s.source
  primaryKey_fault : ∀ f, (s.primaryKey subject).1 = .error f →
    p.present.describes namespaceName subject = .error f ∧
      (s.primaryKey subject).2.source = s.source
  /-- a table is made of one description, of one moment -/
  table : ∀ aliasName container, ∃ db ∈ p.moments, (s.table subject aliasName container).1 = do
    let name ← subject.tableName
    let d ← db.describes namespaceName subject
    Table.make aliasName name d.columns d.primaryKey container subject
  /-- it takes the questions of one look at the database, or none -/
  questions : ∀ aliasName container,
    (s.table subject aliasName container).2.questions = s.questions ∨
      (s.table subject aliasName container).2.questions =
        s.questions ++ p.present.asked namespaceName subject

theorem map_eq_error_iff {α β : Type} {f : α → β} {x : Except Fault α} {fault : Fault} :
    x.map f = .error fault ↔ x = .error fault := by
  cases x <;> simp [Except.map]

theorem Inspects.borneOut {s : Schema} {namespaceName : Option String} {p : Period}
    (h : s.Inspects namespaceName p) (subject : Subject) : s.BorneOut namespaceName p subject := by
  obtain ⟨db, hdb, hd⟩ := h.exists_describes subject
  have hfields : (s.fields subject).1 =
      (db.describes namespaceName subject).map Description.columns :=
    congrArg (Except.map Description.columns) hd
  have hkey : (s.primaryKey subject).1 =
      (db.describes namespaceName subject).map Description.primaryKey :=
    congrArg (Except.map Description.primaryKey) hd
  have hpresent : (∀ db ∈ p.earlier, db = p.present) → db = p.present := fun hsame =>
    (List.mem_cons.1 hdb).elim id (hsame db)
  exact
    { tableName := h.tableName subject
      fields := ⟨db, hdb, hfields⟩
      primaryKey := ⟨db, hdb, hkey⟩
      fields_unchanged := fun hsame => hpresent hsame ▸ hfields
      primaryKey_unchanged := fun hsame => hpresent hsame ▸ hkey
      fields_fault := fun f hf => h.describe_eq_error (map_eq_error_iff.1 hf)
      primaryKey_fault := fun f hf => h.describe_eq_error (map_eq_error_iff.1 hf)
      table := fun aliasName container => (h.table subject aliasName container).1
      questions := fun aliasName container => (h.table subject aliasName container).2.1 }

/-- Whatever happens to a schema and its database from the start, in any order and about any number
of tables, what the schema answers next is borne out by the databases since the descriptions were
last cleared. -/
theorem answers_borneOut (namespaceName : Option String) (db : Database)
    (happenings : List Happening) (subject : Subject) :
    (happenings.foldl Schema.after (ofDatabase namespaceName db)).BorneOut namespaceName
      (happenings.foldl Period.after (.ofDatabase db)) subject :=
  (Inspects.run (inspects_ofDatabase namespaceName db) happenings).borneOut subject

/-- A database of one table. -/
def noteDatabase (columns : List String) : Database :=
  OrderedMap.empty.insert (none, "note") ⟨columns, some ["id"]⟩

/-- What was kept before a change is answered until it is cleared. -/
example : [[], [.clear]].map (fun later =>
      ((([.fields (.named "note"), .alter (noteDatabase ["id", "text"])] ++ later).foldl
        Schema.after (ofDatabase none (noteDatabase ["id"]))).fields (.named "note")).1) =
    [.ok ["id"], .ok ["id", "text"]] := by
  rfl

end Schema

end NestedJoin
