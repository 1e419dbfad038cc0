import NestedJoin.Fault
import NestedJoin.Row
set_option autoImplicit false

/-!
# Tables seen through an alias

A table taking part in a query: its alias, its physical name, its fields and its primary
key.  Every field has a flat result column, named by alias and field; `extract` reads a
table's fields back from a flat row.

Main statements: `Table.columns_nodup`, a table never produces a column twice, and
`Table.make_eq_ok_iff`, which says what `make` accepts.
-/

namespace NestedJoin

/-- The name of the flat result column that carries a field of an aliased table. -/
def flatName (aliasName field : String) : String := aliasName ++ "_" ++ field

/-- Under one alias different fields have different columns. -/
theorem flatName_injective {aliasName f g : String}
    (h : flatName aliasName f = flatName aliasName g) : f = g := by
  have h' : (aliasName ++ "_" ++ f).toList = (aliasName ++ "_" ++ g).toList :=
    congrArg String.toList h
  simp only [String.toList_append] at h'
  exact String.toList_inj.1 (List.append_cancel_left h')

theorem flatName_ne_empty (aliasName field : String) : flatName aliasName field ≠ "" := by
  intro h
  have h' : (aliasName ++ "_" ++ field).toList = [] := congrArg String.toList h
  simp only [String.toList_append] at h'
  exact List.cons_ne_nil _ _ (List.append_eq_nil_iff.1 (List.append_eq_nil_iff.1 h').1).2

/-- One table taking part in a query. -/
structure Table where
  aliasName : String
  /-- the physical name -/
  name : String
  fields : List String
  primaryKey : List String
  /-- the field of the parent's entity that takes this table's entities; none for a root -/
  container : Option String
  /-- what the table was asked for by -/
  subject : Subject
  alias_ne_empty : aliasName ≠ ""
  fields_ne_nil : fields ≠ []
  fields_nodup : fields.Nodup
  primaryKey_ne_nil : primaryKey ≠ []
  primaryKey_subset : ∀ f ∈ primaryKey, f ∈ fields

namespace Table

/-! ## Making a table -/

/-- A table of the given parts, or the first thing that is wrong with them. -/
def make (aliasName name : String) (fields primaryKey : List String) (container : Option String)
    (subject : Subject) : Except Fault Table :=
  if h1 : aliasName = "" then .error .emptyAlias
  else if h2 : fields = [] then .error (.noFields aliasName)
  else if h3 : fields.Nodup then
    if h4 : primaryKey = [] then .error (.noPrimaryKey aliasName)
    else match h5 : primaryKey.find? (fun f => decide (f ∉ fields)) with
      | some f => .error (.primaryKeyNotField aliasName f)
      | none => .ok
        { aliasName, name, fields, primaryKey, container, subject
          alias_ne_empty := h1
          fields_ne_nil := h2
          fields_nodup := h3
          primaryKey_ne_nil := h4
          primaryKey_subset := fun f hf => by simpa using List.find?_eq_none.1 h5 f hf }
  else .error (.duplicateFields aliasName fields)

/-- `make` accepts exactly the parts that satisfy a table's conditions. -/
theorem make_eq_ok_iff {aliasName name : String} {fields primaryKey : List String}
    {container : Option String} {subject : Subject} :
    (∃ t, make aliasName name fields primaryKey container subject = .ok t) ↔
      aliasName ≠ "" ∧ fields ≠ [] ∧ fields.Nodup ∧ primaryKey ≠ [] ∧
        ∀ f ∈ primaryKey, f ∈ fields := by
  constructor
  · rintro ⟨t, h⟩
    simp only [make] at h
    split at h
    · cases h
    · split at h
      · cases h
      · split at h
        · split at h
          · cases h
          · split at h
            · cases h
            · cases h
              next h5 =>
              exact ⟨by assumption, by assumption, by assumption, by assumption,
                fun f hf => by simpa using List.find?_eq_none.1 h5 f hf⟩
        · cases h
  · rintro ⟨h1, h2, h3, h4, h5⟩
    have hf : primaryKey.find? (fun f => decide (f ∉ fields)) = none :=
      List.find?_eq_none.2 fun f hf => by simpa using h5 f hf
    simp only [make, dif_neg h1, dif_neg h2, dif_pos h3, dif_neg h4]
    split
    · next f hs => rw [hf] at hs; cases hs
    · exact ⟨_, rfl⟩

/-! ## Columns -/

/-- The flat result column of a field. -/
def column (t : Table) (field : String) : String := flatName t.aliasName field

/-- The flat result columns in field order. -/
def columns (t : Table) : List String := t.fields.map t.column

/-- Every field with its column. -/
def fieldMap (t : Table) : List (String × String) := t.fields.map fun f => (f, t.column f)

/-- Every column with its field. -/
def columnMap (t : Table) : List (String × String) := t.fields.map fun f => (t.column f, f)

/-- The columns of the table's own primary key. -/
def keyColumns (t : Table) : List String := t.primaryKey.map t.column

theorem columns_nodup (t : Table) : t.columns.Nodup :=
  List.Pairwise.map t.column (fun _ _ hne h => hne (flatName_injective h)) t.fields_nodup

theorem mem_columns_of_mem_keyColumns {t : Table} {c : String} (h : c ∈ t.keyColumns) :
    c ∈ t.columns := by
  simp only [keyColumns, List.mem_map] at h
  obtain ⟨f, hf, rfl⟩ := h
  exact List.mem_map_of_mem (t.primaryKey_subset f hf)

/-- Whether the table starts a graph rather than joins one. -/
def isRoot (t : Table) : Bool := t.container.isNone

/-! ## Reading rows -/

/-- Whether a row carries data of the table: an outer join without a match leaves the key null. -/
def isPresent (t : Table) (row : Row) : Bool := t.keyColumns.any row.holds

/-- The fields whose columns occur in a row, with their values, in field order. -/
def extractEntries (t : Table) (row : Row) : List (String × Value) :=
  t.fields.filterMap fun f => (row.get? (t.column f)).map fun v => (f, v)

theorem extractEntries_keys_sublist (t : Table) (row : Row) :
    ((t.extractEntries row).map Prod.fst).Sublist t.fields := by
  simp only [extractEntries]
  induction t.fields with
  | nil => simp
  | cons f fs ih =>
    cases h : row.get? (t.column f) with
    | none => simpa [List.filterMap_cons, h] using ih.cons f
    | some v => simpa [List.filterMap_cons, h] using ih.cons_cons f

/-- The table's part of a row. -/
def extract (t : Table) (row : Row) : OrderedMap String Value :=
  ⟨t.extractEntries row, t.fields_nodup.sublist (t.extractEntries_keys_sublist row)⟩

/-! ## Assignment -/

/-- The names under which callers know the parts of a table. -/
def partNames : List String :=
  ["alias", "name", "fields", "primary_key", "container_field", "entity", "field_map",
    "reverse_field_map", "pk_field_chain"]

/-- Why nothing is assigned to a part of a table. -/
def assignFault (part : String) : Fault := .ofAssignment partNames part

/-! ## Comparison and written form -/

/-- Whether two tables are described alike; what they were asked for by does not count. -/
def same (t u : Table) : Bool :=
  t.aliasName == u.aliasName && t.name == u.name && t.fields == u.fields &&
    t.primaryKey == u.primaryKey && t.container == u.container

/-- The written form of a table. -/
def text (t : Table) : String :=
  "TableSpec(alias=" ++ Text.quoted t.aliasName ++ ", name=" ++ Text.quoted t.name ++
    ", fields=" ++ Text.quotedTuple t.fields ++ ", primary_key=" ++
    Text.quotedTuple t.primaryKey ++ ", container_field=" ++
    (match t.container with | none => "None" | some c => Text.quoted c) ++ ")"

end Table

end NestedJoin
