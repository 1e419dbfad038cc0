set_option autoImplicit false

/-!
# Dialects

What a statement looks like depends on the database that it is for: the words that need
quotes as names, the characters that are written twice, the spelling of truth values and
the clause that limits the number of rows.  What a value looks like in it depends on the
type of its place too.

Main statement: `Dialect.copied_cases`, a character is copied once or twice.
-/

namespace NestedJoin.Sql

/-- The database whose spelling a statement follows. -/
inductive Dialect where
  | standard
  | postgresql
  | sqlite
  deriving DecidableEq, Repr, Inhabited

/-- The type of a place that takes a value. -/
inductive LiteralType where
  | untyped
  | truth
  | integer
  /-- a number of any other type -/
  | number
  | text
  | bytes
  /-- a type of values that are none of these, such as days -/
  | further (mark : Nat)
  deriving DecidableEq, Repr, Inhabited

namespace Dialect

/-! ## Words with a meaning -/

/-- Words with a meaning in a statement. -/
def reservedWords : Dialect → List String
  | .standard =>
    ["all", "analyse", "analyze", "and", "any", "array", "as", "asc", "asymmetric",
     "authorization", "between", "binary", "both", "case", "cast", "check", "collate", "column",
     "constraint", "create", "cross", "current_date", "current_role", "current_time",
     "current_timestamp", "current_user", "default", "deferrable", "desc", "distinct", "do",
     "else", "end", "except", "false", "for", "foreign", "freeze", "from", "full", "grant",
     "group", "having", "ilike", "in", "initially", "inner", "intersect", "into", "is", "isnull",
     "join", "leading", "left", "like", "limit", "localtime", "localtimestamp", "natural", "new",
     "not", "notnull", "null", "off", "offset", "old", "on", "only", "or", "order", "outer",
     "overlaps", "placing", "primary", "references", "right", "select", "session_user", "set",
     "similar", "some", "symmetric", "table", "then", "to", "trailing", "true", "union",
     "unique", "user", "using", "verbose", "when", "where"]
  | .postgresql =>
    ["all", "analyse", "analyze", "and", "any", "array", "as", "asc", "asymmetric",
     "authorization", "between", "binary", "both", "case", "cast", "check", "collate", "column",
     "constraint", "create", "cross", "current_catalog", "current_date", "current_role",
     "current_schema", "current_time", "current_timestamp", "current_user", "default",
     "deferrable", "desc", "distinct", "do", "else", "end", "except", "false", "fetch", "for",
     "foreign", "freeze", "from", "full", "grant", "group", "having", "ilike", "in", "initially",
     "inner", "intersect", "into", "is", "isnull", "join", "leading", "left", "like",
     "limit", "localtime", "localtimestamp", "natural", "new", "not", "notnull", "null", "of",
     "off", "offset", "old", "on", "only", "or", "order", "outer", "over", "overlaps", "placing",
     "primary", "references", "returning", "right", "select", "session_user", "similar", "some",
     "symmetric", "table", "then", "to", "trailing", "true", "union", "unique", "user", "using",
     "variadic", "verbose", "when", "where", "window", "with"]
  | .sqlite =>
    ["add", "after", "all", "alter", "analyze", "and", "as", "asc", "attach", "autoincrement",
     "before", "begin", "between", "by", "cascade", "case", "cast", "check", "collate", "column",
     "commit", "conflict", "constraint", "create", "cross", "current_date", "current_time",
     "current_timestamp", "database", "default", "deferrable", "deferred", "delete", "desc",
     "detach", "distinct", "drop", "each", "else", "end", "escape", "except", "exclusive",
     "exists", "explain", "fail", "false", "for", "foreign", "from", "full", "glob", "group",
     "having", "if", "ignore", "immediate", "in", "index", "indexed", "initially", "inner",
     "insert", "instead", "intersect", "into", "is", "isnull", "join", "key", "left", "like",
     "limit", "match", "natural", "not", "notnull", "null", "of", "offset", "on", "or", "order",
     "outer", "plan", "pragma", "primary", "query", "raise", "references", "reindex", "rename",
     "replace", "restrict", "right", "rollback", "row", "select", "set", "table", "temp",
     "temporary", "then", "to", "transaction", "trigger", "true", "union", "unique", "update",
     "using", "vacuum", "values", "view", "virtual", "when", "where"]

/-- The words that connect conditions or set them off mean the same everywhere. -/
theorem mem_reservedWords (d : Dialect) :
    ∀ w ∈ ["and", "or", "between", "case", "end"], w ∈ d.reservedWords := by
  cases d <;> decide

/-! ## Characters and spellings -/

/-- A character that is copied into the statement.  Where a percent sign starts the
placeholders of the driver, one that starts none is written twice. -/
def copied : Dialect → Char → List Char
  | .postgresql, '%' => ['%', '%']
  | _, c => [c]

@[simp] theorem copied_standard (c : Char) : Dialect.standard.copied c = [c] := rfl

/-- A character is copied once or twice. -/
theorem copied_cases (d : Dialect) (c : Char) : d.copied c = [c] ∨ d.copied c = [c, c] := by
  unfold copied
  split
  · exact Or.inr rfl
  · exact Or.inl rfl

theorem copied_of_ne {c : Char} (h : c ≠ '%') (d : Dialect) : d.copied c = [c] := by
  unfold copied
  split
  · exact absurd rfl h
  · rfl

theorem flatMap_copied_of_notMem {cs : List Char} (h : '%' ∉ cs) (d : Dialect) :
    cs.flatMap d.copied = cs := by
  induction cs with
  | nil => rfl
  | cons c cs ih =>
    obtain ⟨hc, hcs⟩ := not_or.1 (mt List.mem_cons.2 h)
    rw [List.flatMap_cons, copied_of_ne (Ne.symm hc), ih hcs, List.singleton_append]

/-- What is copied of a character starts with it. -/
theorem head?_copied_append (d : Dialect) (c : Char) (cs : List Char) :
    (d.copied c ++ cs).head? = some c := by
  rcases d.copied_cases c with h | h <;> rw [h] <;> rfl

/-- A text holds the characters that are copied of it. -/
theorem mem_of_mem_flatMap_copied {d : Dialect} {c : Char} {cs : List Char}
    (h : c ∈ cs.flatMap d.copied) : c ∈ cs := by
  obtain ⟨c', hc', hc⟩ := List.mem_flatMap.1 h
  rcases d.copied_cases c' with hd | hd <;> simp_all

/-- A literal as it stands in the statement: where a backslash escapes what comes after it, it
is written twice. -/
def escaped : Dialect → String → String
  | .postgresql, s => String.ofList (s.toList.flatMap fun c => if c = '\\' then [c, c] else [c])
  | _, s => s

/-- The spelling of a truth value. -/
def truth : Dialect → Bool → String
  | .sqlite, b => if b then "1" else "0"
  | _, b => if b then "true" else "false"

/-- The clause that limits the number of rows. -/
def limit (d : Dialect) (count : String) : String :=
  match d with
  | .standard => "\n LIMIT " ++ count
  | .postgresql => " \n LIMIT " ++ count
  | .sqlite => "\n LIMIT " ++ count ++ " OFFSET 0"

end Dialect

end NestedJoin.Sql
