import NestedJoin.Schema.Naming
set_option autoImplicit false

/-!
# Descriptions of tables

What a schema says about a table: its columns and the columns of its primary key, both in
order.
-/

namespace NestedJoin

/-- The columns of a table and of its primary key. -/
structure Description where
  columns : List String
  primaryKey : List String
  deriving DecidableEq, Repr, Inhabited

namespace Declaration

/-- The description a declaration gives. -/
def description (d : Declaration) : Description := ⟨d.columns, d.primaryKey⟩

end Declaration

end NestedJoin
