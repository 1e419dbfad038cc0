import NestedJoin.Value
set_option autoImplicit false

/-!
# Rows

A flat result row: values under column names.
-/

namespace NestedJoin

/-- A flat result row. -/
abbrev Row : Type := OrderedMap String Value

namespace Row

/-- Whether a column of the row holds something other than null. -/
def holds (row : Row) (column : String) : Bool :=
  match row.get? column with
  | none => false
  | some .null => false
  | some _ => true

/-- A column holds what is not null. -/
theorem holds_of_get? {row : Row} {column : String} {v : Value} (h : row.get? column = some v)
    (hv : v ≠ .null) : row.holds column = true := by
  rw [holds, h]
  cases v with
  | null => exact absurd rfl hv
  | _ => rfl

end Row

end NestedJoin
