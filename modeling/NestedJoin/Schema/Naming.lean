import NestedJoin.Fault
set_option autoImplicit false

/-!
# The table name of a subject

A name stands for itself and a declared table for its own name.  A class stands for the
table it is mapped to: the table name it states, if it states one, and else the name its
table carries.  Either may turn out to be null or empty, which is a fault; a class
without a table is one even if it states a name.

Main statement: `tableName_model_eq_ok_iff`, which classes have a table name.
-/

namespace NestedJoin

namespace Model

/-- The table name of a class, before it is looked at whether it says anything. -/
def statedName (m : Model) : Option String := m.tableName.getD m.description.join

end Model

namespace Subject

/-- The table name of a subject. -/
def tableName : Subject → Except Fault String
  | .value (.str s) => .ok s
  | .value _ => .error .noMappedTable
  | .declared d => .ok d.name
  | .model m =>
    if m.description.isNone then .error .noMappedTable
    else match m.statedName with
      | none => .error (.unnamedTable m)
      | some s => if s = "" then .error (.unnamedTable m) else .ok s

/-- A class has a table name exactly if it carries a table and the name it states, or else the
table's, is not empty. -/
theorem tableName_model_eq_ok_iff {m : Model} {s : String} :
    tableName (.model m) = .ok s ↔
      m.description.isSome = true ∧ m.statedName = some s ∧ s ≠ "" := by
  cases hd : m.description with
  | none => simp [tableName, hd]
  | some d =>
    cases hs : m.statedName with
    | none => simp [tableName, hd, hs]
    | some t =>
      by_cases ht : t = ""
      · simp only [tableName, hd, hs, ht, Option.isNone_some, Option.isSome_some, if_true,
          Bool.false_eq_true, if_false, reduceCtorEq, false_iff, not_and, true_and,
          Option.some.injEq]
        exact fun h => not_not_intro h.symm
      · simp only [tableName, hd, hs, ht, Option.isNone_some, Option.isSome_some, if_false,
          Bool.false_eq_true, Except.ok.injEq, true_and, Option.some.injEq]
        exact ⟨fun h => ⟨h, fun q => ht (h.trans q)⟩, fun h => h.1⟩

end Subject

end NestedJoin
