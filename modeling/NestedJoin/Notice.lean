import NestedJoin.Fault
set_option autoImplicit false

/-!
# Notices

A caller may raise the public faults of the library on its own account.  A notice is such a
fault: its class, what it says, and the arguments it keeps by name.  The arguments may be
any values, and a row of values is one argument; only their number must fit the class.
-/

namespace NestedJoin

/-- An argument of a notice: a value, or a row of values. -/
inductive Argument where
  | value (v : Value)
  | tuple (vs : List Value)
  deriving Repr, Inhabited

namespace Argument

/-- The written form of an argument. -/
def text : Argument → String
  | .value v => v.text
  | .tuple vs => Text.roundBrackets (vs.map Value.text)

/-- The plain form of an argument: a text stands for itself, anything else is written. -/
def display : Argument → String
  | .value v => v.display
  | .tuple vs => Text.roundBrackets (vs.map Value.text)

/-- What arguments without a wording of their own say: nothing, the one, or all in a row. -/
def displayAll : List Argument → String
  | [] => ""
  | [a] => a.display
  | as => Text.roundBrackets (as.map text)

/-- What an argument lists: the values of a row, what going through a value gives.  What
counts as nothing lists nothing, and other values cannot be listed. -/
def members? : Argument → Option (List Value)
  | .tuple vs => some vs
  | .value v => match v, v.items? with
    | _, some vs => some vs
    | .null, none => some []
    | v, none => if v.same (.int 0) then some [] else none

end Argument

/-- The classes of notices. -/
inductive NoticeClass where
  /-- any fault of the library -/
  | general
  /-- a warning: two joins disagree on a parameter -/
  | parameterCollision
  | duplicateAlias
  | unknownAlias
  | unknownSubject
  | columnClash
  | noRoot
  | primaryKeyNotField
  | keyColumnMissing
  | unattachable
  | noConnection
  deriving DecidableEq, Repr, Inhabited

/-- A fault that a caller raised. -/
structure Notice where
  noticeClass : NoticeClass
  /-- what it says -/
  message : String
  /-- the arguments it keeps, by name -/
  attributes : List (String × Argument)
  deriving Repr, Inhabited

namespace NoticeClass

/-- The notice of a class with some arguments; their number must fit. -/
def raise (c : NoticeClass) (arguments : List Argument) : Except Fault Notice :=
  match c, arguments with
  | .general, as | .parameterCollision, as => .ok ⟨c, Argument.displayAll as, []⟩
  | .duplicateAlias, [a] => .ok ⟨c, Fault.duplicateAliasText a.text, [("alias", a)]⟩
  | .unknownAlias, [a] => .ok ⟨c, Fault.unknownAliasText a.text [], [("alias", a)]⟩
  | .unknownAlias, [a, available] =>
    match available.members? with
    | some vs => .ok ⟨c, Fault.unknownAliasText a.text (vs.map Value.text), [("alias", a)]⟩
    | none => .error .wrongArguments
  | .unknownSubject, [s] => .ok ⟨c, Fault.unknownSubjectText s.text, [("entity", s)]⟩
  | .columnClash, [column, a, owner] =>
    .ok ⟨c, Fault.columnClashText column.text a.text owner.text,
      [("column", column), ("alias", a), ("other_alias", owner)]⟩
  | .noRoot, [] => .ok ⟨c, Fault.noRoot.message, []⟩
  | .primaryKeyNotField, [a, field] =>
    .ok ⟨c, Fault.primaryKeyNotFieldText a.text field.text, [("alias", a), ("field", field)]⟩
  | .keyColumnMissing, [a, column] =>
    .ok ⟨c, Fault.keyColumnMissingText a.text column.text, [("alias", a), ("column", column)]⟩
  | .unattachable, [kind] => .ok ⟨c, Fault.unattachableText kind.text, [("kind", kind)]⟩
  | .noConnection, [] => .ok ⟨c, Fault.noConnection.message, []⟩
  | _, _ => .error .wrongArguments

end NoticeClass

end NestedJoin
