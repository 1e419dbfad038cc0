import NestedJoin.OrderedMap
import NestedJoin.Text.Quoted
import NestedJoin.Decimal.Shortest
import NestedJoin.Sql.Dialect
set_option autoImplicit false

/-!
# Data values

The values that rows, parameters and filters carry: null, truth values, integers,
floating-point numbers, texts, byte strings, lists and dictionaries, and values of any
further type, such as decimal numbers, days, or byte strings that can be changed.

Values other than lists and dictionaries compare by what they denote: `true`, `1` and `1.0`
are one number, and a number never equals a text.  A scalar is a value that may be part of
a key.  `Value.atom?` sends a scalar to its normal form, so that two scalars are equal
exactly when their normal forms are.  Lists and dictionaries are no scalars, nor is a value
that can be changed, although it may be equal to a scalar.

Main statements: `same_iff_of_denoted`, what a value is equal to, and `atom?_eq_of_same`,
equal scalars have one normal form.
-/

namespace NestedJoin

open Decimal (Binary64)

/-- What a value other than a list or a dictionary denotes. -/
inductive Atom where
  | null
  /-- the number `numerator` / 2 ^ `scale`, in lowest terms -/
  | number (numerator : Int) (scale : Nat)
  | infinite (negative : Bool)
  | undefined (mark : Nat)
  | str (s : String)
  | bytes (bs : List UInt8)
  /-- something that is none of these; equal things have one number -/
  | thing (number : Nat)
  deriving DecidableEq, Repr, Inhabited

/-- A value of a further type. -/
structure Foreign where
  /-- it is equal to whatever denotes the same, of this or another type -/
  denotes : Atom
  denotes_ne_null : denotes ≠ .null
  /-- it may be part of a key: it cannot be changed -/
  isScalar : Bool
  /-- the written form -/
  text : String
  /-- the plain form -/
  display : String
  /-- the type that it gives to its place in a statement -/
  literalType : Sql.LiteralType
  /-- what it is written as in a statement at a place of a type -/
  literal? : Sql.Dialect → Sql.LiteralType → Option String

instance : Inhabited Foreign :=
  ⟨⟨.thing 0, nofun, false, "", "", .untyped, fun _ _ => none⟩⟩

instance : Repr Foreign := ⟨fun x _ => x.text⟩

/-- A value of a row, a parameter or a filter. -/
inductive Value where
  | null
  | bool (b : Bool)
  | int (n : Int)
  | float (x : Binary64)
  | str (s : String)
  | bytes (bs : List UInt8)
  | list (items : List Value)
  | dict (entries : List (Value × Value))
  /-- a value of a further type, and its items if it is a collection -/
  | foreign (x : Foreign) (items : Option (List Value))
  deriving Repr, Inhabited

namespace Atom

/-- The atom of an integer. -/
def ofInt (n : Int) : Atom := .number n 0

/-- The atom of a floating-point number. -/
def ofBinary : Binary64 → Atom
  | .finite negative m e =>
    let (n, k) := Binary64.magnitude m e
    .number (if negative then -(n : Int) else n) k
  | .infinite negative => .infinite negative
  | .undefined mark => .undefined mark

end Atom

namespace Value

/-! ## Equality -/

/-- The normal form of a scalar; other values have none. -/
def atom? : Value → Option Atom
  | .null => some .null
  | .bool b => some (.ofInt (if b then 1 else 0))
  | .int n => some (.ofInt n)
  | .float x => some (.ofBinary x)
  | .str s => some (.str s)
  | .bytes bs => some (.bytes bs)
  | .list _ => none
  | .dict _ => none
  | .foreign x _ => if x.isScalar then some x.denotes else none

/-- What a value denotes, be it a scalar or not; lists and dictionaries denote nothing. -/
def denoted? : Value → Option Atom
  | .foreign x _ => some x.denotes
  | v => v.atom?

/-- Only null denotes null. -/
theorem denoted?_eq_null_iff {v : Value} : v.denoted? = some .null ↔ v = .null := by
  cases v with
  | float x => cases x <;> simp [denoted?, atom?, Atom.ofBinary]
  | foreign x items => simp [denoted?, x.denotes_ne_null]
  | _ => simp [denoted?, atom?, Atom.ofInt]

/-- A scalar denotes its normal form. -/
theorem denoted?_of_atom {v : Value} {a : Atom} (h : v.atom? = some a) : v.denoted? = some a := by
  cases v with
  | foreign x items =>
    rw [atom?] at h
    split at h
    · exact h
    · cases h
  | _ => exact h

/-- Whether a value may be part of a key. -/
def isScalar (v : Value) : Bool := v.atom?.isSome

/-- The normal form of a scalar is what it denotes. -/
theorem atom?_eq_denoted? {v : Value} (h : v.isScalar = true) : v.atom? = v.denoted? := by
  obtain ⟨a, ha⟩ := Option.isSome_iff_exists.1 h
  rw [ha, denoted?_of_atom ha]

/-- Whether two values denote the same. -/
def sameAtom (v w : Value) : Bool := v.denoted?.isSome && v.denoted? == w.denoted?

mutual

/-- Whether two values are equal: lists item by item, dictionaries by their entries in any
order, and other values by what they denote. -/
def same : Value → Value → Bool
  | .list xs, w => match w with
    | .list ys => sameItems xs ys
    | _ => false
  | .dict es, w => match w with
    | .dict fs => es.length == fs.length && sameEntries es fs
    | _ => false
  | .null, w => sameAtom .null w
  | .bool b, w => sameAtom (.bool b) w
  | .int n, w => sameAtom (.int n) w
  | .float x, w => sameAtom (.float x) w
  | .str s, w => sameAtom (.str s) w
  | .bytes bs, w => sameAtom (.bytes bs) w
  | .foreign x items, w => sameAtom (.foreign x items) w
termination_by structural v => v

/-- Whether two lists are equal item by item. -/
def sameItems : List Value → List Value → Bool
  | [], ys => ys.isEmpty
  | x :: xs, ys => match ys with
    | [] => false
    | y :: ys => same x y && sameItems xs ys

/-- Whether every entry of one dictionary is an entry of another. -/
def sameEntries : List (Value × Value) → List (Value × Value) → Bool
  | [], _ => true
  | e :: es, fs => sameEntry e fs && sameEntries es fs

/-- Whether the entries hold an equal value under an equal key. -/
def sameEntry : Value × Value → List (Value × Value) → Bool
  | (k, v), fs => match fs.find? (fun f => same k f.1) with
    | some f => same v f.2
    | none => false

end

/-- Values that denote something are compared by what they denote. -/
theorem same_eq_sameAtom {v : Value} (h : v.denoted?.isSome = true) (w : Value) :
    v.same w = v.sameAtom w := by
  cases v with
  | list xs => cases h
  | dict es => cases h
  | _ => rfl

/-- What is equal to a value that denotes something denotes the same. -/
theorem same_iff_of_denoted {v w : Value} {a : Atom} (h : v.denoted? = some a) :
    v.same w = true ↔ w.denoted? = some a := by
  have hs : v.denoted?.isSome = true := Option.isSome_of_eq_some h
  rw [same_eq_sameAtom hs, sameAtom, hs, h, Bool.true_and, beq_iff_eq]
  exact ⟨Eq.symm, Eq.symm⟩

/-- Equal values denote the same, or nothing both. -/
theorem denoted?_eq_of_same {v w : Value} (h : v.same w = true) : v.denoted? = w.denoted? := by
  cases hv : v.denoted? with
  | some a => exact ((same_iff_of_denoted hv).1 h).symm
  | none =>
    cases v with
    | list xs =>
      cases w with
      | list ys => rfl
      | _ => cases h
    | dict es =>
      cases w with
      | dict fs => rfl
      | _ => cases h
    | _ => cases hv

/-- Equal scalars have one normal form. -/
theorem atom?_eq_of_same {v w : Value} (h : v.same w = true) (hv : v.isScalar = true)
    (hw : w.isScalar = true) : v.atom? = w.atom? := by
  rw [atom?_eq_denoted? hv, atom?_eq_denoted? hw, denoted?_eq_of_same h]

/-! ## Items -/

/-- The members of a collection: the items of a list, the keys of a dictionary. -/
def members? : Value → Option (List Value)
  | .list vs => some vs
  | .dict es => some (es.map Prod.fst)
  | .foreign _ items => items
  | _ => none

/-- What going through a value gives: the members of a collection, the characters of a text,
the bytes of a byte string. -/
def items? (v : Value) : Option (List Value) :=
  v.members? <|> match v.denoted? with
    | some (.str s) => some (s.toList.map fun c => .str (String.singleton c))
    | some (.bytes bs) => some (bs.map fun b => .int b.toNat)
    | _ => none

/-! ## Written form -/

mutual

/-- The written form of a value, as it stands in messages. -/
def text : Value → String
  | .null => "None"
  | .bool b => if b then "True" else "False"
  | .int n => toString n
  | .float x => x.text
  | .str s => Text.quoted s
  | .bytes bs => Text.quotedBytes bs
  | .list xs => Text.squareBrackets (itemTexts xs)
  | .dict es => "\x7b" ++ ", ".intercalate (entryTexts es) ++ "\x7d"
  | .foreign x _ => x.text
termination_by structural v => v

/-- The written forms of the items of a list. -/
def itemTexts : List Value → List String
  | [] => []
  | v :: vs => text v :: itemTexts vs

/-- The written forms of the entries of a dictionary. -/
def entryTexts : List (Value × Value) → List String
  | [] => []
  | e :: es => entryText e :: entryTexts es

/-- The written form of an entry. -/
def entryText : Value × Value → String
  | (k, v) => text k ++ ": " ++ text v

end

/-- The plain form of a value: a text stands for itself, anything else is written. -/
def display : Value → String
  | .str s => s
  | .foreign x _ => x.display
  | v => v.text

@[simp] theorem display_str (s : String) : (Value.str s).display = s := rfl

end Value

end NestedJoin
