import NestedJoin.Materialize
set_option autoImplicit false

/-!
# Modifiers

A modifier is a list of actions on one entity.  Modifiers run after all rows are folded:
alias by alias in the order in which the aliases were first named, and within an alias on
every node in the order of first sight, whether or not the node can be reached from a
root.  Actions change the fragment of the node itself, so whatever holds the node sees the
change.  The first action that fails ends the run; what was recorded before stays.

Main statement: `runNodes_append`, running on two groups of nodes is running on one and
then, if that went well, on the other.
-/

namespace NestedJoin

/-- A step of a modifier. -/
inductive Action where
  /-- gives a key a value -/
  | set (key : String) (value : Value)
  /-- gives a key what another key holds -/
  | copy (source target : String)
  /-- removes a key -/
  | delete (key : String)
  /-- gives a key the size of what another key holds -/
  | count (key target : String)
  /-- gives a key the sum of a field over the entities another key holds -/
  | sum (key field target : String)
  /-- records a label and what a key holds -/
  | record (label : Value) (key : String)
  /-- gives up -/
  | fail (message : String)
  deriving Repr, Inhabited

/-- What an action recorded: a label, and what the key held at that moment. -/
structure Call where
  label : Value
  content : Value
  deriving Repr, Inhabited

/-- The modifiers of a builder, by alias: the place of the first registration counts, and the
actions of the last one. -/
abbrev Modifiers : Type := OrderedMap String (List Action)

namespace Action

/-! ## Sizes and sums -/

/-- The size of a content: items of a list, keys of a dictionary, characters of a text. -/
def sizeOf (f : Forest) : Content → Except Fault Nat
  | .one r => .ok ((f.fragment? r).getD .empty).size
  | .many rs => .ok rs.length
  | .data v => match v.items? with
    | some vs => .ok vs.length
    | none => .error .notSized

/-- The integer a content adds to a sum. -/
def addend : Content → Except Fault Int
  | .data (.int n) => .ok n
  | .data (.bool b) => .ok (if b then 1 else 0)
  | _ => .error .notSummable

/-- What an attached entity holds under a field. -/
def childField (f : Forest) (field : String) (r : NodeRef) : Except Fault Content :=
  match ((f.fragment? r).getD .empty).get? field with
  | some c => .ok c
  | none => .error (.missingKey (.str field))

/-- What a data value holds under a field. -/
def dataField (field : String) : Value → Except Fault Content
  | .dict es =>
    match es.find? fun e => e.1.same (.str field) with
    | some e => .ok (.data e.2)
    | none => .error (.missingKey (.str field))
  | _ => .error .notSummable

/-- Adds up one field over some entities, from left to right. -/
def total {α : Type} (fieldOf : α → Except Fault Content) (items : List α) : Except Fault Int :=
  items.foldlM (fun acc x => do
    let n ← addend (← fieldOf x)
    return acc + n) 0

/-- The sum of a field over what a content holds. -/
def sumOf (f : Forest) (field : String) : Content → Except Fault Int
  | .many rs => total (childField f field) rs
  | .one r => if ((f.fragment? r).getD .empty).entries.isEmpty then .ok 0 else .error .notSummable
  | .data v => match v.items? with
    | some vs => total (dataField field) vs
    | none => .error .notSummable

/-! ## Actions -/

/-- What a key of a fragment holds. -/
def contentAt (fragment : Fragment) (key : String) : Except Fault Content :=
  match fragment.get? key with
  | some c => .ok c
  | none => .error (.missingKey (.str key))

/-- The fragment after an action. -/
def apply (f : Forest) (fragment : Fragment) : Action → Except Fault Fragment
  | .set k v => .ok (fragment.insert k (.data v))
  | .copy k t => (contentAt fragment k).map fun c => fragment.insert t c
  | .delete k => (contentAt fragment k).map fun _ => fragment.erase k
  | .count k t => do
    let n ← sizeOf f (← contentAt fragment k)
    return fragment.insert t (.data (.int n))
  | .sum k field t => do
    let n ← sumOf f field (← contentAt fragment k)
    return fragment.insert t (.data (.int n))
  | .record _ _ => .ok fragment
  | .fail message => .error (.modifierFailed message)

/-- What an action records. -/
def recorded (f : Forest) (fragment : Fragment) : Action → List Call
  | .record label key => [⟨label, f.readContent ((fragment.get? key).getD (.data .null))⟩]
  | _ => []

end Action

namespace Forest

/-! ## Runs -/

/-- Runs actions in order on one node. -/
def runActions (f : Forest) (r : NodeRef) : List Action → List Call × Except Fault Forest
  | [] => ([], .ok f)
  | a :: as =>
    let fragment := (f.fragment? r).getD .empty
    let calls := a.recorded f fragment
    match a.apply f fragment with
    | .error e => (calls, .error e)
    | .ok fragment' =>
      let rest := (f.write r fragment').runActions r as
      (calls ++ rest.1, rest.2)

/-- Runs actions on some nodes, one after the other. -/
def runNodes (f : Forest) (actions : List Action) : List NodeRef → List Call × Except Fault Forest
  | [] => ([], .ok f)
  | r :: rs =>
    match f.runActions r actions with
    | (calls, .error e) => (calls, .error e)
    | (calls, .ok f') =>
      let rest := f'.runNodes actions rs
      (calls ++ rest.1, rest.2)

/-- Running on two groups of nodes is running on one and then, if that went well, on the other. -/
theorem runNodes_append (f : Forest) (actions : List Action) (rs ss : List NodeRef) :
    f.runNodes actions (rs ++ ss) =
      match f.runNodes actions rs with
      | (calls, .error e) => (calls, .error e)
      | (calls, .ok f') => (calls ++ (f'.runNodes actions ss).1, (f'.runNodes actions ss).2) := by
  induction rs generalizing f with
  | nil => simp [runNodes]
  | cons r rs ih =>
    simp only [List.cons_append, runNodes]
    rcases f.runActions r actions with ⟨calls, e | f'⟩
    · rfl
    · simp only [ih]
      rcases f'.runNodes actions rs with ⟨more, e | f''⟩
      · rfl
      · simp [List.append_assoc]

/-- Runs modifiers; an alias without nodes of its own in the forest is a missing key. -/
def runModifiers (f : Forest) : List (String × List Action) → List Call × Except Fault Forest
  | [] => ([], .ok f)
  | (aliasName, actions) :: ms =>
    if f.nodes.contains aliasName then
      match f.runNodes actions (f.refsOf aliasName) with
      | (calls, .error e) => (calls, .error e)
      | (calls, .ok f') =>
        let rest := f'.runModifiers ms
        (calls ++ rest.1, rest.2)
    else ([], .error (.missingKey (.str aliasName)))

end Forest

/-! ## Materializing -/

/-- What materializing did: what modifiers recorded, and the forest it ended with. -/
structure MaterializeRun where
  calls : List Call
  /-- the forest and the alias of its root table -/
  outcome : Except Fault (Forest × String)

namespace MaterializeRun

/-- The root entities in the order of first sight. -/
def entities (run : MaterializeRun) : Except Fault (List Value) :=
  run.outcome.map fun (f, root) => f.entitiesOf root

end MaterializeRun

namespace Graph

/-- Folds rows into entities and runs the modifiers on them. -/
def materialize (g : Graph) (chains : KeyChains) (modifiers : Modifiers) (rows : List Row) :
    MaterializeRun :=
  match g.forestOf chains rows with
  | .error e => ⟨[], .error e⟩
  | .ok f =>
    match f.runModifiers modifiers.entries with
    | (calls, .error e) => ⟨calls, .error e⟩
    | (calls, .ok f') => ⟨calls, g.rootOrFault.map fun r => (f', r.aliasName)⟩

end Graph

end NestedJoin
