import NestedJoin.Graph
set_option autoImplicit false

/-!
# Forests of nodes

While rows are folded into entities, every table of a graph has its nodes: one for each
node key seen, in the order of first sight.  A node's fragment holds the fields of the row
that made it, and containers that refer to the nodes attached to it.  An entity is what a
fragment reads as once its references are followed.

Main statements: `fragment?_file`, filing keeps what is filed already, and
`fragment?_write`, which says what a write changes.
-/

namespace NestedJoin

/-- Where a node is filed. -/
structure NodeRef where
  aliasName : String
  key : NodeKey
  deriving DecidableEq, Repr, Inhabited

/-- What a field or a container of a fragment holds. -/
inductive Content where
  | data (v : Value)
  /-- one attached node -/
  | one (child : NodeRef)
  /-- attached nodes in the order of attaching -/
  | many (children : List NodeRef)
  deriving Repr, Inhabited

/-- The fields and containers of a node. -/
abbrev Fragment : Type := OrderedMap String Content

/-- A node was attached to a container of its parent. -/
structure Link where
  parent : NodeRef
  container : String
  key : NodeKey
  deriving DecidableEq, Repr, Inhabited

/-- The nodes of every alias of a graph, and the links made between them. -/
structure Forest where
  nodes : OrderedMap String (OrderedMap NodeKey Fragment)
  links : List Link

namespace Forest

/-! ## Views -/

/-- No nodes for any of the aliases. -/
def ofAliases (aliases : List String) : Forest :=
  ⟨.ofList (aliases.map fun a => (a, .empty)), []⟩

instance : Inhabited Forest := ⟨ofAliases []⟩

/-- The nodes of an alias in the order of first sight; none for an alias the forest lacks. -/
def nodesOf (f : Forest) (aliasName : String) : OrderedMap NodeKey Fragment :=
  (f.nodes.get? aliasName).getD .empty

/-- The fragment of a node. -/
def fragment? (f : Forest) (r : NodeRef) : Option Fragment := (f.nodesOf r.aliasName).get? r.key

theorem nodesOf_ofAliases (aliases : List String) (a : String) :
    (ofAliases aliases).nodesOf a = .empty := by
  unfold nodesOf
  cases hget : (ofAliases aliases).nodes.get? a with
  | none => rfl
  | some m =>
    have hm := OrderedMap.mem_of_mem_entries_ofList (OrderedMap.get?_eq_some_iff.1 hget)
    obtain ⟨b, -, hb⟩ := List.mem_map.1 hm
    exact (congrArg Prod.snd hb).symm

theorem fragment?_ofAliases (aliases : List String) (r : NodeRef) :
    (ofAliases aliases).fragment? r = none := by
  rw [fragment?, nodesOf_ofAliases]
  rfl

/-- The references to the nodes of an alias. -/
def refsOf (f : Forest) (aliasName : String) : List NodeRef :=
  (f.nodesOf aliasName).keys.map fun k => ⟨aliasName, k⟩

/-! ## Changes -/

/-- The forest with a node's fragment replaced or added. -/
def write (f : Forest) (r : NodeRef) (fragment : Fragment) : Forest :=
  { f with nodes := f.nodes.insert r.aliasName ((f.nodesOf r.aliasName).insert r.key fragment) }

theorem nodesOf_write (f : Forest) (r : NodeRef) (fragment : Fragment) (a : String) :
    (f.write r fragment).nodesOf a =
      if a = r.aliasName then (f.nodesOf a).insert r.key fragment else f.nodesOf a := by
  simp only [nodesOf, write, OrderedMap.get?_insert]
  split
  · next h =>
    subst h
    rfl
  · rfl

/-- What a write changes. -/
theorem fragment?_write (f : Forest) (r r' : NodeRef) (fragment : Fragment) :
    (f.write r fragment).fragment? r' = if r' = r then some fragment else f.fragment? r' := by
  obtain ⟨a, k⟩ := r
  obtain ⟨a', k'⟩ := r'
  simp only [fragment?, nodesOf, write, OrderedMap.get?_insert, NodeRef.mk.injEq]
  by_cases ha : a' = a
  · subst ha
    by_cases hk : k' = k <;> simp [OrderedMap.get?_insert, hk]
  · simp [ha]

/-- The forest with a node filed, if it is not filed yet. -/
def file (f : Forest) (r : NodeRef) (fragment : Fragment) : Forest :=
  match f.fragment? r with
  | some _ => f
  | none => f.write r fragment

/-- Filing keeps what is filed already. -/
theorem fragment?_file (f : Forest) (r : NodeRef) (fragment : Fragment) :
    (f.file r fragment).fragment? r = some ((f.fragment? r).getD fragment) := by
  simp only [file]
  cases h : f.fragment? r with
  | none => simp [fragment?_write]
  | some g => simp [h]

/-! ## Entities -/

/-- The entries a fragment reads as, with `read` reading its contents. -/
def entriesWith (read : Content → Value) (fragment : Fragment) : List (Value × Value) :=
  fragment.entries.map fun e => (.str e.1, read e.2)

/-- What a content reads as, following references to a given depth. -/
def read (f : Forest) : Nat → Content → Value
  | _, .data v => v
  | 0, .one _ => .null
  | 0, .many _ => .list []
  | depth + 1, .one r => .dict (entriesWith (f.read depth) ((f.fragment? r).getD .empty))
  | depth + 1, .many rs =>
    .list (rs.map fun r => .dict (entriesWith (f.read depth) ((f.fragment? r).getD .empty)))

/-- The depth to which references can lead: each one leads to a later table. -/
def depth (f : Forest) : Nat := f.nodes.size

/-- What a content reads as. -/
def readContent (f : Forest) (c : Content) : Value := f.read f.depth c

/-- The entity of a node. -/
def entity (f : Forest) (r : NodeRef) : Value := f.readContent (.one r)

/-- The entities of an alias in the order of first sight. -/
def entitiesOf (f : Forest) (aliasName : String) : List Value := (f.refsOf aliasName).map f.entity

end Forest

end NestedJoin
