import NestedJoin.Value.Fingerprint
import NestedJoin.Vertex
set_option autoImplicit false

/-!
# Edges of a join graph

An edge joins a child table to a parent table: the pairs of columns that must agree, the
type of the join, an extra condition with its parameters, and how the child's rows are
attached to the parent's entities.

Main statement: `Edge.make_column_mem`, the join columns of an edge are fields of its two
tables.
-/

namespace NestedJoin

/-- How joined rows are attached to their parent entity. -/
inductive Kind where
  /-- as one entity -/
  | single
  /-- as a list of entities -/
  | multiple
  /-- in no way: a raw value put in the place of a kind -/
  | other (raw : Value)
  deriving Repr, Inhabited

namespace Kind

/-- The kind that a value names. -/
def ofValue : Value → Except Fault Kind
  | .str "single" => .ok .single
  | .str "multiple" => .ok .multiple
  | v => .error (.invalidKind v)

/-- Whether two kinds are the same. -/
def same : Kind → Kind → Bool
  | .single, .single => true
  | .multiple, .multiple => true
  | .other v, .other w => v.same w
  | _, _ => false

end Kind

/-- Which rows of two sides a join keeps. -/
inductive JoinType where
  /-- the matches -/
  | inner
  /-- the matches, and every row of the left side without one -/
  | left
  /-- the matches, and every row of the right side without one -/
  | right
  deriving DecidableEq, Repr, Inhabited

namespace JoinType

/-- The name of a join type. -/
def name : JoinType → String
  | .inner => "inner"
  | .left => "left"
  | .right => "right"

/-- The join type of a name, in any letter case. -/
def ofName? (s : String) : Option JoinType :=
  let lower := s.toList.map Char.toLower
  if lower = "inner".toList then some .inner
  else if lower = "left".toList then some .left
  else if lower = "right".toList then some .right
  else none

end JoinType

/-- What a caller says about a join, before it is checked against the two tables. -/
structure JoinSpec where
  /-- the kind, or a value that should name one -/
  kind : Except Value Kind
  /-- child field and parent field, or whatever was given in their places -/
  on : List (Value × Value)
  joinType : Value := .str "left"
  condition : Option String := none
  /-- names and values of the condition's parameters; none is not the same as no values -/
  params : Option (List (Value × Value)) := some []

/-- A relation from a parent table to a child table. -/
structure Edge where
  /-- tells edges apart; clones of a graph share edges -/
  serial : Nat
  kind : Kind
  child : Vertex
  parent : Vertex
  /-- child field to parent field; the pairs are AND-ed -/
  on : OrderedMap String String
  joinType : JoinType
  condition : Option String
  /-- values of the named parameters of the condition -/
  params : OrderedMap String Value
  /-- the field of the parent's entity that takes the child's entities -/
  container : String
  container_eq : child.table.container = some container
  on_ne_nil : on.entries ≠ []
  child_mem : ∀ e ∈ on.entries, e.1 ∈ child.table.fields
  parent_mem : ∀ e ∈ on.entries, e.2 ∈ parent.table.fields

namespace Edge

/-! ## Making an edge -/

/-- The name of a parameter without the colons in front of it. -/
def paramName (s : String) : String := String.ofList (s.toList.dropWhile (· == ':'))

/-- The parameters of a join by their names. -/
def namedParams : List (Value × Value) → Except Fault (List (String × Value))
  | [] => .ok []
  | (.str name, v) :: es => (namedParams es).map ((paramName name, v) :: ·)
  | (k, _) :: _ => .error (.parameterNameNotText k)

/-- The field of a table that a value names. -/
def fieldOf (t : Table) (v : Value) : Except Fault String :=
  match v with
  | .str f => if f ∈ t.fields then .ok f else .error (.joinColumnNotField v t.aliasName)
  | _ => .error (.joinColumnNotField v t.aliasName)

theorem mem_of_fieldOf {t : Table} {v : Value} {f : String} (h : fieldOf t v = .ok f) :
    f ∈ t.fields := by
  simp only [fieldOf] at h
  split at h
  · split at h
    · cases h; assumption
    · cases h
  · cases h

/-- The fields that pairs of join columns name, child first. -/
def fieldPairs (child parent : Table) : List (Value × Value) →
    Except Fault (List (String × String))
  | [] => .ok []
  | e :: es => do
    let own ← fieldOf child e.1
    let ref ← fieldOf parent e.2
    let rest ← fieldPairs child parent es
    return (own, ref) :: rest

theorem fieldPairs_cons_eq_ok {child parent : Table} {e : Value × Value}
    {es : List (Value × Value)} {ps : List (String × String)}
    (h : fieldPairs child parent (e :: es) = .ok ps) :
    ∃ own ref rest, fieldOf child e.1 = .ok own ∧ fieldOf parent e.2 = .ok ref ∧
      fieldPairs child parent es = .ok rest ∧ ps = (own, ref) :: rest := by
  simp only [fieldPairs, bind, Except.bind, pure, Except.pure] at h
  cases ho : fieldOf child e.1 with
  | error f => simp [ho] at h
  | ok own =>
    cases hr : fieldOf parent e.2 with
    | error f => simp [ho, hr] at h
    | ok ref =>
      cases hs : fieldPairs child parent es with
      | error f => simp [ho, hr, hs] at h
      | ok rest =>
        simp only [ho, hr, hs, Except.ok.injEq] at h
        exact ⟨own, ref, rest, rfl, rfl, rfl, h.symm⟩

theorem mem_of_fieldPairs {child parent : Table} {es : List (Value × Value)}
    {ps : List (String × String)} (h : fieldPairs child parent es = .ok ps)
    {p : String × String} (hp : p ∈ ps) : p.1 ∈ child.fields ∧ p.2 ∈ parent.fields := by
  induction es generalizing ps with
  | nil => cases h; cases hp
  | cons e es ih =>
    obtain ⟨own, ref, rest, ho, hr, hs, rfl⟩ := fieldPairs_cons_eq_ok h
    rcases List.mem_cons.1 hp with rfl | hp
    · exact ⟨mem_of_fieldOf ho, mem_of_fieldOf hr⟩
    · exact ih hs hp

theorem fieldPairs_ne_nil {child parent : Table} {es : List (Value × Value)}
    {ps : List (String × String)} (h : fieldPairs child parent es = .ok ps) (hn : es ≠ []) :
    ps ≠ [] := by
  cases es with
  | nil => exact absurd rfl hn
  | cons e es =>
    obtain ⟨_, _, _, _, _, _, rfl⟩ := fieldPairs_cons_eq_ok h
    exact List.cons_ne_nil _ _

/-- The kind a caller meant. -/
def kindOf : Except Value Kind → Except Fault Kind
  | .ok k => .ok k
  | .error v => Kind.ofValue v

/-- An edge between two vertices, or the first thing that is wrong with it. -/
def make (serial : Nat) (child parent : Vertex) (spec : JoinSpec) : Except Fault Edge :=
  match kindOf spec.kind with
  | .error f => .error f
  | .ok kind =>
    match hc : child.table.container with
    | none => .error (.noContainer child.aliasName)
    | some container =>
      match JoinType.ofName? spec.joinType.display with
      | none => .error (.invalidJoinType spec.joinType child.aliasName)
      | some joinType =>
        if hn : spec.on = [] then .error (.noJoinColumns child.aliasName)
        else
          match hp : fieldPairs child.table parent.table spec.on with
          | .error f => .error f
          | .ok pairs =>
            match (spec.params.map namedParams).getD (.error .noParameters) with
            | .error f => .error f
            | .ok params => .ok
              { serial, kind, child, parent, joinType, container
                on := .ofList pairs
                condition := spec.condition
                params := .ofList params
                container_eq := hc
                on_ne_nil := OrderedMap.entries_ofList_ne_nil (fieldPairs_ne_nil hp hn)
                child_mem := fun _ he =>
                  (mem_of_fieldPairs hp (OrderedMap.mem_of_mem_entries_ofList he)).1
                parent_mem := fun _ he =>
                  (mem_of_fieldPairs hp (OrderedMap.mem_of_mem_entries_ofList he)).2 }

/-- An edge joins the two vertices it is made of, in the way its caller meant. -/
theorem make_parts {serial : Nat} {child parent : Vertex} {spec : JoinSpec} {edge : Edge}
    (h : make serial child parent spec = .ok edge) :
    edge.serial = serial ∧ edge.child = child ∧ edge.parent = parent ∧
      kindOf spec.kind = .ok edge.kind := by
  simp only [make] at h
  split at h
  · cases h
  · next kind hk =>
    split at h
    · cases h
    · split at h
      · cases h
      · split at h
        · cases h
        · split at h
          · cases h
          · split at h
            · cases h
            · cases h
              exact ⟨rfl, rfl, rfl, hk⟩

/-- The join columns of an edge are fields of its two tables. -/
theorem make_column_mem {serial : Nat} {child parent : Vertex} {spec : JoinSpec} {edge : Edge}
    (h : make serial child parent spec = .ok edge) {own ref : String}
    (hm : (own, ref) ∈ edge.on.entries) :
    edge.child = child ∧ edge.parent = parent ∧
      own ∈ child.table.fields ∧ ref ∈ parent.table.fields := by
  obtain ⟨-, hc, hp, -⟩ := make_parts h
  subst hc hp
  exact ⟨rfl, rfl, edge.child_mem _ hm, edge.parent_mem _ hm⟩

/-- The names under which callers know the parts of an edge. -/
def partNames : List String :=
  ["kind", "table", "join_to", "on_columns", "join_type", "extra_condition", "extra_params"]

/-- Why nothing is assigned to a part of an edge. -/
def assignFault (part : String) : Fault := .ofAssignment partNames part

/-! ## Views -/

/-- The alias of the joined table. -/
def aliasName (e : Edge) : String := e.child.aliasName

/-- The alias of the table it is joined to. -/
def parentAlias (e : Edge) : String := e.parent.aliasName

/-- The join condition as plain text, for messages and logs. -/
def predicateText (e : Edge) : String :=
  let pairs := " AND ".intercalate <| e.on.entries.map fun p =>
    e.aliasName ++ "." ++ p.1 ++ " = " ++ e.parentAlias ++ "." ++ p.2
  match e.condition with
  | none => pairs
  | some c => if c = "" then pairs else pairs ++ " " ++ c

/-- Whether two edges say the same but for their parameters; maps compare without order. -/
def sameJoin (e f : Edge) : Bool :=
  e.kind.same f.kind && e.child.table.same f.child.table && e.parent.table.same f.parent.table &&
    e.on.agrees (· == ·) f.on && e.joinType == f.joinType && e.condition == f.condition

/-- Whether two edges say the same. -/
def same (e f : Edge) : Bool := e.sameJoin f && e.params.agrees Value.same f.params

/-- The fingerprints of an edge's parameters, if all of them are scalars. -/
def paramFingerprints? (e : Edge) : Option (List (Fingerprint × Fingerprint)) :=
  Value.pairFingerprints? (e.params.entries.map fun p => (.str p.1, p.2))

/-- Whether two edges have one hash: of the parameters it sees only the fingerprints. -/
def sameHash (e f : Edge) : Except Fault Bool :=
  match e.paramFingerprints?, f.paramFingerprints? with
  | some xs, some ys => .ok (e.sameJoin f && Fingerprint.agree xs ys)
  | _, _ => .error .notHashable

end Edge

end NestedJoin
