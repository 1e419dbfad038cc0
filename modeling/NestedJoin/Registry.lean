import NestedJoin.Fault
set_option autoImplicit false

/-!
# The registry of defaults

The registry holds the schema and the connection that builders use by default.  There is
one current set of defaults at most; it is made by the first call that asks for it, and a
call that asks without saying what the defaults are leaves a blank set behind.  Sets that
are no longer current live on for whoever holds them, so every set has a number.
-/

namespace NestedJoin

/-- A set of defaults: a schema and a connection, either of which may be missing. -/
structure Defaults (σ β : Type) where
  schema : Option σ
  bind : Option β
  deriving DecidableEq, Repr, Inhabited

namespace Defaults

variable {σ β : Type}

/-- The set that says nothing. -/
def blank : Defaults σ β := ⟨none, none⟩

/-- The set that a caller's arguments make: a connection counts only beside a schema. -/
def ofArguments (schema : Option σ) (bind : Option β) : Defaults σ β :=
  match schema with
  | none => blank
  | some s => ⟨some s, bind⟩

/-- The schema, or the fault of having none. -/
def schemaOrFault (d : Defaults σ β) : Except Fault σ :=
  match d.schema with
  | some s => .ok s
  | none => .error .noSchema

end Defaults

/-- All sets of defaults made so far, by number, and which of them is the current one. -/
structure Registry (σ β : Type) where
  sets : List (Defaults σ β)
  current : Option (Fin sets.length)

namespace Registry

variable {σ β : Type}

/-- The registry before anything happened. -/
def empty : Registry σ β := ⟨[], none⟩

instance : Inhabited (Registry σ β) := ⟨empty⟩

/-! ## Views -/

/-- The set of a number. -/
def get? (r : Registry σ β) (id : Nat) : Option (Defaults σ β) := r.sets[id]?

/-- The current set. -/
def defaults? (r : Registry σ β) : Option (Defaults σ β) := r.current.map fun id => r.sets[id]

/-- Whether there is a current set that has a schema. -/
def isInitialized (r : Registry σ β) : Bool := r.defaults?.any fun d => d.schema.isSome

/-- The current connection, if the registry is initialised and has one. -/
def bind? (r : Registry σ β) : Option β :=
  if r.isInitialized then r.defaults?.bind Defaults.bind else none

/-- The names under which a set is held, in the order of their code points. -/
def holders (held : OrderedMap String Nat) (id : Nat) : List String :=
  ((held.entries.filter fun e => e.2 == id).map Prod.fst).mergeSort fun a b => decide (a ≤ b)

/-! ## Changes -/

/-- No set is current any more. -/
def reset (r : Registry σ β) : Registry σ β := { r with current := none }

/-- Makes a new set the current one. -/
def create (r : Registry σ β) (d : Defaults σ β) : Registry σ β :=
  ⟨r.sets ++ [d], some ⟨r.sets.length, by simp⟩⟩

/-- Changes the set of a number, whether or not it is current. -/
def configure (r : Registry σ β) (id : Nat) (schema : Option σ) (bind : Option β) :
    Registry σ β :=
  ⟨r.sets.set id ⟨schema, bind⟩, r.current.map (Fin.cast (by simp))⟩

/-- The number of the current set, or the fault of its having no schema. -/
def currentOrFault (r : Registry σ β) : Except Fault Nat :=
  match r.current with
  | none => .error .registryEmpty
  | some id => if r.isInitialized then .ok id else .error .registryEmpty

/-- Asks for the current set, which is made from the arguments if there is none. -/
def get (r : Registry σ β) (schema : Option σ) (bind : Option β) :
    Except Fault Nat × Registry σ β :=
  let r' := match r.current with
    | some _ => r
    | none => r.create (.ofArguments schema bind)
  (r'.currentOrFault, r')

/-- Initialises the registry, or gives its current set new contents. -/
def init (r : Registry σ β) (schema : Option σ) (bind : Option β) :
    Except Fault Nat × Registry σ β :=
  match r.current with
  | some id =>
    if r.isInitialized then (.ok id, r.configure id schema bind) else r.reset.get schema bind
  | none => r.get schema bind

/-! ## Laws -/

theorem defaults?_create (r : Registry σ β) (d : Defaults σ β) :
    (r.create d).defaults? = some d := by
  simp [create, defaults?]

theorem isInitialized_of_defaults? {r : Registry σ β} {d : Defaults σ β}
    (h : r.defaults? = some d) : r.isInitialized = d.schema.isSome := by
  simp [isInitialized, h]

theorem defaults?_configure {r : Registry σ β} {id : Fin r.sets.length} (h : r.current = some id)
    (schema : Option σ) (bind : Option β) :
    (r.configure id schema bind).defaults? = some ⟨schema, bind⟩ := by
  simp [configure, defaults?, h]

/-- A set that is made with a schema is the current one. -/
theorem currentOrFault_create {r : Registry σ β} {d : Defaults σ β}
    (h : d.schema.isSome = true) : (r.create d).currentOrFault = .ok r.sets.length := by
  have hi : (r.create d).isInitialized = true := by
    rw [isInitialized_of_defaults? (defaults?_create r d), h]
  have hc : (r.create d).current = some ⟨r.sets.length, by simp [create]⟩ := rfl
  simp only [currentOrFault, hc, hi, if_true]

end Registry

end NestedJoin
