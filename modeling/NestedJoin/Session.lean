import NestedJoin.Builder
import NestedJoin.Registry
set_option autoImplicit false

/-!
# Sessions

A session holds builders under names.  They share one schema, a registry of defaults and
the key chains of all vertices; every vertex and every edge made in a session has a serial
number of its own.  The registry keeps the session's own schema, so a set of defaults only
says whether that schema is to be used.

Main statement: `builder_put`, which says what storing a builder changes.
-/

namespace NestedJoin

/-- Builders under names, and what they share. -/
structure Session where
  schema : Schema
  registry : Registry Unit Connection
  builders : OrderedMap String Builder
  chains : KeyChains
  /-- the serial number of the next vertex -/
  nextVertex : Nat
  /-- the serial number of the next edge -/
  nextEdge : Nat

namespace Session

/-- A session without builders. -/
def ofSchema (schema : Schema) : Session := ⟨schema, .empty, .empty, .empty, 0, 0⟩

instance : Inhabited Session := ⟨ofSchema default⟩

/-- The builder of a name. -/
def builder? (s : Session) (name : String) : Option Builder := s.builders.get? name

/-- Stores a builder under a name. -/
def put (s : Session) (name : String) (b : Builder) : Session :=
  { s with builders := s.builders.insert name b }

/-- What storing a builder changes. -/
theorem builder_put (s : Session) (name name' : String) (b : Builder) :
    (s.put name b).builder? name' = if name' = name then some b else s.builder? name' :=
  OrderedMap.get?_insert s.builders name b name'

/-! ## Defaults -/

/-- Initialises the registry with the session's schema. -/
def initRegistry (s : Session) (bind : Option Connection) : Except Fault Unit × Session :=
  let (answer, registry) := s.registry.init (some ()) bind
  (answer.map fun _ => (), { s with registry })

/-- Forgets the current defaults. -/
def resetRegistry (s : Session) : Session := { s with registry := s.registry.reset }

/-- Asks the registry for its schema. -/
def registrySchema (s : Session) : Except Fault Unit × Session :=
  let (answer, registry) := s.registry.get none none
  ((do
    let id ← answer
    ((registry.get? id).getD .blank).schemaOrFault), { s with registry })

/-! ## Builders -/

/-- A new vertex for a subject under an alias. -/
def describe (s : Session) (subject : Subject) (aliasName : String) (container : Option String) :
    Except Fault Vertex × Session :=
  let (answer, schema) := s.schema.table subject aliasName container
  (answer.map fun t => ⟨s.nextVertex, t⟩, { s with schema, nextVertex := s.nextVertex + 1 })

/-- Starts a builder with the table of a subject. -/
def start (s : Session) (name : String) (subject : Subject) (aliasName : String) :
    Except Fault Builder × Session :=
  match s.describe subject aliasName none with
  | (.error f, s') => (.error f, s')
  | (.ok v, s') => (.ok (.ofRoot v), s'.put name (.ofRoot v))

/-- Starts a builder with the table of a subject; the schema is passed, or the registry's. -/
def select (s : Session) (name : String) (subject : Subject) (aliasName : String)
    (fromRegistry : Bool) : Except Fault Builder × Session :=
  match if fromRegistry then s.registrySchema else (.ok (), s) with
  | (.error f, s') => (.error f, s')
  | (.ok _, s') => s'.start name subject aliasName

/-- Joins the table of a subject to a builder's table of another alias. -/
def join (s : Session) (name : String) (b : Builder) (subject : Subject)
    (container : Option String) (aliasName parentAlias : String) (spec : JoinSpec) :
    Except Fault Builder × Session :=
  match s.describe subject aliasName container with
  | (.error f, s') => (.error f, s')
  | (.ok v, s') =>
    match b.join s'.nextEdge v parentAlias spec with
    | .error f => (.error f, s')
    | .ok b' => (.ok b', { s'.put name b' with nextEdge := s'.nextEdge + 1 })

/-- Registers a modifier with a builder. -/
def modify (s : Session) (name : String) (b : Builder) (aliasName : String)
    (actions : List Action) : Except Fault Session :=
  (b.modify aliasName actions).map (s.put name)

/-! ## Runs -/

/-- Compiles a builder; the session keeps the key chains. -/
def compile (s : Session) (b : Builder) : CompileRun × Session :=
  let run := b.compile s.chains
  (run, { s with chains := run.chains })

/-- Folds rows of a builder into entities; the session keeps the key chains. -/
def materialize (s : Session) (b : Builder) (rows : List Row) : MaterializeRun × Session :=
  let (run, chains) := b.materialize s.chains rows
  (run, { s with chains })

/-- Runs a builder on a connection; the session keeps the key chains. -/
def run (s : Session) (b : Builder) (connection : Option Connection) (observed : Bool) :
    Builder.Run × Session :=
  let run := b.run s.chains connection observed
  (run, { s with chains := run.chains })

/-- The connection that a run uses: the one passed, or else the registry's. -/
def connectionOr (s : Session) (passed : Option Connection) : Option Connection :=
  passed.or s.registry.bind?

end Session

end NestedJoin
