import NestedJoin.Session
import NestedJoin.Proofs.GraphTree
set_option autoImplicit false

/-!
# Runs of builders

A session's builders come to be by calls only.  Every vertex that a call makes has a serial
number of its own, every edge joins onto the builder's own vertex of the parent's alias, and
its kind is one of the two that callers can ask for.  `Graph.Grown` says so of one graph; it
holds of the graph of every builder after any calls.

Main statements: `Session.grown_run`, and `Session.builder_run`, which proves something of every
builder from what joining, filtering and modifying keep.  `Graph.Made` holds of all graphs that
calls make, in builders or without them.
-/

namespace NestedJoin

namespace Graph

/-! ## Grown graphs -/

/-- A graph that grew in a builder. -/
structure Grown (g : Graph) : Prop where
  coherent : g.Coherent
  has_root : g.root.isSome = true
  /-- an edge leads from the graph's own vertex of the parent's alias -/
  parent_eq : ∀ e ∈ g.edges, g.find? e.parentAlias = some e.parent
  kind_eq : ∀ e ∈ g.edges, e.kind = .single ∨ e.kind = .multiple
  serials_nodup : (g.vertices.map Vertex.serial).Nodup

/-- The serial numbers of a graph's vertices are given out already. -/
def SerialsBelow (g : Graph) (n : Nat) : Prop := ∀ v ∈ g.vertices, v.serial < n

namespace Grown

variable {g : Graph}

theorem ofRoot (root : Vertex) : (Graph.ofRoot root).Grown where
  coherent := Coherent.ofRoot root
  has_root := rfl
  parent_eq := fun _ he => by cases he
  kind_eq := fun _ he => by cases he
  serials_nodup := List.nodup_singleton _

/-- The parent of an edge is a vertex of the graph. -/
theorem parent_mem (h : g.Grown) {e : Edge} (he : e ∈ g.edges) : e.parent ∈ g.vertices :=
  OrderedMap.mem_values_of_get? (h.parent_eq e he)

/-- No edge leads back to the alias that it leads from. -/
theorem parent_ne_child (h : g.Grown) {e : Edge} (he : e ∈ g.edges) :
    e.parent.aliasName ≠ e.child.aliasName := by
  obtain ⟨before, after, hs⟩ := List.append_of_mem he
  have hnot := h.coherent.parent_notMem hs
  rw [List.map_cons, List.mem_cons, not_or] at hnot
  exact hnot.1

theorem mem_edgesInto_iff (h : g.Grown) {v : Vertex} (hv : v ∈ g.vertices) {e : Edge} :
    e ∈ g.edgesInto v.aliasName ↔ e ∈ g.edges ∧ e.parent = v := by
  rw [h.coherent.edgesInto_eq, List.mem_filter, beq_iff_eq]
  refine and_congr_right fun he => ?_
  constructor
  · exact h.coherent.eq_of_aliasName (h.parent_mem he) hv
  · rintro rfl
    rfl

/-- A new vertex joined onto one of the graph's own leaves the graph grown. -/
theorem addEdge {g' : Graph} {e : Edge} (h : g.Grown)
    (hp : g.find? e.parentAlias = some e.parent) (hk : e.kind = .single ∨ e.kind = .multiple)
    (hs : g.SerialsBelow e.child.serial) (ha : g.addEdge e = .ok g') : g'.Grown := by
  have hc := h.coherent.addEdge ha
  obtain ⟨hroot, hnew, -, -, rfl⟩ := Graph.addEdge_eq_ok_iff.1 ha
  have hvertices := Coherent.vertices_fileEdge hnew
  have hedges := h.coherent.edges_fileEdge hnew
  refine ⟨hc, hroot, ?_, ?_, ?_⟩
  · intro f hf
    have hkeep : ∀ a v, g.find? a = some v → (g.fileEdge e).find? a = some v := by
      intro a v hv
      show (g.tables.insert e.aliasName e.child).get? a = some v
      rw [OrderedMap.get?_insert, if_neg]
      · exact hv
      · rintro rfl
        rw [Graph.contains, OrderedMap.contains,
          show g.tables.get? e.aliasName = some v from hv] at hnew
        cases hnew
    rw [hedges] at hf
    rcases List.mem_append.1 hf with hf | hf
    · exact hkeep _ _ (h.parent_eq f hf)
    · obtain rfl := List.mem_singleton.1 hf
      exact hkeep _ _ hp
  · intro f hf
    rw [hedges] at hf
    rcases List.mem_append.1 hf with hf | hf
    · exact h.kind_eq f hf
    · obtain rfl := List.mem_singleton.1 hf
      exact hk
  · rw [hvertices, List.map_append, List.nodup_append]
    refine ⟨h.serials_nodup, List.nodup_singleton _, ?_⟩
    rintro n hn _ hn' rfl
    obtain ⟨v, hv, rfl⟩ := List.mem_map.1 hn
    have hlt := hs v hv
    rw [List.mem_singleton.1 hn'] at hlt
    exact Nat.lt_irrefl _ hlt

end Grown

end Graph

namespace Session

/-! ## Calls -/

/-- A call on a session and its builders. -/
inductive Command where
  | initRegistry (bind : Option Connection)
  | resetRegistry
  /-- starts a builder -/
  | select (name : String) (subject : Subject) (aliasName : String) (fromRegistry : Bool)
  /-- joins a table, one row of it to each parent or many -/
  | join (name : String) (many : Bool) (subject : Subject) (container : Option String)
    (aliasName parentAlias : String) (spec : JoinSpec)
  | filter (name : String) (f : Filter)
  | modify (name aliasName : String) (actions : List Action)
  | compile (name : String)
  | materialize (name : String) (rows : List Row)
  | run (name : String) (connection : Option Connection) (observed : Bool)
  /-- stores a copy of a builder -/
  | clone (source target : String)

/-- The session after something is done with a builder; without the builder nothing is done. -/
def withBuilder (s : Session) (name : String) (act : Builder → Session) : Session :=
  ((s.builder? name).map act).getD s

/-- The session after a call, whether the call fails or not. -/
def obey (s : Session) : Command → Session
  | .initRegistry bind => (s.initRegistry bind).2
  | .resetRegistry => s.resetRegistry
  | .select name subject aliasName fromRegistry =>
    (s.select name subject aliasName fromRegistry).2
  | .join name many subject container aliasName parentAlias spec =>
    s.withBuilder name fun b =>
      (s.join name b subject container aliasName parentAlias
        { spec with kind := .ok (if many then .multiple else .single) }).2
  | .filter name f => s.withBuilder name fun b => s.put name (b.filter f)
  | .modify name aliasName actions =>
    s.withBuilder name fun b => (s.modify name b aliasName actions).toOption.getD s
  | .compile name => s.withBuilder name fun b => (s.compile b).2
  | .materialize name rows => s.withBuilder name fun b => (s.materialize b rows).2
  | .run name connection observed => s.withBuilder name fun b => (s.run b connection observed).2
  | .clone source target => s.withBuilder source fun b => s.put target b

/-- The session after some calls. -/
def obeyAll (s : Session) (cs : List Command) : Session := cs.foldl obey s

/-! ## What calls preserve -/

/-- The graph of every builder has grown in it, from vertices that the session has numbered. -/
def Grown (s : Session) : Prop :=
  ∀ name b, s.builder? name = some b →
    b.graph.Grown ∧ b.graph.SerialsBelow s.nextVertex

namespace Grown

variable {s : Session}

theorem ofSchema (schema : Schema) : (Session.ofSchema schema).Grown := by
  intro name b h
  cases h

/-- A session with the same builders that has numbered no fewer vertices. -/
theorem of_builders_eq {s' : Session} (h : s.Grown) (hb : s'.builders = s.builders)
    (hn : s.nextVertex ≤ s'.nextVertex) : s'.Grown := by
  intro name b hb'
  rw [builder?, hb] at hb'
  obtain ⟨hg, hs⟩ := h name b hb'
  exact ⟨hg, fun v hv => Nat.lt_of_lt_of_le (hs v hv) hn⟩

theorem put (h : s.Grown) {b : Builder} (hg : b.graph.Grown)
    (hs : b.graph.SerialsBelow s.nextVertex) (name : String) : (s.put name b).Grown := by
  intro name' b' hb'
  rw [builder_put] at hb'
  split at hb'
  · cases hb'
    exact ⟨hg, hs⟩
  · exact h name' b' hb'

theorem withBuilder (h : s.Grown) {name : String} {act : Builder → Session}
    (ha : ∀ b, s.builder? name = some b → (act b).Grown) : (s.withBuilder name act).Grown := by
  unfold Session.withBuilder
  cases hb : s.builder? name with
  | none => exact h
  | some b => exact ha b hb

/-- A builder is replaced by one with the same graph. -/
theorem put_of_graph_eq (h : s.Grown) {name target : String} {b b' : Builder}
    (hb : s.builder? name = some b) (hg : b'.graph = b.graph) : (s.put target b').Grown := by
  obtain ⟨hgrown, hs⟩ := h name b hb
  rw [← hg] at hgrown hs
  exact h.put hgrown hs target

end Grown

/-- A vertex described for a builder gets the next number, and the builders stay. -/
theorem describe_eq {s s' : Session} {subject : Subject} {aliasName : String}
    {container : Option String} {answer : Except Fault Vertex}
    (h : s.describe subject aliasName container = (answer, s')) :
    s'.builders = s.builders ∧ s'.nextVertex = s.nextVertex + 1 ∧
      ∀ v, answer = .ok v → v.serial = s.nextVertex := by
  simp only [describe] at h
  obtain ⟨rfl, rfl⟩ := Prod.mk.inj h
  refine ⟨rfl, rfl, ?_⟩
  intro v hv
  cases ht : (s.schema.table subject aliasName container).1 with
  | error f => rw [ht] at hv; cases hv
  | ok t => rw [ht] at hv; cases hv; rfl

namespace Grown

variable {s : Session}

theorem registrySchema (h : s.Grown) : s.registrySchema.2.Grown :=
  h.of_builders_eq rfl (Nat.le_refl _)

theorem start (h : s.Grown) (name : String) (subject : Subject) (aliasName : String) :
    (s.start name subject aliasName).2.Grown := by
  unfold Session.start
  rcases hd : s.describe subject aliasName none with ⟨answer, s'⟩
  obtain ⟨hb, hn, hv⟩ := describe_eq hd
  have hs' : s'.Grown := h.of_builders_eq hb (by omega)
  cases answer with
  | error f => exact hs'
  | ok v =>
    refine hs'.put (Graph.Grown.ofRoot v) ?_ name
    intro w hw
    obtain rfl := List.mem_singleton.1 hw
    rw [hv w rfl]
    omega

theorem select (h : s.Grown) (name : String) (subject : Subject) (aliasName : String)
    (fromRegistry : Bool) : (s.select name subject aliasName fromRegistry).2.Grown := by
  unfold Session.select
  split
  · next f s' hr =>
    split at hr
    · rw [show s' = s.registrySchema.2 by rw [hr]]
      exact h.registrySchema
    · cases hr
  · next s' hr =>
    refine start ?_ name subject aliasName
    split at hr
    · rw [show s' = s.registrySchema.2 by rw [hr]]
      exact h.registrySchema
    · cases hr
      exact h

theorem join (h : s.Grown) {name : String} {b : Builder} (hb : s.builder? name = some b)
    (subject : Subject) (container : Option String) (aliasName parentAlias : String)
    {spec : JoinSpec} (hk : spec.kind = .ok .single ∨ spec.kind = .ok .multiple) :
    (s.join name b subject container aliasName parentAlias spec).2.Grown := by
  obtain ⟨hgrown, hbelow⟩ := h name b hb
  unfold Session.join
  rcases hd : s.describe subject aliasName container with ⟨answer, s'⟩
  obtain ⟨hbuilders, hnext, hserial⟩ := describe_eq hd
  have hs' : s'.Grown := h.of_builders_eq hbuilders (by omega)
  cases answer with
  | error f => exact hs'
  | ok v =>
    have hv : v.serial = s.nextVertex := hserial v rfl
    dsimp only
    split
    · exact hs'
    · next b' hj =>
      obtain ⟨parent, edge, graph, hparent, hmake, hadd, rfl⟩ := Builder.join_eq_ok hj
      obtain ⟨-, hchild, hp, hkind⟩ := Edge.make_parts hmake
      have hfind := Graph.byAlias_eq_ok_iff.1 hparent
      have hown : b.graph.find? edge.parentAlias = some edge.parent := by
        rw [Edge.parentAlias, hp, hgrown.coherent.aliasName_of_find? hfind]
        exact hfind
      have hkinds : edge.kind = .single ∨ edge.kind = .multiple := by
        rcases hk with hk | hk
        · rw [hk] at hkind
          exact Or.inl (Except.ok.inj hkind).symm
        · rw [hk] at hkind
          exact Or.inr (Except.ok.inj hkind).symm
      have hfresh : b.graph.SerialsBelow edge.child.serial := by
        rw [hchild, hv]
        exact hbelow
      have hgraph : graph.Grown := hgrown.addEdge hown hkinds hfresh hadd
      have hnew := (Graph.addEdge_eq_ok_iff.1 hadd).2.1
      have hserials : graph.SerialsBelow s'.nextVertex := by
        intro w hw
        rw [(Graph.addEdge_eq_ok_iff.1 hadd).2.2.2.2, Graph.Coherent.vertices_fileEdge hnew] at hw
        rcases List.mem_append.1 hw with hw | hw
        · exact Nat.lt_of_lt_of_le (hbelow w hw) (by omega)
        · rw [List.mem_singleton.1 hw, hchild, hv, hnext]
          exact Nat.lt_succ_self _
      exact (hs'.put hgraph hserials name).of_builders_eq rfl (Nat.le_refl _)

/-- No call leads out of the grown sessions. -/
theorem obey (h : s.Grown) (c : Command) : (s.obey c).Grown := by
  cases c with
  | initRegistry bind => exact h.of_builders_eq rfl (Nat.le_refl _)
  | resetRegistry => exact h.of_builders_eq rfl (Nat.le_refl _)
  | select name subject aliasName fromRegistry => exact h.select name subject aliasName fromRegistry
  | join name many subject container aliasName parentAlias spec =>
    refine h.withBuilder fun b hb => h.join hb subject container aliasName parentAlias ?_
    cases many with
    | false => exact Or.inl rfl
    | true => exact Or.inr rfl
  | filter name f => exact h.withBuilder fun b hb => h.put_of_graph_eq hb rfl
  | modify name aliasName actions =>
    refine h.withBuilder fun b hb => ?_
    simp only [Session.modify, Builder.modify]
    cases b.graph.byAlias aliasName with
    | error f => exact h
    | ok v => exact h.put_of_graph_eq hb rfl
  | compile name => exact h.withBuilder fun b _ => h.of_builders_eq rfl (Nat.le_refl _)
  | materialize name rows => exact h.withBuilder fun b _ => h.of_builders_eq rfl (Nat.le_refl _)
  | run name connection observed =>
    exact h.withBuilder fun b _ => h.of_builders_eq rfl (Nat.le_refl _)
  | clone source target => exact h.withBuilder fun b hb => h.put_of_graph_eq hb rfl

theorem obeyAll (h : s.Grown) (cs : List Command) : (s.obeyAll cs).Grown := by
  induction cs generalizing s with
  | nil => exact h
  | cons c cs ih => exact ih (h.obey c)

end Grown

/-- Whatever calls are made, and whether they fail or not, the graph of every builder has grown
in it. -/
theorem grown_run (schema : Schema) (cs : List Command) {name : String} {b : Builder}
    (h : ((ofSchema schema).obeyAll cs).builder? name = some b) : b.graph.Grown :=
  ((Grown.ofSchema schema).obeyAll cs name b h).1

/-! ## Properties of builders -/

/-- All builders of a session have a property. -/
def All (P : Builder → Prop) (s : Session) : Prop := ∀ name b, s.builder? name = some b → P b

namespace All

variable {P : Builder → Prop} {s : Session}

theorem of_builders_eq {s' : Session} (h : s.All P) (hb : s'.builders = s.builders) : s'.All P := by
  intro name b hb'
  rw [builder?, hb] at hb'
  exact h name b hb'

theorem put (h : s.All P) {b : Builder} (hb : P b) (name : String) : (s.put name b).All P := by
  intro name' b' hb'
  rw [builder_put] at hb'
  split at hb'
  · cases hb'
    exact hb
  · exact h name' b' hb'

theorem withBuilder (h : s.All P) {name : String} {act : Builder → Session}
    (ha : ∀ b, P b → (act b).All P) : (s.withBuilder name act).All P := by
  unfold Session.withBuilder
  cases hb : s.builder? name with
  | none => exact h
  | some b => exact ha b (h name b hb)

theorem start (h : s.All P) (hroot : ∀ v, P (.ofRoot v)) (name : String) (subject : Subject)
    (aliasName : String) : (s.start name subject aliasName).2.All P := by
  unfold Session.start
  rcases hd : s.describe subject aliasName none with ⟨answer, s'⟩
  have hs' : s'.All P := h.of_builders_eq (describe_eq hd).1
  cases answer with
  | error f => exact hs'
  | ok v => exact hs'.put (hroot v) name

theorem select (h : s.All P) (hroot : ∀ v, P (.ofRoot v)) (name : String) (subject : Subject)
    (aliasName : String) (fromRegistry : Bool) :
    (s.select name subject aliasName fromRegistry).2.All P := by
  have hasked : (if fromRegistry then s.registrySchema else (.ok (), s)).2.builders =
      s.builders := by
    split <;> rfl
  unfold Session.select
  split
  · next heq =>
    rw [heq] at hasked
    exact h.of_builders_eq hasked
  · next heq =>
    rw [heq] at hasked
    exact (h.of_builders_eq hasked).start hroot name subject aliasName

theorem join (h : s.All P)
    (hjoin : ∀ b b' serial child parentAlias spec, P b →
      b.join serial child parentAlias spec = .ok b' → P b')
    {b : Builder} (hb : P b) (name : String) (subject : Subject) (container : Option String)
    (aliasName parentAlias : String) (spec : JoinSpec) :
    (s.join name b subject container aliasName parentAlias spec).2.All P := by
  unfold Session.join
  rcases hd : s.describe subject aliasName container with ⟨answer, s'⟩
  have hs' : s'.All P := h.of_builders_eq (describe_eq hd).1
  cases answer with
  | error f => exact hs'
  | ok v =>
    dsimp only
    split
    · exact hs'
    · next b' hj => exact (hs'.put (hjoin b b' _ _ _ _ hb hj) name).of_builders_eq rfl

end All

/-- What holds of a builder of one table and is kept by joining, filtering and modifying holds of
every builder, whatever calls are made. -/
theorem builder_run {P : Builder → Prop} (hroot : ∀ v, P (.ofRoot v))
    (hjoin : ∀ b b' serial child parentAlias spec, P b →
      b.join serial child parentAlias spec = .ok b' → P b')
    (hfilter : ∀ b f, P b → P (b.filter f))
    (hmodify : ∀ b b' aliasName actions, P b → b.modify aliasName actions = .ok b' → P b')
    (schema : Schema) (cs : List Command) {name : String} {b : Builder}
    (h : ((ofSchema schema).obeyAll cs).builder? name = some b) : P b := by
  have hobey : ∀ (s : Session) (c : Command), s.All P → (s.obey c).All P := by
    intro s c hs
    cases c with
    | initRegistry bind => exact hs.of_builders_eq rfl
    | resetRegistry => exact hs.of_builders_eq rfl
    | select name subject aliasName fromRegistry =>
      exact hs.select hroot name subject aliasName fromRegistry
    | join name many subject container aliasName parentAlias spec =>
      exact hs.withBuilder fun b hb =>
        hs.join hjoin hb name subject container aliasName parentAlias _
    | filter name f => exact hs.withBuilder fun b hb => hs.put (hfilter b f hb) name
    | modify name aliasName actions =>
      refine hs.withBuilder fun b hb => ?_
      unfold Session.modify
      cases hm : b.modify aliasName actions with
      | error f => exact hs
      | ok b' => exact hs.put (hmodify b b' aliasName actions hb hm) name
    | compile name => exact hs.withBuilder fun b _ => hs.of_builders_eq rfl
    | materialize name rows => exact hs.withBuilder fun b _ => hs.of_builders_eq rfl
    | run name connection observed => exact hs.withBuilder fun b _ => hs.of_builders_eq rfl
    | clone source target => exact hs.withBuilder fun b hb => hs.put hb target
  have hrun : ∀ (calls : List Command) (s : Session), s.All P → (s.obeyAll calls).All P := by
    intro calls
    induction calls with
    | nil => exact fun s hs => hs
    | cons c calls ih => exact fun s hs => ih (s.obey c) (hobey s c hs)
  refine hrun cs (ofSchema schema) ?_ name b h
  intro name' b' hb'
  cases hb'

end Session

namespace Graph

/-- A graph that calls have made, by itself or in a builder. -/
inductive Made : Graph → Prop
  | inWorkspace (cs : List Workspace.Command) {name : String} {g : Graph}
    (h : (Workspace.empty.run cs).graphs.get? name = some g) : Made g
  | inBuilder (schema : Schema) (cs : List Session.Command) {name : String} {b : Builder}
    (h : ((Session.ofSchema schema).obeyAll cs).builder? name = some b) : Made b.graph

theorem Made.coherent {g : Graph} (hg : g.Made) : g.Coherent := by
  cases hg with
  | inWorkspace cs h => exact Workspace.Coherent.empty.run cs _ g h
  | inBuilder schema cs h => exact (Session.grown_run schema cs h).coherent

end Graph

end NestedJoin
