import NestedJoin.Proofs.Describing
import NestedJoin.Proofs.Numbering
set_option autoImplicit false

/-!
# Serving requests

A request asks one builder of a session for something: to be joined to a table, compiled, copied
and so on.  A session numbers the vertices and the edges that it makes, so what a request does is
said of builders without numbers.  It depends on the builder and on the source of the schema, and
on nothing else in the session, and so does the answer.

Main statements: `Session.Settled.builder?_serve` and `Session.Settled.serve_fst_eq`.
-/

namespace NestedJoin

namespace Session

/-! ## Requests -/

/-- What is asked of one builder. -/
inductive Demand where
  /-- to join a table, one row of it to each parent or many -/
  | join (many : Bool) (subject : Subject) (container : Option String)
    (aliasName parentAlias : String) (spec : JoinSpec)
  | filter (f : Filter)
  | modify (aliasName : String) (actions : List Action)
  | compile
  /-- to compile and to write the statement with its values, for a dialect -/
  | literal (dialect : Sql.Dialect)
  | materialize (rows : List Row)
  /-- to store a copy under a name -/
  | clone (target : String)
  /-- to show the graph -/
  | graph

/-- What is asked of the builder of a name. -/
structure Request where
  name : String
  demand : Demand

/-- What a builder answers. -/
inductive Reply where
  /-- it was changed or copied, or there was a fault -/
  | changed (outcome : Except Fault Unit)
  | compiled (warnings : List ParameterCollision) (outcome : Except Fault Compiled)
  | written (warnings : List ParameterCollision) (outcome : Except Fault String)
  /-- what modifiers recorded, and the root entities -/
  | folded (calls : List Call) (entities : Except Fault (List Value))
  /-- the graph, without the numbers that the session gave out for itself -/
  | shown (graph : Graph)

/-- The join that was asked for, as a join of one row or of many. -/
def specOf (many : Bool) (spec : JoinSpec) : JoinSpec :=
  { spec with kind := .ok (if many then .multiple else .single) }

/-- The answer of a builder to a demand, and the session afterwards. -/
def meet (s : Session) (name : String) (b : Builder) : Demand → Reply × Session
  | .join many subject container aliasName parentAlias spec =>
    let (answer, s') := s.join name b subject container aliasName parentAlias (specOf many spec)
    (.changed (answer.map fun _ => ()), s')
  | .filter f => (.changed (.ok ()), s.put name (b.filter f))
  | .modify aliasName actions =>
    match s.modify name b aliasName actions with
    | .error f => (.changed (.error f), s)
    | .ok s' => (.changed (.ok ()), s')
  | .compile =>
    let (run, s') := s.compile b
    (.compiled run.warnings run.outcome, s')
  | .literal dialect =>
    let (run, s') := s.compile b
    (.written run.warnings (run.outcome >>= fun c => c.statement.literal dialect), s')
  | .materialize rows =>
    let (run, s') := s.materialize b rows
    (.folded run.calls run.entities, s')
  | .clone target => (.changed (.ok ()), s.put target b)
  | .graph => (.shown b.graph.unnumbered, s)

/-- The answer to a request, and the session afterwards; without the builder nothing is done. -/
def serve (s : Session) (r : Request) : Option Reply × Session :=
  match s.builder? r.name with
  | none => (none, s)
  | some b =>
    let (reply, s') := s.meet r.name b r.demand
    (some reply, s')

/-- The session after some requests. -/
def serveAll (s : Session) (rs : List Request) : Session := rs.foldl (fun s r => (s.serve r).2) s

namespace Request

/-- The calls behind a request. -/
def commands (r : Request) : List Command :=
  match r.demand with
  | .join many subject container aliasName parentAlias spec =>
    [.join r.name many subject container aliasName parentAlias spec]
  | .filter f => [.filter r.name f]
  | .modify aliasName actions => [.modify r.name aliasName actions]
  | .compile => [.compile r.name]
  | .literal _ => [.compile r.name]
  | .materialize rows => [.materialize r.name rows]
  | .clone target => [.clone r.name target]
  | .graph => []

/-- The names under which a request may leave another builder. -/
def names (r : Request) : List String :=
  match r.demand with
  | .clone target => [r.name, target]
  | _ => [r.name]

end Request

theorem serve_of_none {s : Session} {r : Request} (h : s.builder? r.name = none) :
    s.serve r = (none, s) := by
  simp only [serve, h]

theorem serve_of_some {s : Session} {r : Request} {b : Builder} (h : s.builder? r.name = some b) :
    s.serve r = (some (s.meet r.name b r.demand).1, (s.meet r.name b r.demand).2) := by
  simp only [serve, h]

theorem withBuilder_of_some {s : Session} {name : String} {b : Builder}
    (h : s.builder? name = some b) (act : Builder → Session) : s.withBuilder name act = act b := by
  rw [withBuilder, h]
  rfl

theorem withBuilder_of_none {s : Session} {name : String} (h : s.builder? name = none)
    (act : Builder → Session) : s.withBuilder name act = s := by
  rw [withBuilder, h]
  rfl

/-- Serving a request is obeying the calls behind it. -/
theorem serve_snd (s : Session) (r : Request) : (s.serve r).2 = s.obeyAll r.commands := by
  obtain ⟨name, demand⟩ := r
  cases hb : s.builder? name with
  | none =>
    rw [serve_of_none hb]
    cases demand <;> first | rfl | exact (withBuilder_of_none hb _).symm
  | some b =>
    rw [serve_of_some hb]
    cases demand with
    | graph => rfl
    | modify aliasName actions =>
      simp only [meet, Request.commands, obeyAll, List.foldl_cons, List.foldl_nil, obey,
        withBuilder_of_some hb]
      cases s.modify name b aliasName actions <;> rfl
    | _ =>
      simp only [Request.commands, obeyAll, List.foldl_cons, List.foldl_nil, obey,
        withBuilder_of_some hb]
      rfl

variable {s t : Session} {name : String} {b b' : Builder}

/-! ## Schemas of sessions -/

theorem schema_describe (h : s.schema.Faithful) (subject : Subject) (aliasName : String)
    (container : Option String) :
    (s.describe subject aliasName container).2.schema.Follows s.schema :=
  (h.table_eq subject aliasName container).2

theorem schema_start (h : s.schema.Faithful) (name : String) (subject : Subject)
    (aliasName : String) : (s.start name subject aliasName).2.schema.Follows s.schema := by
  have hd := schema_describe h subject aliasName none
  unfold Session.start
  split
  · next heq => rwa [heq] at hd
  · next heq => rwa [heq] at hd

theorem schema_select (h : s.schema.Faithful) (name : String) (subject : Subject)
    (aliasName : String) (fromRegistry : Bool) :
    (s.select name subject aliasName fromRegistry).2.schema.Follows s.schema := by
  have hasked : (if fromRegistry then s.registrySchema else (.ok (), s)).2.schema = s.schema := by
    split <;> rfl
  unfold Session.select
  split
  · next heq =>
    rw [heq] at hasked
    rw [hasked]
    exact h.follows
  · next s' heq =>
    rw [heq] at hasked
    change s'.schema = s.schema at hasked
    rw [← hasked] at h ⊢
    exact schema_start h name subject aliasName

theorem schema_join (h : s.schema.Faithful) (name : String) (b : Builder) (subject : Subject)
    (container : Option String) (aliasName parentAlias : String) (spec : JoinSpec) :
    (s.join name b subject container aliasName parentAlias spec).2.schema.Follows s.schema := by
  have hd := schema_describe h subject aliasName container
  unfold Session.join
  split
  · next heq => rwa [heq] at hd
  · next heq =>
    rw [heq] at hd
    split <;> exact hd

/-- No call changes what the schema of a session says, nor makes it unfaithful. -/
theorem schema_obey (h : s.schema.Faithful) (c : Command) :
    (s.obey c).schema.Follows s.schema := by
  have hwith : ∀ (name : String) (act : Builder → Session),
      (∀ b, (act b).schema.Follows s.schema) →
        (s.withBuilder name act).schema.Follows s.schema := by
    intro name act hact
    unfold withBuilder
    cases s.builder? name with
    | none => exact h.follows
    | some b => exact hact b
  cases c with
  | initRegistry bind => exact h.follows
  | resetRegistry => exact h.follows
  | select name subject aliasName fromRegistry =>
    exact schema_select h name subject aliasName fromRegistry
  | join name many subject container aliasName parentAlias spec =>
    exact hwith name _ fun b => schema_join h name b subject container aliasName parentAlias _
  | modify name aliasName actions =>
    refine hwith name _ fun b => ?_
    simp only [Session.modify]
    cases b.modify aliasName actions <;> exact h.follows
  | _ => exact hwith _ _ fun b => h.follows

theorem schema_obeyAll (h : s.schema.Faithful) (cs : List Command) :
    (s.obeyAll cs).schema.Follows s.schema := by
  induction cs generalizing s with
  | nil => exact h.follows
  | cons c cs ih =>
    have hstep := schema_obey h c
    exact (ih hstep.faithful).trans hstep

/-! ## What a request does -/

/-- What a demand makes of a builder, numbers apart. -/
def Demand.outcome (schema : Schema) (b : Builder) : Demand → Except Fault Builder
  | .join many subject container aliasName parentAlias spec => do
    let t ← schema.tableOf subject aliasName container
    b.join 0 ⟨0, t⟩ parentAlias (specOf many spec)
  | .filter f => .ok (b.filter f)
  | .modify aliasName actions => b.modify aliasName actions
  | _ => .ok b

/-- The builder that a demand leaves, numbers apart; a demand that fails leaves the old one. -/
def Demand.leaves (schema : Schema) (b : Builder) (d : Demand) : Builder :=
  (d.outcome schema b).toOption.getD b

/-- Schemas of one source leave the same builder. -/
theorem Demand.leaves_congr {schema schema' : Schema} (h : schema.uncached = schema'.uncached)
    (b : Builder) (d : Demand) : d.leaves schema b = d.leaves schema' b := by
  unfold Demand.leaves Demand.outcome
  rw [Schema.tableOf_eq_of_uncached_eq h]

/-- Writing a builder's own name with the builder changes no look-up. -/
theorem builder?_eq_ite (hb : s.builder? name = some b) (name' : String) :
    s.builder? name' = if name' = name then some b else s.builder? name' := by
  split
  · next h => rw [h, hb]
  · rfl

/-- Joining does to a builder what the source of the schema says, and to no other anything. -/
theorem join_spec (hs : s.schema.Faithful) (hb : s.builder? name = some b) (subject : Subject)
    (container : Option String) (aliasName parentAlias : String) (spec : JoinSpec) :
    let joined := s.join name b subject container aliasName parentAlias spec
    joined.1.map Builder.unnumbered = (do
      let t ← s.schema.tableOf subject aliasName container
      b.unnumbered.join 0 ⟨0, t⟩ parentAlias spec) ∧
    ∀ name', joined.2.builder? name' =
      if name' = name then some (joined.1.toOption.getD b) else s.builder? name' := by
  obtain ⟨htable, -⟩ := hs.table_eq subject aliasName container
  rcases ht : s.schema.table subject aliasName container with ⟨answer, schema⟩
  rw [ht] at htable
  dsimp only at htable
  have hd : s.describe subject aliasName container =
      (answer.map fun t => ⟨s.nextVertex, t⟩,
        { s with schema, nextVertex := s.nextVertex + 1 }) := by
    simp only [describe, ht]
  unfold join
  rw [hd, ← htable]
  cases answer with
  | error f => exact ⟨rfl, builder?_eq_ite hb⟩
  | ok table =>
    have hjoin := b.join_unnumbered s.nextEdge ⟨s.nextVertex, table⟩ parentAlias spec
    dsimp only [Except.map]
    cases hj : b.join s.nextEdge ⟨s.nextVertex, table⟩ parentAlias spec with
    | error f =>
      rw [hj] at hjoin
      exact ⟨hjoin.symm, builder?_eq_ite hb⟩
    | ok joined =>
      rw [hj] at hjoin
      exact ⟨hjoin.symm, fun name' => builder_put s name name' joined⟩

/-- A demand leaves a builder that depends on the old one and the source of the schema only, and
every builder of another name as it was. -/
theorem builder?_meet (hs : s.schema.Faithful) (hb : s.builder? name = some b) (d : Demand)
    (name' : String) : ((s.meet name b d).2.builder? name').map Builder.unnumbered =
      if name' ∈ (Request.mk name d).names then some (d.leaves s.schema b.unnumbered)
      else (s.builder? name').map Builder.unnumbered := by
  have hput : ∀ (target : String) (made : Builder),
      ((s.put target made).builder? name').map Builder.unnumbered =
        if name' = target then some made.unnumbered
        else (s.builder? name').map Builder.unnumbered := by
    intro target made
    rw [builder_put]
    split <;> rfl
  have hsame : (s.builder? name').map Builder.unnumbered =
      if name' = name then some b.unnumbered else (s.builder? name').map Builder.unnumbered := by
    split
    · next h => rw [h, hb, Option.map_some]
    · rfl
  cases d with
  | join many subject container aliasName parentAlias spec =>
    obtain ⟨hanswer, hbuilder⟩ :=
      join_spec hs hb subject container aliasName parentAlias (specOf many spec)
    simp only [Request.names, List.mem_singleton, Demand.leaves, Demand.outcome, ← hanswer, meet,
      hbuilder]
    split
    · cases (s.join name b subject container aliasName parentAlias (specOf many spec)).1 <;> rfl
    · rfl
  | filter f =>
    simp only [Request.names, List.mem_singleton]
    exact hput name (b.filter f)
  | modify aliasName actions =>
    simp only [Request.names, List.mem_singleton, Demand.leaves, Demand.outcome,
      Builder.modify_unnumbered, meet, Session.modify]
    cases b.modify aliasName actions with
    | error f => exact hsame
    | ok made => exact hput name made
  | clone target =>
    simp only [Request.names, List.mem_cons, List.not_mem_nil, or_false, meet]
    rw [hput, hsame]
    by_cases ht : name' = target
    · rw [if_pos ht, if_pos (Or.inr ht)]
      rfl
    · rw [if_neg ht]
      by_cases hn : name' = name
      · rw [if_pos hn, if_pos (Or.inl hn)]
        rfl
      · rw [if_neg hn, if_neg (not_or.2 ⟨hn, ht⟩)]
  | _ =>
    simp only [Request.names, List.mem_singleton]
    exact hsame

/-- Two sessions answer alike for builders that are the same without numbers. -/
theorem meet_fst_eq (hs : s.schema.Faithful) (ht : t.schema.Faithful)
    (hsource : s.schema.uncached = t.schema.uncached) (hb : s.builder? name = some b)
    (hb' : t.builder? name = some b') (hg : b.graph.Grown) (hg' : b'.graph.Grown)
    (h : b.unnumbered = b'.unnumbered) (d : Demand) :
    (s.meet name b d).1 = (t.meet name b' d).1 := by
  -- a fault is the same fault without numbers
  have hdone : ∀ x y : Except Fault Builder,
      x.map Builder.unnumbered = y.map Builder.unnumbered →
        x.map (fun _ => ()) = y.map fun _ => () := by
    intro x y hxy
    have hunit := congrArg (Except.map fun _ => ()) hxy
    cases x <;> cases y <;> exact hunit
  cases d with
  | join many subject container aliasName parentAlias spec =>
    have hanswer :=
      (join_spec hs hb subject container aliasName parentAlias (specOf many spec)).1
    have hanswer' :=
      (join_spec ht hb' subject container aliasName parentAlias (specOf many spec)).1
    rw [← h, ← Schema.tableOf_eq_of_uncached_eq hsource, ← hanswer] at hanswer'
    exact congrArg Reply.changed (hdone _ _ hanswer'.symm)
  | filter f => rfl
  | modify aliasName actions =>
    have hanswer : (b.modify aliasName actions).map Builder.unnumbered =
        (b'.modify aliasName actions).map Builder.unnumbered := by
      rw [← Builder.modify_unnumbered, h, Builder.modify_unnumbered]
    have hreply : ∀ (u : Session) (c : Builder), (u.meet name c (.modify aliasName actions)).1 =
        .changed ((c.modify aliasName actions).map fun _ => ()) := by
      intro u c
      simp only [meet, Session.modify]
      cases c.modify aliasName actions <;> rfl
    rw [hreply, hreply, hdone _ _ hanswer]
  | compile =>
    obtain ⟨ho, hw⟩ := Builder.compile_eq_of_unnumbered_eq h s.chains t.chains
    simp only [meet, compile, ho, hw]
  | literal dialect =>
    obtain ⟨ho, hw⟩ := Builder.compile_eq_of_unnumbered_eq h s.chains t.chains
    simp only [meet, compile, ho, hw]
  | materialize rows =>
    have hrun := Builder.materialize_eq_of_unnumbered_eq h hg hg' s.chains t.chains rows
    simp only [meet, materialize, hrun]
  | clone target => rfl
  | graph => exact congrArg Reply.shown (congrArg Builder.graph h)

/-! ## Settled sessions -/

/-- The builders of a session grew in it, and its schema is faithful. -/
structure Settled (s : Session) : Prop where
  grown : s.Grown
  faithful : s.schema.Faithful

namespace Settled

theorem obeyAll (h : s.Settled) (cs : List Command) : (s.obeyAll cs).Settled :=
  ⟨h.grown.obeyAll cs, (schema_obeyAll h.faithful cs).faithful⟩

theorem serve (h : s.Settled) (r : Request) :
    (s.serve r).2.Settled ∧ (s.serve r).2.schema.uncached = s.schema.uncached := by
  rw [serve_snd]
  exact ⟨h.obeyAll r.commands, (schema_obeyAll h.faithful r.commands).uncached_eq⟩

theorem serveAll (h : s.Settled) (rs : List Request) :
    (s.serveAll rs).Settled ∧ (s.serveAll rs).schema.uncached = s.schema.uncached := by
  induction rs generalizing s with
  | nil => exact ⟨h, rfl⟩
  | cons r rs ih =>
    obtain ⟨hsettled, hsource⟩ := h.serve r
    obtain ⟨hsettled', hsource'⟩ := ih hsettled
    exact ⟨hsettled', hsource'.trans hsource⟩

/-- What a request leaves under every name. -/
theorem builder?_serve (h : s.Settled) {r : Request} (hb : s.builder? r.name = some b)
    (name : String) : ((s.serve r).2.builder? name).map Builder.unnumbered =
      if name ∈ r.names then some (r.demand.leaves s.schema b.unnumbered)
      else (s.builder? name).map Builder.unnumbered := by
  rw [serve_of_some hb]
  exact builder?_meet h.faithful hb r.demand name

/-- Sessions of one source answer a request alike if its builder is the same without numbers. -/
theorem serve_fst_eq (h : s.Settled) (h' : t.Settled)
    (hsource : s.schema.uncached = t.schema.uncached) {r : Request}
    (hbuilder : (s.builder? r.name).map Builder.unnumbered =
      (t.builder? r.name).map Builder.unnumbered) : (s.serve r).1 = (t.serve r).1 := by
  cases hb : s.builder? r.name with
  | none =>
    rw [hb, Option.map_none] at hbuilder
    rw [serve_of_none hb, serve_of_none (Option.map_eq_none_iff.1 hbuilder.symm)]
  | some b =>
    rw [hb, Option.map_some] at hbuilder
    obtain ⟨b', hb', hsame⟩ := Option.map_eq_some_iff.1 hbuilder.symm
    rw [serve_of_some hb, serve_of_some hb']
    exact congrArg some (meet_fst_eq h.faithful h'.faithful hsource hb hb' (h.grown _ b hb).1
      (h'.grown _ b' hb').1 hsame.symm r.demand)

end Settled

end Session

end NestedJoin
