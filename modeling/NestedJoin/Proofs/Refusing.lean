import Mathlib.Data.List.Pairwise
import NestedJoin.Proofs.Families
set_option autoImplicit false

/-!
# Refused edges and refused joins

A graph looks at an edge in a fixed order: is there a root, is the alias new, is the parent
known, does anybody produce one of the columns already.  `Graph.Judges` says which edge gets
which answer.  A refused edge leaves no trace.  A refused join leaves a vertex number that is
used up and descriptions that the schema keeps, and neither can be told from any answer later on.

Main statements: `Graph.Coherent.judges` and `Session.refusals`.
-/

namespace NestedJoin

namespace Graph

variable {g : Graph} {e : Edge} {column owner : String} {t : Table}

/-! ## Owners of columns -/

/-- A table of the graph produces a column. -/
def Produces (g : Graph) (column : String) : Prop := ∃ v ∈ g.vertices, column ∈ v.table.columns

/-- Among the tables of the graph the one of an alias produces a column, and no other one. -/
def SoleOwner (g : Graph) (column owner : String) : Prop :=
  ∃ v ∈ g.vertices, v.aliasName = owner ∧ ∀ w ∈ g.vertices, column ∈ w.table.columns ↔ w = v

/-- The first column of a table that the graph produces already, and who produces it. -/
def FirstClash (g : Graph) (t : Table) (column owner : String) : Prop :=
  ∃ before after, t.columns = before ++ column :: after ∧ (∀ c ∈ before, ¬ g.Produces c) ∧
    g.SoleOwner column owner

theorem columnOwner?_eq_none_iff_not_produces :
    g.columnOwner? column = none ↔ ¬ g.Produces column := by
  rw [Coherent.columnOwner?_eq_none_iff]
  simp only [Produces, not_exists, not_and]

theorem not_produces_iff : (∀ c ∈ t.columns, ¬ g.Produces c) ↔ g.columnClash? t = none := by
  rw [Coherent.columnClash?_eq_none_iff]
  simp only [Produces, not_exists, not_and]

namespace Coherent

/-- No two tables of a coherent graph produce one column. -/
theorem eq_of_mem_columns (h : g.Coherent) {v w : Vertex} (hv : v ∈ g.vertices)
    (hw : w ∈ g.vertices) (hcv : column ∈ v.table.columns) (hcw : column ∈ w.table.columns) :
    w = v := by
  by_contra hne
  have hdisjoint : g.vertices.Pairwise fun a b => a.table.columns.Disjoint b.table.columns :=
    (List.nodup_flatMap.1 h.columns_nodup).2
  have : Std.Symm fun a b : Vertex => a.table.columns.Disjoint b.table.columns :=
    ⟨fun _ _ hd _ hb ha => hd ha hb⟩
  exact hdisjoint.forall hw hv hne hcw hcv

theorem columnOwner?_eq_some_iff (h : g.Coherent) :
    g.columnOwner? column = some owner ↔ g.SoleOwner column owner := by
  rw [columnOwner?, Option.map_eq_some_iff]
  constructor
  · rintro ⟨v, hfind, rfl⟩
    have hv := List.mem_of_find?_eq_some hfind
    have hc : column ∈ v.table.columns := by simpa using List.find?_some hfind
    refine ⟨v, hv, rfl, fun w hw => ⟨h.eq_of_mem_columns hv hw hc, ?_⟩⟩
    rintro rfl
    exact hc
  · rintro ⟨v, hv, rfl, hsole⟩
    cases hfind : g.vertices.find? fun w => w.table.columns.contains column with
    | none =>
      have hnot := List.find?_eq_none.1 hfind v hv
      rw [List.contains_iff_mem] at hnot
      exact absurd ((hsole v hv).2 rfl) hnot
    | some w =>
      have hc : column ∈ w.table.columns := by simpa using List.find?_some hfind
      exact ⟨w, rfl, congrArg _ ((hsole w (List.mem_of_find?_eq_some hfind)).1 hc)⟩

/-- The clash that is reported is the first one, with the only table that it can be with. -/
theorem columnClash?_eq_some_iff (h : g.Coherent) :
    g.columnClash? t = some (column, owner) ↔ g.FirstClash t column owner := by
  rw [columnClash?, List.findSome?_eq_some_iff]
  constructor
  · rintro ⟨before, c, after, hsplit, hfound, hbefore⟩
    obtain ⟨o, ho, hpair⟩ := Option.map_eq_some_iff.1 hfound
    obtain ⟨rfl, rfl⟩ := Prod.mk.inj hpair
    refine ⟨before, after, hsplit, fun c' hc' => ?_, h.columnOwner?_eq_some_iff.1 ho⟩
    exact columnOwner?_eq_none_iff_not_produces.1 (Option.map_eq_none_iff.1 (hbefore c' hc'))
  · rintro ⟨before, after, hsplit, hbefore, howner⟩
    refine ⟨before, column, after, hsplit, ?_, fun c' hc' => ?_⟩
    · rw [h.columnOwner?_eq_some_iff.2 howner]
      rfl
    · rw [columnOwner?_eq_none_iff_not_produces.2 (hbefore c' hc')]
      rfl

end Coherent

/-! ## Judging an edge -/

/-- Which answer a graph gives to an edge. -/
structure Judges (g : Graph) (e : Edge) : Prop where
  noRoot : g.addEdge e = .error .noRoot ↔ g.root = none
  /-- the root's alias is taken, as every alias is -/
  root_taken : ∀ r, g.root = some r → r.aliasName ∈ g.aliases
  duplicateAlias : ∀ a, g.addEdge e = .error (.duplicateAlias a) ↔
    g.root ≠ none ∧ e.aliasName ∈ g.aliases ∧ a = e.aliasName
  unknownAlias : ∀ a known, g.addEdge e = .error (.unknownAlias a known) ↔
    g.root ≠ none ∧ e.aliasName ∉ g.aliases ∧ e.parentAlias ∉ g.aliases ∧
      a = e.parentAlias ∧ known = g.aliases
  columnClash : ∀ c a o, g.addEdge e = .error (.columnClash c a o) ↔
    g.root ≠ none ∧ e.aliasName ∉ g.aliases ∧ e.parentAlias ∈ g.aliases ∧
      a = e.aliasName ∧ g.FirstClash e.child.table c o
  accepted : (∃ g', g.addEdge e = .ok g') ↔
    g.root ≠ none ∧ e.aliasName ∉ g.aliases ∧ e.parentAlias ∈ g.aliases ∧
      ∀ c ∈ e.child.table.columns, ¬ g.Produces c
  /-- there is no other fault -/
  faults : ∀ f, g.addEdge e = .error f → f = .noRoot ∨ f = .duplicateAlias e.aliasName ∨
    f = .unknownAlias e.parentAlias g.aliases ∨ ∃ c o, f = .columnClash c e.aliasName o
  /-- an edge that joins a table onto itself is refused -/
  self_refused : e.parentAlias = e.aliasName → ∃ f, g.addEdge e = .error f
  /-- an accepted edge comes last, and its table with it -/
  extends_tree : ∀ g', g.addEdge e = .ok g' →
    g'.root = g.root ∧ g'.vertices = g.vertices ++ [e.child] ∧ g'.edges = g.edges ++ [e] ∧
      ∀ a, g'.edgesInto a = if a = e.parentAlias then g.edgesInto a ++ [e] else g.edgesInto a

theorem contains_iff_mem_aliases {a : String} : g.contains a = true ↔ a ∈ g.aliases :=
  OrderedMap.contains_iff_mem_keys

theorem contains_eq_false_iff {a : String} : g.contains a = false ↔ a ∉ g.aliases := by
  rw [← contains_iff_mem_aliases, Bool.not_eq_true]

theorem edgesInto_fileEdge (g : Graph) (e : Edge) (a : String) : (g.fileEdge e).edgesInto a =
    if a = e.parentAlias then g.edgesInto a ++ [e] else g.edgesInto a := by
  show ((g.inbound.insert _ _).get? a).getD [] = _
  rw [OrderedMap.get?_insert]
  split
  · next ha => rw [ha]; rfl
  · rfl

/-- The four looks at an edge, one after the other. -/
inductive Verdict (g : Graph) (e : Edge) : Except Fault Graph → Prop where
  | noRoot (hr : g.root = none) : Verdict g e (.error .noRoot)
  | duplicateAlias (hr : g.root ≠ none) (ha : e.aliasName ∈ g.aliases) :
    Verdict g e (.error (.duplicateAlias e.aliasName))
  | unknownAlias (hr : g.root ≠ none) (ha : e.aliasName ∉ g.aliases)
    (hp : e.parentAlias ∉ g.aliases) :
    Verdict g e (.error (.unknownAlias e.parentAlias g.aliases))
  | columnClash (hr : g.root ≠ none) (ha : e.aliasName ∉ g.aliases)
    (hp : e.parentAlias ∈ g.aliases) {c o : String}
    (hc : g.columnClash? e.child.table = some (c, o)) :
    Verdict g e (.error (.columnClash c e.aliasName o))
  | accepted (hr : g.root ≠ none) (ha : e.aliasName ∉ g.aliases)
    (hp : e.parentAlias ∈ g.aliases) (hc : g.columnClash? e.child.table = none) :
    Verdict g e (.ok (g.fileEdge e))

theorem verdict (g : Graph) (e : Edge) : g.Verdict e (g.addEdge e) := by
  unfold addEdge
  split
  · next hr => exact .noRoot (Option.isNone_iff_eq_none.1 hr)
  · next hr =>
    have hroot : g.root ≠ none := fun hn => hr (Option.isNone_iff_eq_none.2 hn)
    split
    · next ha => exact .duplicateAlias hroot (contains_iff_mem_aliases.1 ha)
    · next ha =>
      have hnew : e.aliasName ∉ g.aliases := fun hm => ha (contains_iff_mem_aliases.2 hm)
      split
      · next hp =>
        rw [Bool.not_eq_true', contains_eq_false_iff] at hp
        exact .unknownAlias hroot hnew hp
      · next hp =>
        rw [Bool.not_eq_true', Bool.not_eq_false, contains_iff_mem_aliases] at hp
        split
        · next hc => exact .columnClash hroot hnew hp hc
        · next hc => exact .accepted hroot hnew hp hc

namespace Verdict

variable {answer : Except Fault Graph} (h : g.Verdict e answer)

include h

theorem eq_noRoot_iff : answer = .error .noRoot ↔ g.root = none := by
  cases h <;> simp [*]

theorem eq_duplicateAlias_iff {a : String} : answer = .error (.duplicateAlias a) ↔
    g.root ≠ none ∧ e.aliasName ∈ g.aliases ∧ a = e.aliasName := by
  cases h <;> simp [*, eq_comm]

theorem eq_unknownAlias_iff {a : String} {known : List String} :
    answer = .error (.unknownAlias a known) ↔ g.root ≠ none ∧ e.aliasName ∉ g.aliases ∧
      e.parentAlias ∉ g.aliases ∧ a = e.parentAlias ∧ known = g.aliases := by
  cases h <;> simp [*, eq_comm]

theorem eq_columnClash_iff {c a o : String} : answer = .error (.columnClash c a o) ↔
    g.root ≠ none ∧ e.aliasName ∉ g.aliases ∧ e.parentAlias ∈ g.aliases ∧ a = e.aliasName ∧
      g.columnClash? e.child.table = some (c, o) := by
  cases h <;> simp [*, eq_comm, and_left_comm]

theorem isOk_iff : (∃ g', answer = .ok g') ↔
    g.root ≠ none ∧ e.aliasName ∉ g.aliases ∧ e.parentAlias ∈ g.aliases ∧
      g.columnClash? e.child.table = none := by
  cases h <;> simp [*]

theorem fault_eq {f : Fault} (hf : answer = .error f) : f = .noRoot ∨
    f = .duplicateAlias e.aliasName ∨ f = .unknownAlias e.parentAlias g.aliases ∨
      ∃ c o, f = .columnClash c e.aliasName o := by
  cases h <;> cases hf <;> simp

theorem exists_fault_of_self (hself : e.parentAlias = e.aliasName) : ∃ f, answer = .error f := by
  cases h with
  | accepted hr ha hp hc => exact absurd (hself ▸ hp) ha
  | _ => exact ⟨_, rfl⟩

end Verdict

/-- A coherent graph refuses an edge for the first of four reasons, or takes it. -/
theorem Coherent.judges (h : g.Coherent) (e : Edge) : g.Judges e where
  noRoot := (g.verdict e).eq_noRoot_iff
  root_taken r hr := by
    rw [h.aliases_eq_root_append, hr]
    exact List.mem_cons_self
  duplicateAlias _ := (g.verdict e).eq_duplicateAlias_iff
  unknownAlias _ _ := (g.verdict e).eq_unknownAlias_iff
  columnClash c a o := by
    rw [← h.columnClash?_eq_some_iff]
    exact (g.verdict e).eq_columnClash_iff
  accepted := by
    rw [not_produces_iff]
    exact (g.verdict e).isOk_iff
  faults _ := (g.verdict e).fault_eq
  self_refused := (g.verdict e).exists_fault_of_self
  extends_tree g' hg' := by
    obtain ⟨-, hnew, -, -, rfl⟩ := addEdge_eq_ok_iff.1 hg'
    exact ⟨rfl, Coherent.vertices_fileEdge hnew, h.edges_fileEdge hnew, edgesInto_fileEdge g e⟩

end Graph

/-! ## Refused joins -/

namespace Session

variable {s t : Session}

/-- Two sessions of one source hold the same builders, numbers apart. -/
structure Alike (s t : Session) : Prop where
  source_eq : s.schema.uncached = t.schema.uncached
  builder_eq : ∀ name,
    (s.builder? name).map Builder.unnumbered = (t.builder? name).map Builder.unnumbered

namespace Alike

/-- A request does the same to sessions that are alike, and is answered alike. -/
theorem serve (h : s.Alike t) (hs : s.Settled) (ht : t.Settled) (r : Request) :
    (s.serve r).1 = (t.serve r).1 ∧ (s.serve r).2.Alike (t.serve r).2 := by
  refine ⟨hs.serve_fst_eq ht h.source_eq (h.builder_eq r.name), ?_, ?_⟩
  · rw [(hs.serve r).2, (ht.serve r).2, h.source_eq]
  · intro name
    have hbuilder := h.builder_eq r.name
    cases hb : s.builder? r.name with
    | none =>
      rw [hb, Option.map_none] at hbuilder
      rw [serve_of_none hb, serve_of_none (Option.map_eq_none_iff.1 hbuilder.symm)]
      exact h.builder_eq name
    | some b =>
      rw [hb, Option.map_some] at hbuilder
      obtain ⟨c, hc, hsame⟩ := Option.map_eq_some_iff.1 hbuilder.symm
      rw [hs.builder?_serve hb, ht.builder?_serve hc, hsame,
        Demand.leaves_congr h.source_eq, h.builder_eq name]

theorem serveAll (h : s.Alike t) (hs : s.Settled) (ht : t.Settled) (rs : List Request) :
    (s.serveAll rs).Alike (t.serveAll rs) := by
  induction rs generalizing s t with
  | nil => exact h
  | cons r rs ih => exact ih (h.serve hs ht r).2 (hs.serve r).1 (ht.serve r).1

end Alike

/-- A session holds the builders that another one held, and answers whatever is asked of them
later on as the other one would have. -/
structure AsBefore (s s' : Session) : Prop where
  builders : ∀ name, s'.builder? name = s.builder? name
  answers : ∀ rs r, ((s'.serveAll rs).serve r).1 = ((s.serveAll rs).serve r).1

theorem Settled.asBefore {s' : Session} (h : s.Settled) (h' : s'.Settled)
    (hsource : s'.schema.uncached = s.schema.uncached)
    (hbuilders : ∀ name, s'.builder? name = s.builder? name) : s.AsBefore s' where
  builders := hbuilders
  answers rs r := by
    have halike : s'.Alike s := ⟨hsource, fun name => by rw [hbuilders name]⟩
    exact ((halike.serveAll h' h rs).serve (h'.serveAll rs).1 (h.serveAll rs).1 r).1

/-- A join that is refused, for whatever reason, leaves the session as before. -/
theorem Settled.asBefore_of_refused (h : s.Settled) {name : String} {many : Bool}
    {subject : Subject} {container : Option String} {aliasName parentAlias : String}
    {spec : JoinSpec} {f : Fault} {s' : Session}
    (hserve : s.serve ⟨name, .join many subject container aliasName parentAlias spec⟩ =
      (some (.changed (.error f)), s')) : s.AsBefore s' := by
  have hafter := h.serve ⟨name, .join many subject container aliasName parentAlias spec⟩
  rw [hserve] at hafter
  refine h.asBefore hafter.1 hafter.2 fun name' => ?_
  cases hb : s.builder? name with
  | none =>
    rw [serve_of_none hb] at hserve
    cases hserve
  | some b =>
    rw [serve_of_some hb] at hserve
    obtain ⟨hreply, rfl⟩ := Prod.mk.inj hserve
    have hjoined :=
      (join_spec h.faithful hb subject container aliasName parentAlias (specOf many spec)).2 name'
    -- the answer is the fault, so that the old builder is written back
    cases hanswer :
        (s.join name b subject container aliasName parentAlias (specOf many spec)).1 with
    | ok b' =>
      simp only [meet, hanswer, Except.map] at hreply
      cases hreply
    | error f' =>
      rw [hanswer] at hjoined
      exact hjoined.trans (builder?_eq_ite hb name').symm

/-- Whatever calls were made before: a graph judges every edge by the same four questions, and an
edge that it refuses leaves the workspace as it was; so does a builder's graph, and a join that
is refused leaves every builder and every later answer as if it had not been asked for. -/
theorem refusals (schema : Schema) (hs : schema.Faithful) (cs : List Command)
    (ws : List Workspace.Command) :
    let s := (ofSchema schema).obeyAll cs
    let w := Workspace.empty.run ws
    (∀ name g, w.graphs.get? name = some g → ∀ e, g.Judges e ∧
      ∀ f, g.addEdge e = .error f →
        w.insertEdge name e = .error f ∧ w.obey (.addEdge name e) = w) ∧
    ∀ name b, s.builder? name = some b → (∀ e, b.graph.Judges e) ∧
      ∀ many subject container aliasName parentAlias spec f s',
        s.serve ⟨name, .join many subject container aliasName parentAlias spec⟩ =
          (some (.changed (.error f)), s') → s.AsBefore s' := by
  intro s w
  have hsettled : s.Settled := Settled.obeyAll ⟨Grown.ofSchema schema, hs⟩ cs
  refine ⟨fun name g hg e => ⟨(Workspace.Coherent.empty.run ws name g hg).judges e, ?_⟩, ?_⟩
  · intro f hf
    have hinsert : w.insertEdge name e = .error f := by
      rw [Workspace.insertEdge, Workspace.graph, hg]
      show (g.addEdge e >>= _) = _
      rw [hf]
      rfl
    refine ⟨hinsert, ?_⟩
    rw [Workspace.obey, Workspace.perform, hinsert]
  · intro name b hb
    refine ⟨(hsettled.grown name b hb).1.coherent.judges, ?_⟩
    intro many subject container aliasName parentAlias spec f s' hserve
    exact hsettled.asBefore_of_refused hserve

/-- A second table under the alias of the root is refused. -/
theorem refusals_taken : petSchema.Faithful ∧
    (petSession.serve (joinPets "m" "p")).1 = some (.changed (.error (.duplicateAlias "p"))) ∧
    petSession.AsBefore (petSession.serve (joinPets "m" "p")).2 := by
  have hs : petSchema.Faithful := by
    intro i db hsource
    cases hsource
    exact Inspector.faithful_clear (.ofNamespace none) _
  have hrefusals := (refusals petSchema hs [.select "m" (.named "person") "p" false] []).2 "m" _ rfl
  exact ⟨hs, rfl, hrefusals.2 true (.named "pet") (some "pets") "p" "p"
    { kind := .ok .multiple, on := [(.str "person_id", .str "id")] } (.duplicateAlias "p") _ rfl⟩

end Session

end NestedJoin
