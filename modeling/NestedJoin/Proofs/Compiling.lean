import NestedJoin.Proofs.GraphTree
set_option autoImplicit false

/-!
# Which graphs compile

An edge is made for a parent table of its own, and its join columns are fields of this table.  A
graph takes an edge for the parent's alias alone, and when it compiles, it looks the parent's
columns up in the table that it has under this alias.  That may be another table with other
fields.  The first column that it lacks is then the fault; nothing else is.

Main statement: `Workspace.compiles_iff_offers`.
-/

namespace NestedJoin

open Sql

/-- The condition of an edge's join, whose parent columns are fields of its own parent. -/
def Edge.matching (params : OrderedMap String Value) (e : Edge) : OnClause where
  pairs := e.on.entries.map fun p => (⟨e.aliasName, p.1⟩, ⟨e.parentAlias, p.2⟩)
  extra := (extraText? e.condition).map (BoundText.bind params)

namespace Graph

/-! ## What a graph reads from -/

/-- A root joined with edges one by one. -/
def joined (params : OrderedMap String Value) (root : Vertex) (es : List Edge) : Source OnClause :=
  es.foldl (fun acc e => joinLeaf acc (leaf e.child) e.joinType (e.matching params)) (leaf root)

theorem joined_concat (params : OrderedMap String Value) (root : Vertex) (es : List Edge)
    (e : Edge) : joined params root (es ++ [e]) =
      joinLeaf (joined params root es) (leaf e.child) e.joinType (e.matching params) := by
  rw [joined, List.foldl_append]
  rfl

variable {g : Graph} {params : OrderedMap String Value} {root : Vertex}

/-! ## Parent columns -/

/-- The graph's own table of an edge's parent has the parent column of a pair. -/
def Offers (g : Graph) (e : Edge) (p : String × String) : Prop :=
  ∃ own, g.find? e.parentAlias = some own ∧ p.2 ∈ own.table.fields

/-- The pairs of join columns of some edges in their order, each with its edge. -/
def joinPairs (es : List Edge) : List (Edge × String × String) :=
  es.flatMap fun e => e.on.entries.map fun p => (e, p)

theorem mem_joinPairs_iff {es : List Edge} {e : Edge} {p : String × String} :
    (e, p) ∈ joinPairs es ↔ e ∈ es ∧ p ∈ e.on.entries := by
  simp [joinPairs]

/-- Whether the parent column of an edge's pair is missing in the graph's own table. -/
def isLost (g : Graph) (q : Edge × String × String) : Bool :=
  decide (q.2.2 ∉ ((g.find? q.1.parentAlias).map fun v => v.table.fields).getD [])

theorem isLost_eq_true_iff {q : Edge × String × String} :
    g.isLost q = true ↔ ¬g.Offers q.1 q.2 := by
  cases h : g.find? q.1.parentAlias <;> simp [isLost, Offers, h]

theorem isLost_eq_false_iff {q : Edge × String × String} :
    g.isLost q = false ↔ g.Offers q.1 q.2 := by
  rw [← Bool.not_eq_true, isLost_eq_true_iff, not_not]

/-- No column is missing exactly if the graph's own tables have all parent columns. -/
theorem find?_isLost_eq_none_iff {es : List Edge} : (joinPairs es).find? g.isLost = none ↔
    ∀ e ∈ es, ∀ p ∈ e.on.entries, g.Offers e p := by
  rw [List.find?_eq_none]
  constructor
  · intro h e he p hp
    exact isLost_eq_false_iff.1 (eq_false_of_ne_true (h (e, p) (mem_joinPairs_iff.2 ⟨he, hp⟩)))
  · rintro h ⟨e, p⟩ hq hlost
    obtain ⟨he, hp⟩ := mem_joinPairs_iff.1 hq
    exact isLost_eq_true_iff.1 hlost (h e he p hp)

/-- The first missing column of an edge is the fault of its condition. -/
theorem onClause_eq (g : Graph) (params : OrderedMap String Value) (e : Edge) :
    g.onClause params e =
      match e.on.entries.find? fun p => g.isLost (e, p) with
      | some p => .error (.missingKey (.str p.2))
      | none => .ok (e.matching params) := rfl

/-- The first missing column of all edges is the fault of what a graph reads from. -/
theorem source_eq (g : Graph) (params : OrderedMap String Value) (root : Vertex) :
    g.source params root =
      match (joinPairs g.edges).find? g.isLost with
      | some q => .error (.missingKey (.str q.2.2))
      | none => .ok (joined params root g.edges) := by
  rw [source, joined]
  generalize leaf root = acc
  induction g.edges generalizing acc with
  | nil => rfl
  | cons e es ih =>
    have hpairs : joinPairs (e :: es) = (e.on.entries.map fun p => (e, p)) ++ joinPairs es := rfl
    have hown : (e.on.entries.map fun p => (e, p)).find? g.isLost =
        (e.on.entries.find? fun p => g.isLost (e, p)).map fun p => (e, p) := List.find?_map
    rw [List.foldlM_cons, hpairs, List.find?_append, hown, onClause_eq]
    cases e.on.entries.find? fun p => g.isLost (e, p) with
    | none => exact ih _
    | some p => rfl

/-! ## Outcomes -/

/-- A compiled graph with a statement. -/
def compiledAs (g : Graph) (s : Statement) : Compiled where
  statement := s
  params := (Parameters.ofEdges g.edges).values
  columns := g.outputColumns.map (·.label)

/-- A graph with a root compiles as its statement does. -/
theorem outcome_compile_eq_map (hroot : g.root = some root) (filters : List Filter)
    (chains : KeyChains) : (g.compile filters chains).outcome =
      (g.statement root (Parameters.ofEdges g.edges).values filters).map g.compiledAs := by
  have hprepare : ∃ prepared, g.prepare chains = .ok prepared := by
    rw [prepare, hroot]
    exact ⟨_, rfl⟩
  obtain ⟨prepared, hprepare⟩ := hprepare
  simp only [compile, hroot, hprepare]
  rfl

/-- Without filters compiling fails by the first missing column, or not at all. -/
theorem outcome_compile_nil (hroot : g.root = some root) (chains : KeyChains) :
    (g.compile [] chains).outcome =
      match (joinPairs g.edges).find? g.isLost with
      | some q => .error (.missingKey (.str q.2.2))
      | none => .ok (g.compiledAs
        { columns := g.outputColumns
          source := joined (Parameters.ofEdges g.edges).values root g.edges }) := by
  rw [outcome_compile_eq_map hroot, statement, source_eq]
  cases (joinPairs g.edges).find? g.isLost <;> rfl

/-- A graph compiles exactly if no parent column is missing. -/
theorem exists_outcome_compile_iff (hroot : g.root = some root) (chains : KeyChains) :
    (∃ c, (g.compile [] chains).outcome = .ok c) ↔
      ∀ e ∈ g.edges, ∀ p ∈ e.on.entries, g.Offers e p := by
  rw [outcome_compile_nil hroot, ← find?_isLost_eq_none_iff]
  cases (joinPairs g.edges).find? g.isLost with
  | none => exact ⟨fun _ => rfl, fun _ => ⟨_, rfl⟩⟩
  | some q =>
    constructor
    · rintro ⟨c, hc⟩
      cases hc
    · intro h
      cases h

/-- A graph that does not compile lacks a parent column, and the first one is its fault. -/
theorem outcome_compile_eq_error_iff (hroot : g.root = some root) (chains : KeyChains)
    {f : Fault} : (g.compile [] chains).outcome = .error f ↔
      ∃ before q after, joinPairs g.edges = before ++ q :: after ∧
        (∀ r ∈ before, g.Offers r.1 r.2) ∧ ¬g.Offers q.1 q.2 ∧ f = .missingKey (.str q.2.2) := by
  have hfind : ∀ q, (joinPairs g.edges).find? g.isLost = some q ↔
      ∃ before after, joinPairs g.edges = before ++ q :: after ∧
        (∀ r ∈ before, g.Offers r.1 r.2) ∧ ¬g.Offers q.1 q.2 := by
    intro q
    simp only [List.find?_eq_some_iff_append, Bool.not_eq_true', isLost_eq_true_iff,
      isLost_eq_false_iff]
    constructor
    · rintro ⟨hlost, before, after, hs, hbefore⟩
      exact ⟨before, after, hs, hbefore, hlost⟩
    · rintro ⟨before, after, hs, hbefore, hlost⟩
      exact ⟨hlost, before, after, hs, hbefore⟩
  rw [outcome_compile_nil hroot]
  constructor
  · intro h
    cases hq : (joinPairs g.edges).find? g.isLost with
    | none =>
      rw [hq] at h
      cases h
    | some q =>
      rw [hq] at h
      obtain ⟨before, after, hs, hbefore, hlost⟩ := (hfind q).1 hq
      exact ⟨before, q, after, hs, hbefore, hlost, (Except.error.inj h).symm⟩
  · rintro ⟨before, q, after, hs, hbefore, hlost, rfl⟩
    rw [(hfind q).2 ⟨before, after, hs, hbefore, hlost⟩]

end Graph

namespace Workspace

/-- Whatever calls are made, of which only the accepted ones count: in a graph with a root every
edge finds its own join columns in the graph's table of its alias, and a table of its parent's
alias.  Without filters the graph compiles exactly if this table has the parent columns of all
edges.  It has them if it has the fields of the edge's own parent, as it does if it is this parent.
Otherwise the first parent column that is missing, in the order of the edges and of their pairs, is
what compiling fails by. -/
theorem compiles_iff_offers (cs : List Command) {name : String} {g : Graph}
    (hg : (Workspace.empty.run cs).graphs.get? name = some g) {root : Vertex}
    (hroot : g.root = some root) (chains : KeyChains) :
    (∀ e ∈ g.edges, g.find? e.aliasName = some e.child ∧
      (∀ p ∈ e.on.entries, p.1 ∈ e.child.table.fields) ∧
        ∃ own, g.find? e.parentAlias = some own) ∧
    ((∃ c, (g.compile [] chains).outcome = .ok c) ↔
      ∀ e ∈ g.edges, ∀ p ∈ e.on.entries, g.Offers e p) ∧
    ((∀ e ∈ g.edges, ∀ own, g.find? e.parentAlias = some own →
      e.parent.table.fields ⊆ own.table.fields) → ∃ c, (g.compile [] chains).outcome = .ok c) ∧
    ∀ f, (g.compile [] chains).outcome = .error f ↔
      ∃ before q after, Graph.joinPairs g.edges = before ++ q :: after ∧
        (∀ r ∈ before, g.Offers r.1 r.2) ∧ ¬g.Offers q.1 q.2 ∧ f = .missingKey (.str q.2.2) := by
  have h := Coherent.empty.run cs name g hg
  have hparent : ∀ e ∈ g.edges, ∃ own, g.find? e.parentAlias = some own := by
    intro e he
    have ha := h.parent_mem_aliases he
    rw [h.aliases_eq] at ha
    obtain ⟨own, hown, ha⟩ := List.mem_map.1 ha
    exact ⟨own, ha ▸ h.find?_eq_some hown⟩
  refine ⟨?_, Graph.exists_outcome_compile_iff hroot chains, ?_, ?_⟩
  · exact fun e he => ⟨h.find?_eq_some (h.child_mem he), e.child_mem, hparent e he⟩
  · intro hfields
    refine (Graph.exists_outcome_compile_iff hroot chains).2 fun e he p hp => ?_
    obtain ⟨own, hown⟩ := hparent e he
    exact ⟨own, hown, hfields e he own hown (e.parent_mem p hp)⟩
  · exact fun f => Graph.outcome_compile_eq_error_iff hroot chains

/-! ### An edge from another table of the parent's alias -/

/-- An edge from a table with a field that the graph's own table of its alias lacks. -/
def strayEdge : Edge :=
  { sampleEdge (sampleVertex "order" "buyer" (by decide) (by decide))
      (sampleVertex "shop" "owner" (by decide) (by decide)) "order" rfl (by decide) (by decide) with
    on := .ofList [("id", "id"), ("buyer", "owner")]
    on_ne_nil := by decide
    child_mem := by decide
    parent_mem := by decide }

def strayCommands : List Command :=
  [.start "g" (some (sampleVertex "shop" "city" (by decide) (by decide))), .addEdge "g" strayEdge]

def strayGraph : Graph := ((Workspace.empty.run strayCommands).graphs.get? "g").getD .empty

theorem compiles_iff_offers_stray :
    strayGraph.edges = [strayEdge] ∧
      (strayGraph.compile [] .empty).outcome = .error (.missingKey (.str "owner")) := by
  have hg : (Workspace.empty.run strayCommands).graphs.get? "g" = some strayGraph := rfl
  have hroot : strayGraph.root = some (sampleVertex "shop" "city" (by decide) (by decide)) := rfl
  obtain ⟨-, -, -, hfault⟩ := compiles_iff_offers strayCommands hg hroot .empty
  refine ⟨rfl, (hfault _).2 ?_⟩
  refine ⟨[(strayEdge, "id", "id")], (strayEdge, "buyer", "owner"), [], rfl, ?_, ?_, rfl⟩
  · intro r hr
    rw [List.mem_singleton.1 hr]
    exact ⟨_, rfl, by decide⟩
  · rintro ⟨own, hown, howner⟩
    cases hown
    revert howner
    decide

end Workspace

end NestedJoin
