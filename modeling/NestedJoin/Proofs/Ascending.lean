import NestedJoin.Proofs.Preparing
set_option autoImplicit false

/-!
# The way up from an alias

To find the root from an alias, one asks round by round which edge joins the alias found last and
goes on with the alias that the edge leads from.  Nothing but the graph bounds the rounds: an edge
leads from an older alias, so they come to an end.  What they find is the one path from the root,
backwards.  A graph that grows keeps this path, and with it the key chain along it.

Main statements: `Graph.Coherent.isWayDown`, which says what the rounds find, and
`Workspace.chains_settled`.
-/

namespace NestedJoin

namespace Graph

/-! ## Rounds -/

/-- One round: the alias that the last one was joined onto is put at the end.  The root was joined
onto none. -/
def rise (g : Graph) (trail : List String) : Option (List String) :=
  trail.getLast?.bind fun a => (g.edge? a).map fun e => trail ++ [e.parentAlias]

/-- As many rounds as can be made lead from one trail to another.  Rounds without an end lead
nowhere. -/
inductive Rises (g : Graph) : Nat → List String → List String → Prop
  | stop {trail : List String} (h : g.rise trail = none) : Rises g 0 trail trail
  | round {n : Nat} {trail next top : List String} (h : g.rise trail = some next)
    (hrest : Rises g n next top) : Rises g (n + 1) trail top

variable {g : Graph}

theorem rise_concat (trail : List String) (a : String) :
    g.rise (trail ++ [a]) = (g.edge? a).map fun e => trail ++ [a] ++ [e.parentAlias] := by
  rw [rise, List.getLast?_concat, Option.bind_some]

/-- The rounds from a trail have one end. -/
theorem Rises.unique {n m : Nat} {trail top top' : List String} (h : g.Rises n trail top)
    (h' : g.Rises m trail top') : n = m ∧ top = top' := by
  induction h generalizing m with
  | stop hnone =>
    cases h' with
    | stop _ => exact ⟨rfl, rfl⟩
    | round hnext _ =>
      rw [hnone] at hnext
      cases hnext
  | round hnext _ ih =>
    cases h' with
    | stop hnone =>
      rw [hnext] at hnone
      cases hnone
    | round hnext' hrest' =>
      rw [hnext] at hnext'
      obtain rfl := Option.some.inj hnext'
      obtain ⟨rfl, rfl⟩ := ih hrest'
      exact ⟨rfl, rfl⟩

/-! ## What the rounds find -/

/-- A chain of aliases is the way down from the root to one. -/
structure IsWayDown (g : Graph) (a : String) (chain : List String) : Prop where
  /-- the rounds from the alias come to an end, and then they have found the chain backwards -/
  rises_iff : ∀ n top, g.Rises n [a] top ↔ n + 1 = chain.length ∧ top = chain.reverse
  /-- the chain follows the one path of edges from the root to the alias -/
  path : ∃ r p, g.root = some r ∧ chain = r.aliasName :: p.map Edge.aliasName ∧ g.Path p a ∧
    ∀ q, g.Path q a → q = p
  /-- each alias was added to the graph after those above it -/
  increasing : chain.Pairwise fun b c => g.aliases.idxOf b < g.aliases.idxOf c
  /-- no alias is there twice -/
  nodup : chain.Nodup

theorem Path.exists_root {p : List Edge} {a : String} (hp : g.Path p a) :
    ∃ r, g.root = some r := by
  induction hp with
  | root hr => exact ⟨_, hr⟩
  | step _ _ ih => exact ih

namespace Coherent

variable {a : String}

theorem edge?_root (h : g.Coherent) {r : Vertex} (hr : g.root = some r) :
    g.edge? r.aliasName = none := by
  rw [Option.eq_none_iff_forall_ne_some]
  intro e he
  exact h.root_ne_edge hr (OrderedMap.mem_values_of_get? he) (h.aliasName_of_edge? he)

theorem edge?_of_mem (h : g.Coherent) {e : Edge} (he : e ∈ g.edges) :
    g.edge? e.aliasName = some e :=
  (h.edge?_eq_some_iff (h.child_mem he)).2 ⟨he, rfl⟩

/-- The way down follows the path. -/
theorem climb_path (h : g.Coherent) {r : Vertex} (hr : g.root = some r) {p : List Edge}
    (hp : g.Path p a) : climb g.edges.reverse a = r.aliasName :: p.map Edge.aliasName := by
  induction hp with
  | root hr' =>
    obtain rfl := Option.some.inj (hr.symm.trans hr')
    exact h.climb_root hr
  | step _ he ih => rw [h.climb_edge he, ih, List.map_append, List.cons_append, List.map_singleton]

/-- From an alias there is a round for every edge of the path to it.  Induction on the path, whose
last edge is the one that the first round asks for; the trail so far stays in front. -/
theorem rises_climb (h : g.Coherent) {p : List Edge} (hp : g.Path p a) (trail : List String) :
    g.Rises p.length (trail ++ [a]) (trail ++ (climb g.edges.reverse a).reverse) := by
  induction hp generalizing trail with
  | root hr =>
    rw [h.climb_root hr]
    refine .stop ?_
    rw [rise_concat, h.edge?_root hr, Option.map_none]
  | @step p e _ he ih =>
    have hnext : g.rise (trail ++ [e.aliasName]) =
        some (trail ++ [e.aliasName] ++ [e.parentAlias]) := by
      rw [rise_concat, h.edge?_of_mem he, Option.map_some]
    rw [List.length_append, List.length_singleton, h.climb_edge he, List.reverse_concat,
      List.append_cons trail e.aliasName (List.reverse _)]
    exact .round hnext (ih (trail ++ [e.aliasName]))

/-- The way down leads from older aliases to younger ones. -/
theorem pairwise_climb (h : g.Coherent) (ha : a ∈ g.aliases) :
    (climb g.edges.reverse a).Pairwise fun b c => g.aliases.idxOf b < g.aliases.idxOf c := by
  obtain ⟨p, hp⟩ := h.exists_path ha
  induction hp with
  | root hr =>
    rw [h.climb_root hr]
    exact List.pairwise_singleton _ _
  | step _ he ih =>
    have hparent := h.parent_mem_aliases he
    rw [h.climb_edge he, List.pairwise_append]
    refine ⟨ih hparent, List.pairwise_singleton _ _, fun b hb c hc => ?_⟩
    rw [List.mem_singleton.1 hc]
    exact Nat.lt_of_le_of_lt (h.idxOf_le_of_mem_climb hparent hb)
      (h.isRootedTree.parent_first _ he)

theorem isWayDown (h : g.Coherent) (ha : a ∈ g.aliases) :
    g.IsWayDown a (climb g.edges.reverse a) := by
  obtain ⟨p, hp⟩ := h.exists_path ha
  obtain ⟨r, hr⟩ := hp.exists_root
  have hchain := h.climb_path hr hp
  have hrises : g.Rises p.length [a] (climb g.edges.reverse a).reverse := h.rises_climb hp []
  have hlength : p.length + 1 = (climb g.edges.reverse a).length := by
    rw [hchain, List.length_cons, List.length_map]
  have hincreasing := h.pairwise_climb ha
  refine ⟨fun n top => ⟨fun hn => ?_, ?_⟩, ?_, hincreasing, ?_⟩
  · obtain ⟨rfl, rfl⟩ := hn.unique hrises
    exact ⟨hlength, rfl⟩
  · rintro ⟨hn, rfl⟩
    obtain rfl : n = p.length := Nat.succ.inj (hn.trans hlength.symm)
    exact hrises
  · exact ⟨r, p, hr, hchain, hp, fun q hq => h.path_unique hq hp⟩
  · exact hincreasing.imp fun hlt hq => Nat.ne_of_lt hlt (congrArg g.aliases.idxOf hq)

/-! ## Chains by alias -/

theorem exists_find? (ha : a ∈ g.aliases) : ∃ v, g.find? a = some v :=
  Option.isSome_iff_exists.1 (OrderedMap.contains_iff_mem_keys.2 ha)

/-- Asking a graph for the chain of one of its aliases gives the way down. -/
theorem aliasChain_eq (h : g.Coherent) (ha : a ∈ g.aliases) :
    g.aliasChain a = .ok (climb g.edges.reverse a) := by
  obtain ⟨v, hv⟩ := exists_find? ha
  rw [aliasChain, byAlias_eq_ok_iff.2 hv, ← h.aliasName_of_find? hv]
  rfl

theorem keyChain_eq_flatMap (h : g.Coherent) (ha : a ∈ g.aliases) :
    g.keyChain a = .ok ((climb g.edges.reverse a).flatMap g.keyColumnsOf) := by
  rw [keyChain, h.aliasChain_eq ha]
  rfl

end Coherent

/-! ## Growing -/

/-- A graph has the aliases of another one and gives them the same chains. -/
def GrowsInto (g g' : Graph) : Prop :=
  ∀ a ∈ g.aliases, a ∈ g'.aliases ∧ g'.aliasChain a = g.aliasChain a ∧
    g'.keyChain a = g.keyChain a

theorem GrowsInto.refl (g : Graph) : g.GrowsInto g := fun _ ha => ⟨ha, rfl, rfl⟩

theorem GrowsInto.trans {g' g'' : Graph} (h : g.GrowsInto g') (h' : g'.GrowsInto g'') :
    g.GrowsInto g'' := by
  intro a ha
  obtain ⟨ha', halias, hkeys⟩ := h a ha
  obtain ⟨ha'', halias', hkeys'⟩ := h' a ha'
  exact ⟨ha'', halias'.trans halias, hkeys'.trans hkeys⟩

/-- An accepted edge leaves all chains as they are. -/
theorem Coherent.growsInto_addEdge (h : g.Coherent) {g' : Graph} {e : Edge}
    (ha : g.addEdge e = .ok g') : g.GrowsInto g' := by
  intro a hm
  have h' := h.addEdge ha
  have hm' : a ∈ g'.aliases := by
    obtain ⟨-, hnew, -, -, rfl⟩ := addEdge_eq_ok_iff.1 ha
    rw [h'.aliases_eq, Coherent.vertices_fileEdge hnew, List.map_append, ← h.aliases_eq]
    exact List.mem_append_left _ hm
  refine ⟨hm', ?_, ?_⟩
  · rw [h'.aliasChain_eq hm', h.aliasChain_eq hm, h.climb_addEdge ha hm]
  · rw [h'.keyChain_eq_flatMap hm', h.keyChain_eq_flatMap hm, h.climb_addEdge ha hm,
      h.flatMap_keyColumnsOf_addEdge ha hm]

end Graph

namespace Workspace

open NestedJoin.Graph

/-- Calls that keep a graph with a root let it grow at most. -/
theorem exists_graph_run {w : Workspace} {name : String} {g : Graph} {cs : List Command}
    (hg : w.graphs.get? name = some g) (h : g.Coherent) (hr : g.root.isSome = true)
    (hcs : ∀ c ∈ cs, c.Keeps name) :
    ∃ g', (w.run cs).graphs.get? name = some g' ∧ g'.Coherent ∧ g.GrowsInto g' := by
  induction cs generalizing w g with
  | nil => exact ⟨g, hg, h, .refl g⟩
  | cons c cs ih =>
    have hlater : ∀ d ∈ cs, d.Keeps name := fun d hd => hcs d (List.mem_cons_of_mem c hd)
    obtain ⟨g₁, hg₁, rfl | ⟨e, -, ha⟩⟩ := exists_graph_obey hg hr (hcs c List.mem_cons_self)
    · exact ih hg₁ h hr hlater
    · have hr₁ : g₁.root.isSome = true := by
        obtain ⟨hroot, -, -, -, rfl⟩ := addEdge_eq_ok_iff.1 ha
        exact hroot
      obtain ⟨g', hg', h', hgrows⟩ := ih hg₁ (h.addEdge ha) hr₁ hlater
      exact ⟨g', hg', h', (h.growsInto_addEdge ha).trans hgrows⟩

/-- For every graph that calls have made and every alias in it: the rounds from the alias come to an
end, and the chain of the alias is what they find, the way down from the root.  The key chain of a
joined alias is that of the alias it was joined onto and then the key columns of its own table; the
root's are its own.  Wherever the graph stands, both chains are the same after any further calls, be
they accepted or not, as long as no other graph is put in its place. -/
theorem chains_settled {g : Graph} (hg : g.Made) {a : String} {v : Vertex}
    (hv : g.find? a = some v) :
    ∃ chain keys, g.aliasChain a = .ok chain ∧ g.IsWayDown a chain ∧ g.keyChain a = .ok keys ∧
      (∀ e, g.edge? a = some e →
        ∃ above, g.keyChain e.parentAlias = .ok above ∧ keys = above ++ v.table.keyColumns) ∧
      (g.edge? a = none → keys = v.table.keyColumns) ∧
      ∀ (w : Workspace) (name : String), w.graphs.get? name = some g →
        ∀ cs : List Command, (∀ c ∈ cs, c.Keeps name) →
          ∃ g', (w.run cs).graphs.get? name = some g' ∧ g'.aliasChain a = .ok chain ∧
            g'.IsWayDown a chain ∧ g'.keyChain a = .ok keys := by
  have h := hg.coherent
  obtain rfl := h.aliasName_of_find? hv
  have hmem : v ∈ g.vertices := OrderedMap.mem_values_of_get? hv
  have ha := h.alias_mem hmem
  have hchain := h.aliasChain_eq ha
  have hkeys := h.keyChain_eq_flatMap ha
  obtain ⟨p, hp⟩ := h.exists_path ha
  obtain ⟨r, hr⟩ := hp.exists_root
  refine ⟨_, _, hchain, h.isWayDown ha, hkeys, ?_, ?_, ?_⟩
  · intro e he
    obtain ⟨hedge, rfl⟩ := (h.edge?_eq_some_iff hmem).1 he
    exact ⟨_, h.keyChain_eq_flatMap (h.parent_mem_aliases hedge), h.flatMap_climb_edge hedge⟩
  · intro hnone
    refine h.flatMap_climb_root ((h.root_or_child hmem).resolve_right ?_)
    rintro ⟨e, he, rfl⟩
    have hsome : g.edge? e.child.aliasName = some e := h.edge?_of_mem he
    rw [hnone] at hsome
    cases hsome
  · intro w name hw cs hcs
    have hsome : g.root.isSome = true := by rw [hr]; rfl
    obtain ⟨g', hg', h', hgrows⟩ := exists_graph_run hw h hsome hcs
    obtain ⟨ha', halias, hkeys'⟩ := hgrows _ ha
    have hsame := (h'.aliasChain_eq ha').symm.trans (halias.trans hchain)
    refine ⟨g', hg', halias.trans hchain, ?_, hkeys'.trans hkeys⟩
    rw [← Except.ok.inj hsame]
    exact h'.isWayDown ha'

/-! ### A graph of three tables that a fourth is added to -/

def deepGraph : Graph :=
  ((Workspace.empty.run (pairCommands ++ copyCommands)).graphs.get? "h").getD .empty

def latestVertex : Vertex := { sampleVertex "x" "m" (by decide) (by decide) with serial := 3 }

theorem id_mem_lowestVertex : "id" ∈ lowestVertex.table.fields := by decide

/-- Calls on the graph: it has its root, it takes a fourth table, it has that table, and it works
out its key chains. -/
def laterCommands : List Command :=
  let e : Edge := sampleEdge latestVertex lowestVertex "x" rfl (by decide) id_mem_lowestVertex
  [.addRoot "h" lowerVertex, .addEdge "h" e, .addEdge "h" e, .prepare "h"]

theorem chains_settled_deep :
    deepGraph.aliasChain "w" = .ok ["u", "v", "w"] ∧
    deepGraph.Rises 2 ["w"] ["w", "v", "u"] ∧
    ∃ g', ((Workspace.empty.run (pairCommands ++ copyCommands)).run laterCommands).graphs.get?
        "h" = some g' ∧
      g'.aliases = ["u", "v", "w", "x"] ∧ g'.aliasChain "w" = .ok ["u", "v", "w"] ∧
      g'.keyChain "w" = .ok ["u_id", "v_id", "w_id"] := by
  have hg : (Workspace.empty.run (pairCommands ++ copyCommands)).graphs.get? "h" =
      some deepGraph := rfl
  have hv : deepGraph.find? "w" = some lowestVertex := rfl
  have hkeeps : ∀ c ∈ laterCommands, c.Keeps "h" := by
    simp [laterCommands, Command.Keeps]
  obtain ⟨chain, keys, hchain, hway, hkeys, -, -, hlater⟩ :=
    chains_settled (.inWorkspace (pairCommands ++ copyCommands) hg) hv
  obtain rfl : ["u", "v", "w"] = chain := Except.ok.inj hchain
  obtain rfl : ["u_id", "v_id", "w_id"] = keys := Except.ok.inj hkeys
  obtain ⟨g', hg', hchain', -, hkeys'⟩ := hlater _ "h" hg laterCommands hkeeps
  have haliases : g'.aliases = ["u", "v", "w", "x"] := by
    obtain rfl := Option.some.inj hg'
    decide
  exact ⟨hchain, (hway.rises_iff 2 _).2 ⟨rfl, rfl⟩, g', hg', haliases, hchain', hkeys'⟩

end Workspace

end NestedJoin
