import NestedJoin.Proofs.KeyChains
set_option autoImplicit false

/-!
# Prepared graphs

The key chain of a vertex is kept beside the graphs, once for all of them.  A graph that is
prepared writes its own chains, also for the vertices that it shares with other graphs.  Two
graphs that place a vertex alike write the same; that is so as long as they share their vertices
by copying, since what is added to a graph later changes no chain above it.  A vertex that is
given to two graphs in different places, though, has the chain of the one prepared last.

Main statements: `Workspace.isPrepared_obey_iff` and `Workspace.stays_prepared`.
-/

namespace NestedJoin

/-- Serial numbers tell some vertices apart. -/
def Vertex.Identified (vs : List Vertex) : Prop :=
  ∀ u ∈ vs, ∀ v ∈ vs, u.serial = v.serial → u = v

namespace Graph

/-! ## Chains of a growing graph -/

/-- The way down to an alias leads through parents only. -/
theorem mem_climb {es : List Edge} {a b : String} (h : b ∈ climb es a) :
    b = a ∨ b ∈ es.map Edge.parentAlias := by
  induction es generalizing a with
  | nil => exact Or.inl (List.mem_singleton.1 h)
  | cons e es ih =>
    rw [climb] at h
    rw [List.map_cons]
    split at h
    · rcases List.mem_append.1 h with h | h
      · rcases ih h with rfl | h
        · exact Or.inr List.mem_cons_self
        · exact Or.inr (List.mem_cons_of_mem _ h)
      · exact Or.inl (List.mem_singleton.1 h)
    · exact (ih h).imp_right (List.mem_cons_of_mem _)

variable {g : Graph}

/-- Whatever leads down to an alias of the graph belongs to the graph. -/
theorem Coherent.mem_aliases_of_mem_climb (h : g.Coherent) {a b : String} (ha : a ∈ g.aliases)
    (hb : b ∈ climb g.edges.reverse a) : b ∈ g.aliases := by
  rcases mem_climb hb with rfl | hb
  · exact ha
  · obtain ⟨f, hf, rfl⟩ := List.mem_map.1 hb
    exact h.parent_mem_aliases (List.mem_reverse.1 hf)

section AddEdge

variable {g' : Graph} {e : Edge}

/-- The aliases of a graph are other ones than that of an edge that it accepts. -/
theorem ne_of_addEdge (ha : g.addEdge e = .ok g') {a : String} (hm : a ∈ g.aliases) :
    a ≠ e.aliasName := by
  rintro rfl
  exact Coherent.not_mem_aliases (addEdge_eq_ok_iff.1 ha).2.1 hm

/-- Another edge leaves the ways down to the aliases that are there. -/
theorem Coherent.climb_addEdge (h : g.Coherent) (ha : g.addEdge e = .ok g') {a : String}
    (hm : a ∈ g.aliases) : climb g'.edges.reverse a = climb g.edges.reverse a := by
  have hne := ne_of_addEdge ha hm
  obtain ⟨-, hnew, -, -, rfl⟩ := addEdge_eq_ok_iff.1 ha
  rw [h.edges_fileEdge hnew, List.reverse_append, List.reverse_singleton, List.singleton_append,
    climb, if_neg hne.symm]

/-- Another edge leaves the key columns of the aliases on the way down to one that is there. -/
theorem Coherent.flatMap_keyColumnsOf_addEdge (h : g.Coherent) (ha : g.addEdge e = .ok g')
    {a : String} (hm : a ∈ g.aliases) :
    (climb g.edges.reverse a).flatMap g'.keyColumnsOf =
      (climb g.edges.reverse a).flatMap g.keyColumnsOf := by
  refine List.flatMap_congr fun b hb => ?_
  have hne := ne_of_addEdge ha (h.mem_aliases_of_mem_climb hm hb)
  obtain ⟨-, -, -, -, rfl⟩ := addEdge_eq_ok_iff.1 ha
  have hfind : (g.fileEdge e).find? b = g.find? b := by
    rw [find?, fileEdge, OrderedMap.get?_insert, if_neg hne]
    rfl
  rw [keyColumnsOf, keyColumnsOf, hfind]

/-- Another edge leaves the chains of the vertices that are there. -/
theorem Coherent.chainOf_addEdge (h : g.Coherent) (ha : g.addEdge e = .ok g') {v : Vertex}
    (hv : v ∈ g.vertices) : g'.chainOf v = g.chainOf v := by
  have hown : v.aliasName ∈ g.aliases := h.alias_mem hv
  rw [chainOf, chainOf, h.climb_addEdge ha hown, h.flatMap_keyColumnsOf_addEdge ha hown]

end AddEdge

/-- The chain of a vertex is what the graph says of its alias. -/
theorem Coherent.keyChain_eq (h : g.Coherent) {v : Vertex} (hv : v ∈ g.vertices) :
    g.keyChain v.aliasName = .ok (g.chainOf v) := by
  rw [keyChain, aliasChain, byAlias, h.find?_eq_some hv]
  rfl

/-- A graph places the vertices that it shares with another as the other does. -/
def Agrees (g h : Graph) : Prop := ∀ v ∈ g.vertices, v ∈ h.vertices → h.chainOf v = g.chainOf v

end Graph

namespace Workspace

/-! ## Vertices of a workspace -/

/-- The vertices that a call gives to a graph, which need not take them. -/
def Command.given : Command → List Vertex
  | .start _ root => root.toList
  | .addRoot _ root => [root]
  | .addEdge _ e => [e.child]
  | _ => []

/-- A call adds a vertex to a graph. -/
inductive Adds (w : Workspace) : Command → Vertex → Prop where
  | start {name : String} {v : Vertex} : Adds w (.start name (some v)) v
  | addRoot {name : String} {v : Vertex} {g g' : Graph} (hg : w.graphs.get? name = some g)
    (hr : g.root = none) (ha : g.addRoot v = .ok g') : Adds w (.addRoot name v) v
  | addEdge {name : String} {e : Edge} {g g' : Graph} (hg : w.graphs.get? name = some g)
    (ha : g.addEdge e = .ok g') : Adds w (.addEdge name e) e.child

/-- A graph of the workspace has a vertex. -/
def Holds (w : Workspace) (v : Vertex) : Prop :=
  ∃ name g, w.graphs.get? name = some g ∧ v ∈ g.vertices

variable {w : Workspace} {c : Command} {name : String} {g : Graph} {v : Vertex}

theorem Adds.mem_given (h : w.Adds c v) : v ∈ c.given := by
  cases h with
  | start => exact List.mem_singleton_self v
  | addRoot => exact List.mem_singleton_self v
  | addEdge => exact List.mem_singleton_self _

/-- A vertex of a graph that a call brings is added by it, or another graph had it, with the same
chain. -/
theorem Brings.origin (hb : w.Brings c name g) (hw : w.Coherent) (hv : v ∈ g.vertices) :
    w.Adds c v ∨ ∃ name' g', w.graphs.get? name' = some g' ∧ v ∈ g'.vertices ∧
      g.chainOf v = g'.chainOf v := by
  cases hb with
  | start root =>
    cases root with
    | none => cases hv
    | some r =>
      obtain rfl := List.mem_singleton.1 hv
      exact Or.inl .start
  | @addRoot name root g₀ _ hg ha =>
    cases hr : g₀.root with
    | some r =>
      rw [Graph.addRoot, hr] at ha
      obtain rfl := Except.ok.inj ha
      exact Or.inr ⟨name, _, hg, hv, rfl⟩
    | none =>
      have hvertices := ((hw name g₀ hg).addRoot ha).vertices_eq
      have hadds : w.Adds (.addRoot name root) root := .addRoot hg hr ha
      simp only [Graph.addRoot, hr] at ha
      split at ha
      · cases ha
      · obtain rfl := Except.ok.inj ha
        rw [hvertices] at hv
        change v ∈ root :: g₀.edges.map Edge.child at hv
        rw [(hw name g₀ hg).edges_eq_nil hr] at hv
        rw [List.mem_singleton.1 hv]
        exact Or.inl hadds
  | @addEdge name e g₀ _ hg ha =>
    have hfiled := Graph.addEdge_eq_ok_iff.1 ha
    obtain ⟨-, hnew, -, -, rfl⟩ := hfiled
    rw [Graph.Coherent.vertices_fileEdge hnew] at hv
    rcases List.mem_append.1 hv with hv | hv
    · exact Or.inr ⟨name, g₀, hg, hv, (hw name g₀ hg).chainOf_addEdge ha hv⟩
    · rw [List.mem_singleton.1 hv]
      exact Or.inl (.addEdge hg ha)
  | @clone source _ _ hg => exact Or.inr ⟨source, g, hg, hv, rfl⟩

/-- A call brings one graph at most. -/
theorem Brings.unique (hb : w.Brings c name g) {name' : String} {g' : Graph}
    (hb' : w.Brings c name' g') : g = g' := by
  cases hb with
  | start root => cases hb'; rfl
  | addRoot hg ha =>
    cases hb' with
    | addRoot hg' ha' =>
      obtain rfl := Option.some.inj (hg.symm.trans hg')
      exact Except.ok.inj (ha.symm.trans ha')
  | addEdge hg ha =>
    cases hb' with
    | addEdge hg' ha' =>
      obtain rfl := Option.some.inj (hg.symm.trans hg')
      exact Except.ok.inj (ha.symm.trans ha')
  | clone hg =>
    cases hb' with
    | clone hg' => exact Option.some.inj (hg.symm.trans hg')

theorem holds_obey (hw : w.Coherent) (h : (w.obey c).Holds v) : w.Holds v ∨ w.Adds c v := by
  obtain ⟨name, g, hg, hv⟩ := h
  rcases graph_obey hg with hold | hb
  · exact Or.inl ⟨name, g, hold, hv⟩
  · rcases hb.origin hw hv with ha | ⟨name', g', hg', hv', -⟩
    · exact Or.inr ha
    · exact Or.inl ⟨name', g', hg', hv'⟩

/-- Serial numbers tell the vertices of a workspace apart. -/
def Identified (w : Workspace) : Prop :=
  ∀ u v, w.Holds u → w.Holds v → u.serial = v.serial → u = v

/-! ## One call -/

theorem get?_of_prepared? (h : w.prepared? c = some g) : ∃ name, w.graphs.get? name = some g := by
  cases c with
  | prepare name => exact ⟨name, h⟩
  | compile name filters => exact ⟨name, h⟩
  | start name root => cases h
  | addRoot name root => cases h
  | addEdge name e => cases h
  | clone source target => cases h

/-- A vertex has the chain of a graph that a call prepares. -/
theorem chainOf_obey_of_mem (hw : w.Coherent) (hi : w.Identified) (hp : w.prepared? c = some g)
    (hv : v ∈ g.vertices) : (w.obey c).chains.chainOf v = g.chainOf v := by
  obtain ⟨name, hg⟩ := get?_of_prepared? hp
  rw [obey_of_prepared? hp]
  have hn : (g.vertices.map Vertex.serial).Nodup := by
    refine (hw name g hg).vertices_nodup.map_on fun u hu v hv => ?_
    exact hi u v ⟨name, g, hg, hu⟩ ⟨name, g, hg, hv⟩
  exact (hw name g hg).isPrepared_prepared hn w.chains v hv

/-- No other call changes the chain of a vertex. -/
theorem chainOf_obey_of_notMem (hw : w.Coherent) (hi : w.Identified) (hv : w.Holds v)
    (hnot : ∀ g, w.prepared? c = some g → v ∉ g.vertices) :
    (w.obey c).chains.chainOf v = w.chains.chainOf v := by
  cases hp : w.prepared? c with
  | none =>
    rcases obey_of_not_prepared? hp with hq | ⟨name, g, -, hq⟩
    · rw [hq]
    · rw [hq]
      rfl
  | some g =>
    obtain ⟨name, hg⟩ := get?_of_prepared? hp
    rw [obey_of_prepared? hp]
    refine (hw name g hg).chainOf_prepared_of_other (fun hm => hnot g hp ?_) w.chains
    obtain ⟨u, hu, hserial⟩ := List.mem_map.1 hm
    rwa [← hi u v ⟨name, g, hg, hu⟩ hv hserial]

/-- A prepared graph stays prepared through a call exactly if the call prepares no graph that places
a shared vertex in another way. -/
theorem isPrepared_obey_iff (hw : w.Coherent) (hi : w.Identified)
    (hg : w.graphs.get? name = some g) (hprepared : g.IsPrepared w.chains) :
    g.IsPrepared (w.obey c).chains ↔ ∀ h, w.prepared? c = some h → g.Agrees h := by
  constructor
  · intro hafter h hp v hv hv'
    rw [← chainOf_obey_of_mem hw hi hp hv', hafter v hv]
  · intro hagrees v hv
    by_cases hmem : ∃ h, w.prepared? c = some h ∧ v ∈ h.vertices
    · obtain ⟨h, hp, hv'⟩ := hmem
      rw [chainOf_obey_of_mem hw hi hp hv', hagrees h hp v hv hv']
    · rw [chainOf_obey_of_notMem hw hi ⟨name, g, hg, hv⟩ fun h hp hv' => hmem ⟨h, hp, hv'⟩,
        hprepared v hv]

/-- A call puts no other graph in the place of a graph. -/
def Command.Keeps (name : String) : Command → Prop
  | .start other _ => other ≠ name
  | .clone _ target => target ≠ name
  | _ => True

/-- What a call that keeps a graph with a root can do to it: nothing, or add an edge. -/
theorem exists_graph_obey (hg : w.graphs.get? name = some g) (hr : g.root.isSome = true)
    (hc : c.Keeps name) :
    ∃ g', (w.obey c).graphs.get? name = some g' ∧
      (g' = g ∨ ∃ e, c = .addEdge name e ∧ g.addEdge e = .ok g') := by
  cases hp : w.prepared? c with
  | some h =>
    rw [obey_of_prepared? hp]
    exact ⟨g, hg, Or.inl rfl⟩
  | none =>
    rcases obey_of_not_prepared? hp with hq | ⟨name', g', hb, hq⟩
    · rw [hq]
      exact ⟨g, hg, Or.inl rfl⟩
    · rw [hq, put, OrderedMap.get?_insert]
      split
      · next hname =>
        subst hname
        refine ⟨g', rfl, ?_⟩
        cases hb with
        | start root => exact absurd rfl hc
        | clone hg' => exact absurd rfl hc
        | @addEdge _ e _ _ hg' ha =>
          obtain rfl := Option.some.inj (hg.symm.trans hg')
          exact Or.inr ⟨e, rfl, ha⟩
        | addRoot hg' ha =>
          obtain rfl := Option.some.inj (hg.symm.trans hg')
          obtain ⟨r, hroot⟩ := Option.isSome_iff_exists.1 hr
          rw [Graph.addRoot, hroot] at ha
          exact Or.inl (Except.ok.inj ha).symm
      · exact ⟨g, hg, Or.inl rfl⟩

/-- A call neither replaces a graph nor adds an edge to it. -/
def Command.Spares (name : String) : Command → Prop
  | .start other _ => other ≠ name
  | .addEdge other _ => other ≠ name
  | .clone _ target => target ≠ name
  | _ => True

theorem Command.Spares.keeps (h : c.Spares name) : c.Keeps name := by
  cases c with
  | start other root => exact h
  | clone source target => exact h
  | _ => exact True.intro

/-- A graph with a root stays through a call that spares it. -/
theorem get?_obey_of_spares (hg : w.graphs.get? name = some g) (hr : g.root.isSome = true)
    (hc : c.Spares name) : (w.obey c).graphs.get? name = some g := by
  obtain ⟨g', hg', rfl | ⟨e, rfl, -⟩⟩ := exists_graph_obey hg hr hc.keeps
  · exact hg'
  · exact absurd rfl hc

/-! ## Runs -/

/-- All vertices of a workspace are among some. -/
structure Among (w : Workspace) (vs : List Vertex) : Prop where
  coherent : w.Coherent
  mem : ∀ v, w.Holds v → v ∈ vs

section Runs

variable {vs : List Vertex} {cs : List Command}

theorem Among.empty (vs : List Vertex) : Workspace.empty.Among vs where
  coherent := Coherent.empty
  mem := by
    rintro v ⟨name, g, hg, -⟩
    cases hg

theorem Among.obey (h : w.Among vs) (hc : ∀ v ∈ c.given, v ∈ vs) : (w.obey c).Among vs where
  coherent := h.coherent.obey c
  mem v hv := (holds_obey h.coherent hv).elim (h.mem v) fun ha => hc v ha.mem_given

theorem Among.run (h : w.Among vs) (hcs : ∀ c ∈ cs, ∀ v ∈ c.given, v ∈ vs) :
    (w.run cs).Among vs := by
  induction cs generalizing w with
  | nil => exact h
  | cons c cs ih =>
    exact ih (h.obey (hcs c List.mem_cons_self)) fun d hd => hcs d (List.mem_cons_of_mem c hd)

theorem Among.identified (h : w.Among vs) (hi : Vertex.Identified vs) : w.Identified :=
  fun u v hu hv => hi u (h.mem u hu) v (h.mem v hv)

/-- A condition that every call of a run meets when it is made. -/
def Throughout (meets : Workspace → Command → Prop) : Workspace → List Command → Prop
  | _, [] => True
  | w, c :: cs => meets w c ∧ Throughout meets (w.obey c) cs

theorem throughout_append {meets : Workspace → Command → Prop} {ds : List Command} :
    Throughout meets w (cs ++ ds) ↔ Throughout meets w cs ∧ Throughout meets (w.run cs) ds := by
  induction cs generalizing w with
  | nil => exact ⟨fun h => ⟨True.intro, h⟩, And.right⟩
  | cons c cs ih =>
    rw [List.cons_append, Throughout, Throughout, ih, and_assoc]
    rfl

theorem get?_run_of_spares (hg : w.graphs.get? name = some g) (hr : g.root.isSome = true)
    (hcs : ∀ c ∈ cs, c.Spares name) : (w.run cs).graphs.get? name = some g := by
  induction cs generalizing w with
  | nil => exact hg
  | cons c cs ih =>
    exact ih (get?_obey_of_spares hg hr (hcs c List.mem_cons_self)) fun d hd =>
      hcs d (List.mem_cons_of_mem c hd)

/-- The graphs whose chains a call works out place what they share with a graph as it does. -/
def AgreesWith (g : Graph) (w : Workspace) (c : Command) : Prop :=
  ∀ h, w.prepared? c = some h → g.Agrees h

/-- A prepared graph stays prepared if every call agrees with it. -/
theorem isPrepared_run (hi : Vertex.Identified vs) (hw : w.Among vs)
    (hcs : ∀ c ∈ cs, ∀ v ∈ c.given, v ∈ vs) (hg : w.graphs.get? name = some g)
    (hr : g.root.isSome = true) (hspares : ∀ c ∈ cs, c.Spares name)
    (hprepared : g.IsPrepared w.chains) (hagrees : Throughout (AgreesWith g) w cs) :
    g.IsPrepared (w.run cs).chains := by
  induction cs generalizing w with
  | nil => exact hprepared
  | cons c cs ih =>
    obtain ⟨hnow, hlater⟩ := hagrees
    refine ih (hw.obey (hcs c List.mem_cons_self)) (fun d hd => hcs d (List.mem_cons_of_mem c hd))
      (get?_obey_of_spares hg hr (hspares c List.mem_cons_self))
      (fun d hd => hspares d (List.mem_cons_of_mem c hd)) ?_ hlater
    exact (isPrepared_obey_iff hw.coherent (hw.identified hi) hg hprepared).2 hnow

/-! ## Sharing by copying -/

/-- A call adds a vertex only if no graph has it yet. -/
def AddsAnew (v : Vertex) (w : Workspace) (c : Command) : Prop := w.Adds c v → ¬w.Holds v

/-- The graphs that have a vertex place it alike. -/
def PlacedAlike (w : Workspace) (v : Vertex) : Prop :=
  ∀ name g name' g', w.graphs.get? name = some g → w.graphs.get? name' = some g' →
    v ∈ g.vertices → v ∈ g'.vertices → g.chainOf v = g'.chainOf v

/-- Graphs that share a vertex by copying go on placing it alike. -/
theorem PlacedAlike.obey (h : w.PlacedAlike v) (hw : w.Coherent) (hnew : AddsAnew v w c) :
    (w.obey c).PlacedAlike v := by
  intro name g name' g' hg hg' hv hv'
  by_cases ha : w.Adds c v
  · -- no graph had the vertex, so both graphs are the one that the call brings
    have hbrought : ∀ n f, (w.obey c).graphs.get? n = some f → v ∈ f.vertices → w.Brings c n f :=
      fun n f hf hvf => (graph_obey hf).resolve_left fun hold => hnew ha ⟨n, f, hold, hvf⟩
    rw [(hbrought name g hg hv).unique (hbrought name' g' hg' hv')]
  · have hold : ∀ n f, (w.obey c).graphs.get? n = some f → v ∈ f.vertices →
        ∃ n₀ f₀, w.graphs.get? n₀ = some f₀ ∧ v ∈ f₀.vertices ∧ f.chainOf v = f₀.chainOf v := by
      intro n f hf hvf
      rcases graph_obey hf with hf | hb
      · exact ⟨n, f, hf, hvf, rfl⟩
      · exact (hb.origin hw hvf).resolve_left ha
    obtain ⟨n, f, hf, hvf, hq⟩ := hold name g hg hv
    obtain ⟨n', f', hf', hvf', hq'⟩ := hold name' g' hg' hv'
    rw [hq, hq', h n f n' f' hf hf' hvf hvf']

theorem PlacedAlike.run (h : w.PlacedAlike v) (hw : w.Coherent)
    (hnew : Throughout (AddsAnew v) w cs) : (w.run cs).PlacedAlike v := by
  induction cs generalizing w with
  | nil => exact h
  | cons c cs ih => exact ih (h.obey hw hnew.1) (hw.obey c) hnew.2

/-- Every call agrees with a graph whose vertices are placed alike by all graphs. -/
theorem throughout_agreesWith (hw : w.Coherent) (hg : w.graphs.get? name = some g)
    (hr : g.root.isSome = true) (hspares : ∀ c ∈ cs, c.Spares name)
    (halike : ∀ v ∈ g.vertices, w.PlacedAlike v)
    (hnew : ∀ v ∈ g.vertices, Throughout (AddsAnew v) w cs) :
    Throughout (AgreesWith g) w cs := by
  induction cs generalizing w with
  | nil => exact True.intro
  | cons c cs ih =>
    constructor
    · intro h hp v hv hv'
      obtain ⟨name', hh⟩ := get?_of_prepared? hp
      exact halike v hv name' h name g hh hg hv' hv
    · exact ih (hw.obey c) (get?_obey_of_spares hg hr (hspares c List.mem_cons_self))
        (fun d hd => hspares d (List.mem_cons_of_mem c hd))
        (fun v hv => (halike v hv).obey hw (hnew v hv).1) fun v hv => (hnew v hv).2

/-- Preparing a graph that has a root prepares it and leaves the graphs as they are. -/
theorem prepare_spec (hi : Vertex.Identified vs) (hw : w.Among vs)
    (hg : w.graphs.get? name = some g) {w' : Workspace} (hp : w.prepare name = .ok w') :
    w.obey (.prepare name) = w' ∧ g.root.isSome = true ∧ w'.Among vs ∧
      w'.graphs.get? name = some g ∧ g.IsPrepared w'.chains := by
  have hobey : w.obey (.prepare name) = w' := by
    rw [obey, perform, hp]
  have hroot : g.root.isSome = true := by
    rw [prepare_eq hg] at hp
    cases hr : g.root with
    | some r => rfl
    | none =>
      rw [Graph.prepare, hr] at hp
      cases hp
  refine ⟨hobey, hroot, ?_⟩
  rw [← hobey]
  refine ⟨hw.obey fun v hv => absurd hv List.not_mem_nil, ?_, ?_⟩
  · exact get?_obey_of_spares hg hroot True.intro
  · exact fun v hv => chainOf_obey_of_mem hw.coherent (hw.identified hi) hg hv

end Runs

/-- Calls are made, a graph is prepared, and further calls are made that neither replace the graph
nor add an edge to it; serial numbers tell the vertices of all calls apart.  Preparing gives every
vertex of the graph the chain that the graph says it has.  The graph is still there after the
further calls.  It is prepared if each of them, when it works out the chains of a graph, finds there
the vertices that both graphs have where the prepared graph has them; the first call that does not
ends it.  It is prepared, too, if no call ever adds one of its vertices to a graph while a graph has
this vertex, so that graphs share it by copying only. -/
theorem stays_prepared (before after : List Command) {name : String} {g : Graph} {w : Workspace}
    (hid : Vertex.Identified ((before ++ after).flatMap Command.given))
    (hg : (Workspace.empty.run before).graphs.get? name = some g)
    (hp : (Workspace.empty.run before).prepare name = .ok w)
    (hspares : ∀ c ∈ after, c.Spares name) :
    (∀ v ∈ g.vertices, g.keyChain v.aliasName = .ok (g.chainOf v)) ∧
    g.IsPrepared w.chains ∧
    (w.run after).graphs.get? name = some g ∧
    (Throughout (AgreesWith g) w after → g.IsPrepared (w.run after).chains) ∧
    (g.IsPrepared (w.run after).chains →
      ∀ c, g.IsPrepared ((w.run after).obey c).chains ↔ AgreesWith g (w.run after) c) ∧
    ((∀ v ∈ g.vertices,
        Throughout (AddsAnew v) Workspace.empty (before ++ .prepare name :: after)) →
      g.IsPrepared (w.run after).chains) := by
  generalize hvs : (before ++ after).flatMap Command.given = vs at hid
  have hgiven : ∀ c ∈ before ++ after, ∀ v ∈ c.given, v ∈ vs := by
    rw [← hvs]
    exact fun c hc v hv => List.mem_flatMap.2 ⟨c, hc, hv⟩
  have hafter : ∀ c ∈ after, ∀ v ∈ c.given, v ∈ vs :=
    fun c hc => hgiven c (List.mem_append_right before hc)
  have hstart := (Among.empty vs).run fun c hc => hgiven c (List.mem_append_left after hc)
  obtain ⟨hobey, hroot, hw, hg', hprepared⟩ := prepare_spec hid hstart hg hp
  have hend := get?_run_of_spares hg' hroot hspares
  have hrun := isPrepared_run hid hw hafter hg' hroot hspares hprepared
  refine ⟨fun v => (hstart.coherent name g hg).keyChain_eq, hprepared, hend, hrun, ?_, ?_⟩
  · intro hlater c
    exact isPrepared_obey_iff (hw.run hafter).coherent ((hw.run hafter).identified hid) hend hlater
  · intro hnew
    -- a vertex is placed alike when the graph has been prepared, and it goes on so
    have hsplit : ∀ v ∈ g.vertices, w.PlacedAlike v ∧ Throughout (AddsAnew v) w after := by
      intro v hv
      obtain ⟨hbefore, hprepare, hlater⟩ := throughout_append.1 (hnew v hv)
      have hempty : Workspace.empty.PlacedAlike v := by
        intro _ _ _ _ hnone
        cases hnone
      have halike := (hempty.run Coherent.empty hbefore).obey hstart.coherent hprepare
      rw [hobey] at halike hlater
      exact ⟨halike, hlater⟩
    exact hrun (throughout_agreesWith hw.coherent hg' hroot hspares (fun v hv => (hsplit v hv).1)
      fun v hv => (hsplit v hv).2)

/-! ### A copied graph and a moved table -/

def upperVertex : Vertex := sampleVertex "u" "n" (by decide) (by decide)

def lowerVertex : Vertex := { sampleVertex "v" "n" (by decide) (by decide) with serial := 1 }

def lowestVertex : Vertex := { sampleVertex "w" "n" (by decide) (by decide) with serial := 2 }

/-- Calls that join two tables. -/
def pairCommands : List Command :=
  [.start "g" (some upperVertex),
    .addEdge "g" (sampleEdge lowerVertex upperVertex "v" rfl (by decide) (by decide))]

def pairGraph : Graph := ((Workspace.empty.run pairCommands).graphs.get? "g").getD .empty

def preparedPair : Workspace :=
  ((Workspace.empty.run pairCommands).prepare "g").toOption.getD .empty

/-- Calls that copy the graph, join a third table to the copy and work out its chains. -/
def copyCommands : List Command :=
  [.clone "g" "h",
    .addEdge "h" (sampleEdge lowestVertex lowerVertex "w" rfl (by decide) (by decide)),
    .compile "h" [], .prepare "h"]

/-- The graph stays prepared when the copy is, with one more table. -/
theorem stays_prepared_copied : pairGraph.IsPrepared (preparedPair.run copyCommands).chains := by
  have hid : Vertex.Identified ((pairCommands ++ copyCommands).flatMap Command.given) := by
    have hn : ([upperVertex, lowerVertex, lowestVertex].map Vertex.serial).Nodup := by decide
    exact fun u hu v hv h => List.inj_on_of_nodup_map hn hu hv h
  have hg : (Workspace.empty.run pairCommands).graphs.get? "g" = some pairGraph := rfl
  have hp : (Workspace.empty.run pairCommands).prepare "g" = .ok preparedPair := rfl
  have hspares : ∀ c ∈ copyCommands, c.Spares "g" := by
    simp [copyCommands, Command.Spares]
  obtain ⟨-, -, -, -, -, hshared⟩ := stays_prepared pairCommands copyCommands hid hg hp hspares
  refine hshared fun v hv => ⟨?_, ?_, ?_, ?_, ?_, ?_, ?_, True.intro⟩
  · rintro - ⟨n, f, hf, -⟩
    cases hf
  · -- the lower table is added when the graph has only the upper one
    intro ha hheld
    have hlower : v = lowerVertex := List.mem_singleton.1 ha.mem_given
    rcases holds_obey Coherent.empty hheld with ⟨n, f, hf, -⟩ | hroot
    · cases hf
    · have hupper : v = upperVertex := List.mem_singleton.1 hroot.mem_given
      exact absurd (congrArg Vertex.serial (hlower.symm.trans hupper)) (by decide)
  · intro ha
    cases ha
  · intro ha
    cases ha
  · -- the third table is none of the graph's
    intro ha
    have hlowest : v = lowestVertex := List.mem_singleton.1 ha.mem_given
    have hserial : v.serial ∈ pairGraph.vertices.map Vertex.serial := List.mem_map_of_mem hv
    rw [hlowest] at hserial
    exact absurd hserial (by decide)
  · intro ha
    cases ha
  · intro ha
    cases ha

/-- Calls that start another graph with the lower table as its root and prepare it. -/
def movingCommands : List Command := [.start "h" (some lowerVertex), .prepare "h"]

/-- A prepared graph is none any more when its lower table has got the chain of a root. -/
theorem stays_prepared_not_moved :
    (Workspace.empty.run pairCommands).graphs.get? "g" = some pairGraph ∧
    (Workspace.empty.run pairCommands).prepare "g" = .ok preparedPair ∧
    (∀ v ∈ pairGraph.vertices,
      pairGraph.keyChain v.aliasName = .ok (preparedPair.chains.chainOf v)) ∧
    (∀ c ∈ movingCommands, c.Spares "g") ∧
    (preparedPair.run movingCommands).graphs.get? "g" = some pairGraph ∧
    ¬∀ v ∈ pairGraph.vertices, pairGraph.keyChain v.aliasName =
      .ok ((preparedPair.run movingCommands).chains.chainOf v) := by
  refine ⟨rfl, rfl, ?_, ?_, rfl, ?_⟩
  · intro v hv
    rcases List.mem_cons.1 hv with rfl | hv
    · rfl
    · rw [List.mem_singleton.1 hv]
      rfl
  · simp [movingCommands, Command.Spares]
  · intro h
    have hlower := h lowerVertex (List.mem_of_mem_getLast? rfl)
    have hchain : pairGraph.keyChain lowerVertex.aliasName = .ok ["u_id", "v_id"] := rfl
    have hmoved : (preparedPair.run movingCommands).chains.chainOf lowerVertex = ["v_id"] := rfl
    rw [hchain, hmoved] at hlower
    exact absurd (Except.ok.inj hlower) (by decide)

end Workspace

end NestedJoin
