import NestedJoin.Proofs.Repeating
import NestedJoin.Proofs.Retention
import NestedJoin.Proofs.TakingTurns
set_option autoImplicit false

/-!
# Modifiers of builders

A builder keeps one modifier for an alias: the one that was registered last, in the place of the
first one.  When rows are materialized, all of them are folded before the first modifier runs.  Then
every modifier gets each node of its alias once, in the order in which their keys were seen,
whatever refers to the node.  So a modifier finds the changes of another one exactly if that other
one's alias was registered before its own.

Main statements: `OrderedMap.entries_insertAll`, `Graph.Grown.modifiedBy` and
`Session.materialize_modifies`.
-/

namespace NestedJoin

namespace OrderedMap

variable {κ ν : Type} [DecidableEq κ]

/-! ## Writing again -/

theorem insertAll_append (m : OrderedMap κ ν) (es fs : List (κ × ν)) :
    m.insertAll (es ++ fs) = (m.insertAll es).insertAll fs := List.foldl_append

/-- The keys stand in the order in which they were first written. -/
theorem keys_insertAll (m : OrderedMap κ ν) (es : List (κ × ν)) :
    (m.insertAll es).keys = ((m.entries ++ es).map Prod.fst).eraseDups := by
  induction es using List.reverseRecOn with
  | nil =>
    rw [List.append_nil]
    exact (eraseDups_of_nodup m.nodup_keys).symm
  | append_singleton es e ih =>
    have hkeys : (m.entries ++ es ++ [e]).map Prod.fst =
        (m.entries ++ es).map Prod.fst ++ [e.1] := List.map_append
    rw [insertAll_append, insertAll_cons, insertAll_nil, keys_insert, ih, ← List.append_assoc,
      hkeys, eraseDups_concat]
    simp only [List.mem_eraseDups]

/-- A key holds what was written last. -/
theorem get?_insertAll (m : OrderedMap κ ν) (es : List (κ × ν)) (k : κ) :
    (m.insertAll es).get? k = (m.entries ++ es).reverse.lookup k := by
  -- from the end, since the entry that counts is the last one
  induction es using List.reverseRecOn with
  | nil =>
    have hnodup : (m.entries.reverse.map Prod.fst).Nodup := by
      rw [List.map_reverse, List.nodup_reverse]
      exact m.nodup_keys
    refine Option.ext fun v => ?_
    rw [List.append_nil, insertAll_nil, get?_eq_some_iff]
    exact List.mem_reverse.symm.trans (get?_eq_some_iff (m := ⟨m.entries.reverse, hnodup⟩)).symm
  | append_singleton es e ih =>
    rw [insertAll_append, insertAll_cons, insertAll_nil, get?_insert, ih, ← List.append_assoc,
      List.reverse_concat, List.lookup_cons]
    by_cases h : k = e.1
    · rw [if_pos h, beq_iff_eq.2 h]
    · rw [if_neg h, beq_eq_false_iff_ne.2 h]

theorem entries_eq_map_keys (m : OrderedMap κ ν) (default : ν) :
    m.entries = m.keys.map fun k => (k, (m.get? k).getD default) := by
  conv_lhs => rw [← List.map_id m.entries]
  rw [keys, List.map_map]
  refine List.map_congr_left fun e he => ?_
  rw [Function.comp_apply, get?_eq_some_iff.2 he]
  rfl

end OrderedMap

/-! ## Registrations -/

/-- Modifiers in the order in which they were registered. -/
abbrev Registrations : Type := List (String × List Action)

namespace Registrations

/-- The aliases in the order of their first registrations. -/
def aliases (given : Registrations) : List String := (given.map Prod.fst).eraseDups

/-- The actions registered last for an alias. -/
def last (given : Registrations) (aliasName : String) : List Action :=
  (given.reverse.lookup aliasName).getD []

/-- A builder keeps for every alias what was registered last, in the place of the first. -/
theorem entries_insertAll (m : Modifiers) (given : Registrations) :
    (m.insertAll given).entries =
      (aliases (m.entries ++ given)).map fun a => (a, last (m.entries ++ given) a) := by
  rw [OrderedMap.entries_eq_map_keys _ [], OrderedMap.keys_insertAll]
  refine List.map_congr_left fun a _ => ?_
  rw [OrderedMap.get?_insertAll, last]

end Registrations

namespace Graph

/-- The turns that modifiers take: alias by alias in the order of first registration, each with the
nodes of the alias in the order of first sight, and with what was registered last. -/
def turns (g : Graph) (rows : List Row) (given : Registrations) : List Turn :=
  given.aliases.flatMap fun a =>
    (((g.find? a).map (g.sightings rows)).getD []).map fun k => ⟨⟨a, k⟩, given.last a⟩

/-- A run of the modifiers that were given on a forest of some rows. -/
structure ModifiedBy (g : Graph) (rows : List Row) (given : Registrations) (f : Forest)
    (run : MaterializeRun) : Prop where
  /-- the turns are taken on the forest in which all rows are linked -/
  run_eq : ∃ root, g.root = some root ∧ run = ⟨(f.takeTurns (g.turns rows given)).1,
    (f.takeTurns (g.turns rows given)).2.map fun f' => (f', root.aliasName)⟩
  /-- no node has two turns -/
  once : ((g.turns rows given).map Turn.node).Nodup
  /-- all nodes of the aliases have one, reachable or not -/
  everyone : ∀ r, r ∈ (g.turns rows given).map Turn.node ↔
    r.aliasName ∈ given.map Prod.fst ∧ (f.fragment? r).isSome = true
  /-- a turn finds the changes of earlier ones, and no others -/
  finds : ∀ before t after, g.turns rows given = before ++ t :: after → ∀ calls s,
    f.takeTurns before = (calls, .ok s) → f.Finds before s
  /-- earlier are the turns of the aliases registered earlier -/
  earlier_iff : ∀ before t after, g.turns rows given = before ++ t :: after → ∀ r,
    (f.fragment? r).isSome = true → r.aliasName ≠ t.node.aliasName →
      (r ∈ before.map Turn.node ↔
        given.aliases.idxOf r.aliasName < given.aliases.idxOf t.node.aliasName)
  /-- a turn changes its own node, and is seen where references lead to it -/
  alone : ∀ before t after, g.turns rows given = before ++ t :: after → ∀ calls s,
    f.takeTurns before = (calls, .ok s) → ∀ more s',
      s.runActions t.node t.actions = (more, .ok s') →
        (∀ r, r ≠ t.node → s'.fragment? r = s.fragment? r) ∧
        ∀ r, ¬Relation.ReflTransGen s.RefersTo r t.node → s'.entity r = s.entity r
  /-- a turn that fails is the last one -/
  fails : ∀ before t after, g.turns rows given = before ++ t :: after → ∀ calls s,
    f.takeTurns before = (calls, .ok s) → ∀ more fault,
      s.runActions t.node t.actions = (more, .error fault) → run = ⟨calls ++ more, .error fault⟩

/-! ## The order of turns -/

section Turns

variable {g : Graph} {chains : KeyChains} {rows : List Row} {f : Forest} {given : Registrations}

/-- The nodes of some aliases, alias by alias, are different. -/
theorem nodup_flatMap_refsOf (f : Forest) {aliases : List String} (h : aliases.Nodup) :
    (aliases.flatMap f.refsOf).Nodup := by
  rw [List.nodup_flatMap]
  refine ⟨fun a _ => ?_, h.imp fun {a b} hne r hr hr' => ?_⟩
  · exact (f.nodesOf a).keys_nodup.map fun k k' hk => congrArg NodeRef.key hk
  · exact hne ((Forest.mem_refsOf_iff.1 hr).1.symm.trans (Forest.mem_refsOf_iff.1 hr').1)

/-- They stand in the order of their aliases. -/
theorem pairwise_flatMap_refsOf (f : Forest) {aliases : List String} (h : aliases.Nodup) :
    (aliases.flatMap f.refsOf).Pairwise fun r r' =>
      aliases.idxOf r.aliasName ≤ aliases.idxOf r'.aliasName := by
  have halias : ∀ {a r}, r ∈ f.refsOf a → r.aliasName = a :=
    fun hr => (Forest.mem_refsOf_iff.1 hr).1
  have hsame : ∀ a ∈ aliases, (f.refsOf a).Pairwise fun r r' =>
      aliases.idxOf r.aliasName ≤ aliases.idxOf r'.aliasName := by
    intro a _
    refine List.pairwise_of_forall_mem_list fun r hr r' hr' => ?_
    exact Nat.le_of_eq (by rw [halias hr, halias hr'])
  have horder : aliases.Pairwise fun a b => ∀ r ∈ f.refsOf a, ∀ r' ∈ f.refsOf b,
      aliases.idxOf r.aliasName ≤ aliases.idxOf r'.aliasName := by
    refine List.pairwise_iff_getElem.2 fun i j hi hj hij r hr r' hr' => ?_
    rw [halias hr, halias hr', h.idxOf_getElem, h.idxOf_getElem]
    exact Nat.le_of_lt hij
  exact List.pairwise_flatMap.2 ⟨hsame, horder⟩

/-- Of two nodes of different aliases that one stands first whose alias does. -/
theorem mem_before_iff {aliases : List String} (h : aliases.Nodup) {before after : List NodeRef}
    {r q : NodeRef} (hs : aliases.flatMap f.refsOf = before ++ r :: after)
    (hq : (f.fragment? q).isSome = true) (hne : q.aliasName ≠ r.aliasName) :
    q ∈ before ↔ aliases.idxOf q.aliasName < aliases.idxOf r.aliasName := by
  have hpairwise := pairwise_flatMap_refsOf f h
  rw [hs, List.pairwise_append, List.pairwise_cons] at hpairwise
  obtain ⟨-, ⟨hafter, -⟩, hbefore⟩ := hpairwise
  have hr : r.aliasName ∈ aliases := by
    have hm : r ∈ aliases.flatMap f.refsOf := hs ▸ List.mem_append_right _ List.mem_cons_self
    obtain ⟨a, ha, hra⟩ := List.mem_flatMap.1 hm
    rwa [(Forest.mem_refsOf_iff.1 hra).1]
  constructor
  · intro hm
    have hle := hbefore q hm r List.mem_cons_self
    have hidx : aliases.idxOf r.aliasName ≠ aliases.idxOf q.aliasName :=
      fun heq => hne ((List.idxOf_inj hr).1 heq).symm
    omega
  · intro hlt
    have hqa : q.aliasName ∈ aliases :=
      List.idxOf_lt_length_iff.1 (Nat.lt_trans hlt (List.idxOf_lt_length_iff.2 hr))
    have hm : q ∈ before ++ r :: after := by
      rw [← hs]
      exact List.mem_flatMap.2 ⟨_, hqa, Forest.mem_refsOf_iff.2 ⟨rfl, hq⟩⟩
    rcases List.mem_append.1 hm with hm | hm
    · exact hm
    · rcases List.mem_cons.1 hm with rfl | hm
      · exact absurd rfl hne
      · exact absurd hlt (Nat.not_lt_of_le (hafter q hm))

/-! ## Runs of modifiers -/

/-- The turns are one for each node of the aliases. -/
theorem Grown.turns_eq (hg : g.Grown) (hc : g.IsPrepared chains)
    (h : g.forestOf chains rows = .ok f) (hgiven : ∀ p ∈ given, g.contains p.1 = true) :
    g.turns rows given =
      given.aliases.flatMap fun a => (f.refsOf a).map fun r => ⟨r, given.last a⟩ := by
  refine List.flatMap_congr fun a ha => ?_
  obtain ⟨p, hp, rfl⟩ := List.mem_map.1 (List.mem_eraseDups.1 ha)
  obtain ⟨v, hfind⟩ := Option.isSome_iff_exists.1 (hgiven p hp)
  have hv : v ∈ g.vertices := OrderedMap.mem_values_of_get? hfind
  have hkeys := (hg.keptIn_forestOf hc h).keys_eq v hv
  rw [hg.coherent.aliasName_of_find? hfind] at hkeys
  rw [show g.find? p.1 = some v from hfind, Forest.refsOf, hkeys, List.map_map]
  rfl

/-- A graph runs its modifiers by giving them their turns on the forest of the rows. -/
theorem Grown.materialize_eq_takeTurns (hg : g.Grown) (hc : g.IsPrepared chains)
    (h : g.forestOf chains rows = .ok f) (hgiven : ∀ p ∈ given, g.contains p.1 = true)
    {modifiers : Modifiers}
    (hentries : modifiers.entries = given.aliases.map fun a => (a, given.last a)) :
    ∃ root, g.root = some root ∧ g.materialize chains modifiers rows =
      ⟨(f.takeTurns (g.turns rows given)).1,
        (f.takeTurns (g.turns rows given)).2.map fun f' => (f', root.aliasName)⟩ := by
  obtain ⟨root, hroot⟩ := Option.isSome_iff_exists.1 hg.has_root
  have hknown : ∀ m ∈ modifiers.entries, m.1 ∈ f.nodes.keys := by
    intro m hm
    rw [hentries] at hm
    obtain ⟨a, ha, rfl⟩ := List.mem_map.1 hm
    obtain ⟨p, hp, rfl⟩ := List.mem_map.1 (List.mem_eraseDups.1 ha)
    rw [(hg.keptIn_forestOf hc h).aliases_eq]
    exact OrderedMap.contains_iff_mem_keys.1 (hgiven p hp)
  have hrun : f.runModifiers modifiers.entries = f.takeTurns (g.turns rows given) := by
    rw [Forest.runModifiers_eq f _ hknown, hg.turns_eq hc h hgiven, hentries, List.flatMap_map]
  refine ⟨root, hroot, ?_⟩
  unfold materialize
  rw [h]
  dsimp only
  rw [hrun]
  rcases f.takeTurns (g.turns rows given) with ⟨calls, fault | f'⟩
  · rfl
  · rw [rootOrFault, hroot]
    rfl

/-- A graph runs the modifiers that were given on the forest of the rows. -/
theorem Grown.modifiedBy (hg : g.Grown) (hc : g.IsPrepared chains)
    (h : g.forestOf chains rows = .ok f) (hgiven : ∀ p ∈ given, g.contains p.1 = true)
    {modifiers : Modifiers}
    (hentries : modifiers.entries = given.aliases.map fun a => (a, given.last a)) :
    g.ModifiedBy rows given f (g.materialize chains modifiers rows) := by
  obtain ⟨root, hroot, hrun⟩ := hg.materialize_eq_takeTurns hc h hgiven hentries
  have hnodes : (g.turns rows given).map Turn.node = given.aliases.flatMap f.refsOf := by
    rw [hg.turns_eq hc h hgiven, List.map_flatMap]
    refine List.flatMap_congr fun a _ => ?_
    rw [List.map_map]
    exact List.map_id _
  have hsplit : ∀ {before t after}, g.turns rows given = before ++ t :: after →
      given.aliases.flatMap f.refsOf =
        before.map Turn.node ++ t.node :: after.map Turn.node := by
    intro before t after hs
    rw [← hnodes, hs, List.map_append, List.map_cons]
  have hdistinct : given.aliases.Nodup := nodup_eraseDups _
  have honce := nodup_flatMap_refsOf f hdistinct
  have hsome : ∀ r ∈ given.aliases.flatMap f.refsOf, (f.fragment? r).isSome = true := by
    intro r hr
    obtain ⟨a, -, hra⟩ := List.mem_flatMap.1 hr
    exact (Forest.mem_refsOf_iff.1 hra).2
  have hbefore : ∀ {before t after}, g.turns rows given = before ++ t :: after →
      ∀ u ∈ before, (f.fragment? u.node).isSome = true := by
    intro before t after hs u hu
    refine hsome u.node ?_
    rw [hsplit hs]
    exact List.mem_append_left _ (List.mem_map_of_mem hu)
  constructor
  · exact ⟨root, hroot, hrun⟩
  · rw [hnodes]
    exact honce
  · intro r
    rw [hnodes, List.mem_flatMap]
    constructor
    · rintro ⟨a, ha, hr⟩
      obtain ⟨rfl, hf⟩ := Forest.mem_refsOf_iff.1 hr
      exact ⟨List.mem_eraseDups.1 ha, hf⟩
    · rintro ⟨ha, hf⟩
      exact ⟨r.aliasName, List.mem_eraseDups.2 ha, Forest.mem_refsOf_iff.2 ⟨rfl, hf⟩⟩
  · intro before t after hs calls s htaken
    rw [hsplit hs, List.nodup_append] at honce
    exact Forest.finds_of_takeTurns (hbefore hs) honce.1 htaken
  · intro before t after hs r hr hne
    exact mem_before_iff hdistinct (hsplit hs) hr hne
  · intro before t after hs calls s htaken more s' hturn
    have hnode : (s.fragment? t.node).isSome = true := by
      rw [(Forest.changedAt_takeTurns (hbefore hs) htaken).isSome_eq]
      refine hsome t.node ?_
      rw [hsplit hs]
      exact List.mem_append_right _ List.mem_cons_self
    have hchanged := Forest.changedAt_runActions hnode hturn
    exact ⟨fun r hr => hchanged.fragment?_eq r fun hm => hr (List.mem_singleton.1 hm),
      fun r hr => hchanged.entity_eq hr⟩
  · intro before t after hs calls s htaken more fault hturn
    rw [hrun, hs, Forest.takeTurns_of_failing htaken hturn]
    rfl

end Turns

end Graph

namespace Session

/-! ## Builders -/

/-- The modifiers of a builder are for aliases that its graph has. -/
theorem modifiers_known (schema : Schema) (cs : List Command) {name : String} {b : Builder}
    (hb : ((ofSchema schema).obeyAll cs).builder? name = some b) :
    ∀ a ∈ b.modifiers.keys, b.graph.contains a = true := by
  refine builder_run (P := fun b => ∀ a ∈ b.modifiers.keys, b.graph.contains a = true)
    ?_ ?_ ?_ ?_ schema cs hb
  · intro v a ha
    cases ha
  · intro b b' serial child parentAlias spec hknown hjoin a ha
    obtain ⟨-, edge, graph, -, -, hadd, rfl⟩ := Builder.join_eq_ok hjoin
    obtain ⟨-, -, -, -, rfl⟩ := Graph.addEdge_eq_ok_iff.1 hadd
    show (b.graph.tables.insert edge.aliasName edge.child).contains a = true
    rw [OrderedMap.contains, OrderedMap.get?_insert]
    split
    · rfl
    · exact hknown a ha
  · exact fun b f hknown => hknown
  · intro b b' aliasName actions hknown hmodify a ha
    obtain ⟨hcontains, rfl⟩ := Builder.modify_eq_ok_iff.1 hmodify
    change a ∈ (b.modifiers.insert aliasName actions).keys at ha
    rw [← OrderedMap.contains_iff_mem_keys, OrderedMap.contains, OrderedMap.get?_insert] at ha
    split at ha
    · next heq => exact heq ▸ hcontains
    · exact hknown a (OrderedMap.contains_iff_mem_keys.1 ha)

/-- Calls that register modifiers for known aliases leave the builder with all of them. -/
theorem builder?_modified {s : Session} {name : String} {b : Builder}
    (hb : s.builder? name = some b) {given : Registrations}
    (hgiven : ∀ p ∈ given, b.graph.contains p.1 = true) :
    (s.obeyAll (given.map fun p => .modify name p.1 p.2)).builder? name =
      some { b with modifiers := b.modifiers.insertAll given } := by
  induction given generalizing s b with
  | nil => exact hb
  | cons p given ih =>
    have hmodify : b.modify p.1 p.2 = .ok { b with modifiers := b.modifiers.insert p.1 p.2 } :=
      Builder.modify_eq_ok_iff.2 ⟨hgiven p List.mem_cons_self, rfl⟩
    have hstep : s.obey (.modify name p.1 p.2) =
        s.put name { b with modifiers := b.modifiers.insert p.1 p.2 } := by
      simp only [obey, withBuilder, hb, modify, Option.map_some, Option.getD_some, hmodify]
      rfl
    have hput : (s.obey (.modify name p.1 p.2)).builder? name =
        some { b with modifiers := b.modifiers.insert p.1 p.2 } := by
      rw [hstep, builder_put, if_pos rfl]
    exact ih hput fun q hq => hgiven q (List.mem_cons_of_mem p hq)

/-- For every builder that calls have made and all further registrations of modifiers for its
aliases: the calls leave a builder of the same graph, and whatever rows it materializes, a fault in
folding them is all there is, or else the modifiers run on the forest that all rows have made. -/
theorem materialize_modifies (schema : Schema) (cs : List Command) {name : String} {b : Builder}
    (hb : ((ofSchema schema).obeyAll cs).builder? name = some b) {given : Registrations}
    (hgiven : ∀ p ∈ given, b.graph.contains p.1 = true) (chains : KeyChains) (rows : List Row) :
    ∃ b' chains', b'.graph = b.graph ∧
      ((ofSchema schema).obeyAll (cs ++ given.map fun p => .modify name p.1 p.2)).builder? name =
        some b' ∧
      b.graph.prepare chains = .ok chains' ∧
      (∀ fault, b.graph.forestOf chains' rows = .error fault →
        (b'.materialize chains rows).1 = ⟨[], .error fault⟩) ∧
      ∀ f, b.graph.forestOf chains' rows = .ok f →
        b.graph.ModifiedBy rows (b.modifiers.entries ++ given) f
          (b'.materialize chains rows).1 := by
  have hg := grown_run schema cs hb
  obtain ⟨chains', hp⟩ := hg.exists_prepare chains
  have hknown : ∀ p ∈ b.modifiers.entries ++ given, b.graph.contains p.1 = true := by
    intro p hp
    rcases List.mem_append.1 hp with hp | hp
    · exact modifiers_known schema cs hb p.1 (List.mem_map_of_mem hp)
    · exact hgiven p hp
  refine ⟨{ b with modifiers := b.modifiers.insertAll given }, chains', rfl, ?_, hp, ?_, ?_⟩
  · rw [obeyAll, List.foldl_append]
    exact builder?_modified hb hgiven
  · intro fault hfault
    simp only [Builder.materialize, hp, Graph.materialize, hfault]
  · intro f hf
    simp only [Builder.materialize, hp]
    exact hg.modifiedBy (hg.isPrepared_prepare hp) hf hknown (Registrations.entries_insertAll _ _)

/-- Registrations of which the last one replaces the first. -/
def sampleRegistrations : Registrations :=
  [("b", [.fail "replaced"]), ("a", [.record (.str "seen") "bs"]), ("b", [.set "y" (.int 1)])]

def sampleForest : Forest :=
  (sampleBuilder.graph.forestOf sampleChains sampleRows).toOption.getD default

theorem materialize_modifies_sample :
    (∀ p ∈ sampleRegistrations, sampleBuilder.graph.contains p.1 = true) ∧
      (sampleBuilder.graph.turns sampleRows sampleRegistrations).map Turn.node =
        [⟨"b", [.ofInt 1, .ofInt 2]⟩, ⟨"b", [.null, .ofInt 5]⟩, ⟨"b", [.ofInt 6, .ofInt 2]⟩,
          ⟨"a", [.ofInt 1]⟩, ⟨"a", [.ofInt 6]⟩] ∧
      ∃ b', ((ofSchema sampleSchema).obeyAll (sampleCalls ++ sampleRegistrations.map fun p =>
          .modify "q" p.1 p.2)).builder? "q" = some b' ∧
        sampleBuilder.graph.ModifiedBy sampleRows sampleRegistrations sampleForest
          (b'.materialize .empty sampleRows).1 := by
  have hb : ((ofSchema sampleSchema).obeyAll sampleCalls).builder? "q" = some sampleBuilder := rfl
  have hgiven : ∀ p ∈ sampleRegistrations, sampleBuilder.graph.contains p.1 = true := by decide
  have hp : sampleBuilder.graph.prepare .empty = .ok sampleChains := rfl
  have hf : sampleBuilder.graph.forestOf sampleChains sampleRows = .ok sampleForest := rfl
  obtain ⟨b', chains, -, hb', hp', -, hmodified⟩ :=
    materialize_modifies sampleSchema sampleCalls hb hgiven .empty sampleRows
  obtain rfl := Except.ok.inj (hp.symm.trans hp')
  exact ⟨hgiven, by decide, b', hb', hmodified sampleForest hf⟩

end Session

end NestedJoin
