import Mathlib.Logic.Relation
import NestedJoin.Modifier
import NestedJoin.Proofs.Reading
set_option autoImplicit false

/-!
# Taking turns

A run of modifiers is a list of turns: at each of them one node is given to one modifier.  The turns
are taken one after the other until one fails.  A turn changes the fragment of its node only, so it
finds every other node as that node's own turn left it, or as it was in the beginning if its turn is
still to come; and it is seen elsewhere only where references lead to its node.

Main statements: `Forest.runModifiers_eq`, which lists the turns, `Forest.finds_of_takeTurns`,
what a turn finds, and `Forest.ChangedAt.entity_eq`, where it is not seen.
-/

namespace NestedJoin

/-- One call of a modifier: the node that it is given, and what it does to it. -/
structure Turn where
  node : NodeRef
  actions : List Action

namespace Forest

/-! ## Turns -/

/-- Goes on with the forest that a run ended with; a run that failed is left as it is. -/
def andThen (run : List Call × Except Fault Forest)
    (next : Forest → List Call × Except Fault Forest) : List Call × Except Fault Forest :=
  match run with
  | (calls, .error fault) => (calls, .error fault)
  | (calls, .ok f) => (calls ++ (next f).1, (next f).2)

/-- Takes turns in order until one fails. -/
def takeTurns (f : Forest) : List Turn → List Call × Except Fault Forest
  | [] => ([], .ok f)
  | t :: ts => andThen (f.runActions t.node t.actions) fun f' => f'.takeTurns ts

variable {f f' f'' s : Forest} {calls : List Call}

theorem andThen_eq_ok_iff {run : List Call × Except Fault Forest}
    {next : Forest → List Call × Except Fault Forest} :
    andThen run next = (calls, .ok s) ↔
      ∃ calls₁ s₁ calls₂, run = (calls₁, .ok s₁) ∧ next s₁ = (calls₂, .ok s) ∧
        calls = calls₁ ++ calls₂ := by
  rcases run with ⟨calls₁, fault | s₁⟩
  · simp [andThen]
  · constructor
    · intro h
      obtain ⟨hcalls, hresult⟩ := Prod.mk.inj h
      exact ⟨calls₁, s₁, (next s₁).1, rfl, Prod.ext rfl hresult, hcalls.symm⟩
    · rintro ⟨calls₁', s₁', calls₂, hrun, hnext, rfl⟩
      cases hrun
      simp only [andThen, hnext]

/-- Taking some turns and then others is taking all of them. -/
theorem takeTurns_append (f : Forest) (ts us : List Turn) :
    f.takeTurns (ts ++ us) = andThen (f.takeTurns ts) fun f' => f'.takeTurns us := by
  induction ts generalizing f with
  | nil => simp [takeTurns, andThen]
  | cons t ts ih =>
    rw [List.cons_append, takeTurns, takeTurns]
    rcases f.runActions t.node t.actions with ⟨calls, fault | f'⟩
    · rfl
    · simp only [andThen, ih]
      rcases f'.takeTurns ts with ⟨more, fault | f''⟩
      · rfl
      · simp [List.append_assoc]

/-- A turn that fails is the last one. -/
theorem takeTurns_of_failing {before after : List Turn} {t : Turn} {more : List Call}
    {fault : Fault} (h : f.takeTurns before = (calls, .ok s))
    (ht : s.runActions t.node t.actions = (more, .error fault)) :
    f.takeTurns (before ++ t :: after) = (calls ++ more, .error fault) := by
  rw [takeTurns_append, h]
  simp only [andThen, takeTurns, ht]

/-- Running actions on some nodes is a turn for each of them. -/
theorem runNodes_eq (f : Forest) (actions : List Action) (rs : List NodeRef) :
    f.runNodes actions rs = f.takeTurns (rs.map fun r => ⟨r, actions⟩) := by
  induction rs generalizing f with
  | nil => rfl
  | cons r rs ih =>
    rw [List.map_cons, runNodes, takeTurns]
    rcases f.runActions r actions with ⟨calls, fault | f'⟩
    · rfl
    · simp only [andThen, ih]

/-! ## What a turn changes -/

/-- One forest comes from another by changes to some of its nodes. -/
structure ChangedAt (rs : List NodeRef) (f f' : Forest) : Prop where
  fragment?_eq : ∀ r, r ∉ rs → f'.fragment? r = f.fragment? r
  aliases_eq : f'.nodes.keys = f.nodes.keys
  keys_eq : ∀ a, (f'.nodesOf a).keys = (f.nodesOf a).keys

theorem isSome_fragment?_iff {r : NodeRef} :
    (f.fragment? r).isSome = true ↔ r.key ∈ (f.nodesOf r.aliasName).keys :=
  OrderedMap.contains_iff_mem_keys

namespace ChangedAt

variable {rs : List NodeRef} {r : NodeRef}

theorem refl (rs : List NodeRef) (f : Forest) : ChangedAt rs f f :=
  ⟨fun _ _ => rfl, rfl, fun _ => rfl⟩

theorem trans (h : ChangedAt rs f f') (h' : ChangedAt rs f' f'') : ChangedAt rs f f'' where
  fragment?_eq r hr := (h'.fragment?_eq r hr).trans (h.fragment?_eq r hr)
  aliases_eq := h'.aliases_eq.trans h.aliases_eq
  keys_eq a := (h'.keys_eq a).trans (h.keys_eq a)

theorem mono {rs' : List NodeRef} (h : ChangedAt rs f f') (hsub : rs ⊆ rs') :
    ChangedAt rs' f f' :=
  ⟨fun r hr => h.fragment?_eq r fun hm => hr (hsub hm), h.aliases_eq, h.keys_eq⟩

theorem isSome_eq (h : ChangedAt rs f f') (r : NodeRef) :
    (f'.fragment? r).isSome = (f.fragment? r).isSome := by
  rw [Bool.eq_iff_iff, isSome_fragment?_iff, isSome_fragment?_iff, h.keys_eq]

theorem refsOf_eq (h : ChangedAt rs f f') (a : String) : f'.refsOf a = f.refsOf a := by
  rw [refsOf, refsOf, h.keys_eq]

theorem write (hr : (f.fragment? r).isSome = true) (fragment : Fragment) :
    ChangedAt [r] f (f.write r fragment) where
  fragment?_eq r' hr' := by
    rw [fragment?_write, if_neg fun h => hr' (List.mem_singleton.2 h)]
  aliases_eq := by
    have hmem : r.aliasName ∈ f.nodes.keys := by
      rw [← OrderedMap.contains_iff_mem_keys, OrderedMap.contains, Option.isSome_iff_ne_none]
      intro hnone
      rw [fragment?, nodesOf, hnone] at hr
      cases hr
    exact (OrderedMap.keys_insert _ _ _).trans (if_pos hmem)
  keys_eq a := by
    rw [nodesOf_write]
    split
    · next ha => rw [OrderedMap.keys_insert, if_pos (ha ▸ isSome_fragment?_iff.1 hr)]
    · rfl

end ChangedAt

/-- Actions change the node that they run on. -/
theorem changedAt_runActions {r : NodeRef} (hr : (f.fragment? r).isSome = true)
    {actions : List Action} (h : f.runActions r actions = (calls, .ok f')) :
    ChangedAt [r] f f' := by
  induction actions generalizing f calls with
  | nil =>
    cases h
    exact .refl _ _
  | cons a actions ih =>
    rw [runActions] at h
    dsimp only at h
    split at h
    · cases h
    · next fragment' _ =>
      have hwrite := ChangedAt.write hr fragment'
      have hsome : ((f.write r fragment').fragment? r).isSome = true := by rw [hwrite.isSome_eq, hr]
      exact hwrite.trans (ih hsome (Prod.ext rfl (Prod.mk.inj h).2))

/-- Turns change the nodes whose turns they are. -/
theorem changedAt_takeTurns {ts : List Turn}
    (hts : ∀ t ∈ ts, (f.fragment? t.node).isSome = true) (h : f.takeTurns ts = (calls, .ok f')) :
    ChangedAt (ts.map Turn.node) f f' := by
  induction ts generalizing f calls with
  | nil =>
    cases h
    exact .refl _ _
  | cons t ts ih =>
    obtain ⟨calls₁, s₁, calls₂, hturn, hrest, -⟩ := andThen_eq_ok_iff.1 h
    have hfirst := changedAt_runActions (hts t List.mem_cons_self) hturn
    have hlater : ∀ u ∈ ts, (s₁.fragment? u.node).isSome = true := by
      intro u hu
      rw [hfirst.isSome_eq]
      exact hts u (List.mem_cons_of_mem t hu)
    have hsub : [t.node] ⊆ (t :: ts).map Turn.node :=
      List.cons_subset.2 ⟨List.mem_cons_self, List.nil_subset _⟩
    exact (hfirst.mono hsub).trans ((ih hlater hrest).mono (List.subset_cons_self _ _))

theorem mem_refsOf_iff {a : String} {r : NodeRef} :
    r ∈ f.refsOf a ↔ r.aliasName = a ∧ (f.fragment? r).isSome = true := by
  rw [refsOf, List.mem_map, isSome_fragment?_iff]
  constructor
  · rintro ⟨k, hk, rfl⟩
    exact ⟨rfl, hk⟩
  · rintro ⟨rfl, hk⟩
    exact ⟨r.key, hk, rfl⟩

/-- A run of modifiers gives a turn to every node of every alias that they are for. -/
theorem runModifiers_eq (f : Forest) (ms : List (String × List Action))
    (hms : ∀ m ∈ ms, m.1 ∈ f.nodes.keys) :
    f.runModifiers ms =
      f.takeTurns (ms.flatMap fun m => (f.refsOf m.1).map fun r => ⟨r, m.2⟩) := by
  induction ms generalizing f with
  | nil => rfl
  | cons m ms ih =>
    obtain ⟨a, actions⟩ := m
    have ha : f.nodes.contains a = true :=
      OrderedMap.contains_iff_mem_keys.2 (hms _ List.mem_cons_self)
    rw [List.flatMap_cons, takeTurns_append, runModifiers, if_pos ha, runNodes_eq]
    rcases hrun : f.takeTurns ((f.refsOf a).map fun r => ⟨r, actions⟩) with ⟨calls, fault | f'⟩
    · rfl
    · have hchanged := changedAt_takeTurns (fun t ht => ?_) hrun
      · have hrest := ih f' fun m hm => by
          rw [hchanged.aliases_eq]
          exact hms m (List.mem_cons_of_mem _ hm)
        simp only [andThen, hrest, hchanged.refsOf_eq]
      · obtain ⟨r, hr, rfl⟩ := List.mem_map.1 ht
        exact (mem_refsOf_iff.1 hr).2

/-! ## What a turn finds -/

/-- What some turns make of a forest, as the next one finds it. -/
structure Finds (f : Forest) (before : List Turn) (s : Forest) : Prop where
  /-- a node that had no turn is as it was -/
  untouched : ∀ r, r ∉ before.map Turn.node → s.fragment? r = f.fragment? r
  /-- a node that had its turn is as this turn left it -/
  touched : ∀ earlier t later, before = earlier ++ t :: later →
    ∃ calls s₁ more s₂, f.takeTurns earlier = (calls, .ok s₁) ∧
      s₁.runActions t.node t.actions = (more, .ok s₂) ∧ s.fragment? t.node = s₂.fragment? t.node

/-- If every node has one turn, what a turn does to its node stays. -/
theorem finds_of_takeTurns {before : List Turn}
    (hbefore : ∀ t ∈ before, (f.fragment? t.node).isSome = true)
    (hnodup : (before.map Turn.node).Nodup) (h : f.takeTurns before = (calls, .ok s)) :
    f.Finds before s where
  untouched := (changedAt_takeTurns hbefore h).fragment?_eq
  touched := by
    rintro earlier t later rfl
    rw [takeTurns_append] at h
    obtain ⟨calls₁, s₁, calls₂, hearlier, hrest, -⟩ := andThen_eq_ok_iff.1 h
    obtain ⟨more, s₂, calls₃, hturn, hlater, -⟩ := andThen_eq_ok_iff.1 hrest
    refine ⟨calls₁, s₁, more, s₂, hearlier, hturn, ?_⟩
    have hfirst := changedAt_takeTurns
      (fun u hu => hbefore u (List.mem_append_left _ hu)) hearlier
    have hsome : ∀ u ∈ t :: later, (s₁.fragment? u.node).isSome = true := by
      intro u hu
      rw [hfirst.isSome_eq]
      exact hbefore u (List.mem_append_right _ hu)
    have hsecond := changedAt_runActions (hsome t List.mem_cons_self) hturn
    have hthird := changedAt_takeTurns (fun u hu => by
      rw [hsecond.isSome_eq]
      exact hsome u (List.mem_cons_of_mem t hu)) hlater
    rw [List.map_append, List.map_cons, List.nodup_append] at hnodup
    exact hthird.fragment?_eq t.node (List.nodup_cons.1 hnodup.2.1).1

/-! ## Where a turn is not seen -/

/-- An entity that does not lead to the changed node is the same as before. -/
theorem ChangedAt.entity_eq {r : NodeRef} (h : ChangedAt [r] f f') {q : NodeRef}
    (hq : ¬Relation.ReflTransGen f.RefersTo q r) : f'.entity q = f.entity q := by
  have hdepth : f'.depth = f.depth := by
    have hlength := congrArg List.length h.aliases_eq
    rwa [OrderedMap.keys, OrderedMap.keys, List.length_map, List.length_map] at hlength
  have hshared : ∀ p, ¬Relation.ReflTransGen f.RefersTo p r → f'.fragment? p = f.fragment? p := by
    refine fun p hp => h.fragment?_eq p fun hm => hp ?_
    rw [List.mem_singleton.1 hm]
  rw [entity, readContent, hdepth]
  refine read_congr hshared (fun p p' hp href hreach => hp (.head href hreach)) f.depth ?_
  intro q' hq'
  rw [List.mem_singleton.1 hq']
  exact hq

end Forest

end NestedJoin
