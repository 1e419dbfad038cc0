import NestedJoin.Proofs.BuilderRuns
import NestedJoin.Proofs.Stepping
set_option autoImplicit false

/-!
# Reading entities

The references in a forest lead from the alias of a parent to that of a child, which stands
after it.  So following them ends, and the depth to which a forest is read is enough: a node
reads as its fields and what its containers refer to, whatever it hangs from itself.

Main statement: `Forest.LeadsDown.entity_eq`.
-/

namespace NestedJoin

namespace Forest

/-- The nodes of a forest have some aliases, and references lead to later ones of these. -/
def LeadsDown (aliases : List String) : Forest → Prop :=
  Confined (fun r => r.aliasName ∈ aliases) fun p r =>
    r.aliasName ∈ aliases ∧ aliases.idxOf p.aliasName < aliases.idxOf r.aliasName

theorem entriesWith_congr {read read' : Content → Value} {fragment : Fragment}
    (h : ∀ name content, fragment.get? name = some content → read content = read' content) :
    entriesWith read fragment = entriesWith read' fragment := by
  refine List.map_congr_left fun p hp => ?_
  rw [h p.1 p.2 (OrderedMap.get?_eq_some_iff.2 hp)]

/-- Two forests read alike from nodes that they share and whose references lead to such nodes. -/
theorem read_congr {f f' : Forest} {shared : NodeRef → Prop}
    (hshared : ∀ r, shared r → f'.fragment? r = f.fragment? r)
    (hrefs : ∀ p r, shared p → f.RefersTo p r → shared r) (depth : Nat) {content : Content}
    (hc : ∀ r ∈ content.refs, shared r) : f'.read depth content = f.read depth content := by
  induction depth generalizing content with
  | zero => cases content <;> rfl
  | succ depth ih =>
    have hnode : ∀ r ∈ content.refs,
        entriesWith (f'.read depth) ((f'.fragment? r).getD .empty) =
          entriesWith (f.read depth) ((f.fragment? r).getD .empty) := by
      intro r hr
      rw [hshared r (hc r hr)]
      cases hf : f.fragment? r with
      | none => rfl
      | some fragment =>
        refine entriesWith_congr fun name content' hget => ih fun r' hr' => ?_
        exact hrefs r r' (hc r hr) ⟨fragment, name, content', hf, hget, hr'⟩
    cases content with
    | data v => rfl
    | one r => exact congrArg Value.dict (hnode r List.mem_cons_self)
    | many rs =>
      exact congrArg Value.list (List.map_congr_left fun r hr => congrArg Value.dict (hnode r hr))

/-- A forest with nodes is read to the number of its aliases. -/
theorem exists_readContent_eq {f : Forest} {aliases : List String} (h : f.nodes.keys = aliases)
    {a : String} (ha : a ∈ aliases) :
    ∃ n, aliases.length = n + 1 ∧ f.readContent = f.read (n + 1) := by
  obtain ⟨n, hn⟩ : ∃ n, aliases.length = n + 1 :=
    Nat.exists_eq_succ_of_ne_zero (Nat.ne_of_gt (List.length_pos_of_mem ha))
  have hdepth : f.depth = n + 1 := by
    rw [← hn, ← h, depth, OrderedMap.size, OrderedMap.keys, List.length_map]
  exact ⟨n, hn, funext fun c => by rw [readContent, hdepth]⟩

/-- A list of references reads as the entities of the nodes. -/
theorem readContent_many {f : Forest} {aliases : List String} (h : f.nodes.keys = aliases)
    {rs : List NodeRef} (hrs : ∀ r ∈ rs, r.aliasName ∈ aliases) :
    f.readContent (.many rs) = .list (rs.map f.entity) := by
  cases rs with
  | nil =>
    unfold readContent
    cases f.depth <;> rfl
  | cons r rs =>
    obtain ⟨n, -, hread⟩ := exists_readContent_eq h (hrs r List.mem_cons_self)
    have hentity : f.entity = fun r => f.read (n + 1) (.one r) :=
      funext fun r => by rw [entity, hread]
    rw [hread, hentity]
    rfl

namespace LeadsDown

variable {aliases : List String} {f : Forest}

/-- Reading one level deeper makes no difference once every alias that is left is reached. -/
theorem read_succ (h : f.LeadsDown aliases) {depth : Nat} {content : Content}
    (hc : ∀ r ∈ content.refs,
      r.aliasName ∈ aliases ∧ aliases.length ≤ depth + aliases.idxOf r.aliasName) :
    f.read (depth + 1) content = f.read depth content := by
  induction depth generalizing content with
  | zero =>
    have hnone : content.refs = [] := by
      refine List.eq_nil_iff_forall_not_mem.2 fun r hr => ?_
      have hlt := List.idxOf_lt_length_of_mem (hc r hr).1
      have hle := (hc r hr).2
      omega
    cases content with
    | data v => rfl
    | one r => cases hnone
    | many rs =>
      obtain rfl : rs = [] := hnone
      rfl
  | succ depth ih =>
    have hnode : ∀ r ∈ content.refs,
        entriesWith (f.read (depth + 1)) ((f.fragment? r).getD .empty) =
          entriesWith (f.read depth) ((f.fragment? r).getD .empty) := by
      intro r hr
      cases hf : f.fragment? r with
      | none => rfl
      | some fragment =>
        refine entriesWith_congr fun name content' hget => ih fun r' hr' => ?_
        obtain ⟨hmem, hlt⟩ := h.link r r' ⟨fragment, name, content', hf, hget, hr'⟩
        have hle := (hc r hr).2
        exact ⟨hmem, by omega⟩
    cases content with
    | data v => rfl
    | one r => exact congrArg Value.dict (hnode r List.mem_cons_self)
    | many rs =>
      exact congrArg Value.list (List.map_congr_left fun r hr => congrArg Value.dict (hnode r hr))

variable (h : f.LeadsDown aliases) (haliases : f.nodes.keys = aliases)

include h haliases

/-- A node reads as what its fragment holds, read as deep as the node itself. -/
theorem entity_eq {r : NodeRef} (hr : r.aliasName ∈ aliases) {fragment : Fragment}
    (hf : f.fragment? r = some fragment) :
    f.entity r = .dict (entriesWith f.readContent fragment) := by
  obtain ⟨n, hn, hread⟩ := exists_readContent_eq haliases hr
  show f.readContent (.one r) = _
  rw [hread]
  show Value.dict (entriesWith (f.read n) ((f.fragment? r).getD .empty)) = _
  rw [hf, Option.getD_some]
  refine congrArg Value.dict (entriesWith_congr fun name content hget => ?_)
  refine (h.read_succ fun r' hr' => ?_).symm
  obtain ⟨hmem, hlt⟩ := h.link r r' ⟨fragment, name, content, hf, hget, hr'⟩
  exact ⟨hmem, by omega⟩

/-- What a container holds under a name is read under this name. -/
theorem mem_entity {r : NodeRef} (hr : r.aliasName ∈ aliases) {fragment : Fragment}
    (hf : f.fragment? r = some fragment) :
    ∃ entries, f.entity r = .dict entries ∧ (entries.map Prod.fst).Nodup ∧
      ∀ name content, fragment.get? name = some content →
        (Value.str name, f.readContent content) ∈ entries := by
  refine ⟨_, h.entity_eq haliases hr hf, ?_, ?_⟩
  · rw [entriesWith, List.map_map]
    have hkeys := fragment.nodup_keys.map (f := Value.str) fun a b hab => Value.str.inj hab
    rw [List.map_map] at hkeys
    exact hkeys
  · intro name content hget
    exact List.mem_map.2 ⟨(name, content), OrderedMap.get?_eq_some_iff.1 hget, rfl⟩

end LeadsDown

end Forest

namespace Graph

/-- The forest that rows make of a coherent graph leads down. -/
theorem Coherent.leadsDown_forestOf {g : Graph} (hg : g.Coherent) {chains : KeyChains}
    {rows : List Row} {f : Forest} (h : g.forestOf chains rows = .ok f) :
    f.LeadsDown g.aliases := by
  refine confined_forestOf (fun _ _ _ hv _ _ _ => hg.alias_mem hv) ?_ h
  intro row _ v hv _ key e k _ he _ _
  obtain ⟨hmem, rfl⟩ := (hg.edge?_eq_some_iff hv).1 he
  exact ⟨hg.alias_mem hv, hg.isRootedTree.parent_first e hmem⟩

end Graph

end NestedJoin
