import NestedJoin.Proofs.BuilderRuns
set_option autoImplicit false

/-!
# References to joined tables

A reference finds a table if the table stands among the parts of what a statement reads from.
An inner or left join adds a part.  A right join puts what was joined before it into brackets,
which are one nameless part, so that none of it is found any more; only a lone root needs no
brackets and stays.

Main statements: `Graph.Covers.joinLeaf` and `Graph.Covers.resolve_eq_ok_iff`.
-/

namespace NestedJoin

open Sql

namespace Source

variable {γ : Type}

/-! ## Splitting references -/

/-- A reference splits at its first point. -/
theorem splitReference?_eq_some_iff {ref owner column : String} :
    splitReference? ref = some (owner, column) ↔
      ref = owner ++ "." ++ column ∧ '.' ∉ owner.toList := by
  have hpoint : ".".toList = ['.'] := rfl
  simp only [splitReference?]
  constructor
  · intro h
    split at h
    · cases h
    · next c rest hdrop =>
      have hsplit := List.takeWhile_append_dropWhile (p := (· != '.')) (l := ref.toList)
      have hc : c = '.' := by
        have hhead := List.head?_dropWhile_not (· != '.') ref.toList
        rw [hdrop] at hhead
        simpa using hhead
      obtain ⟨howner, hcolumn⟩ := Prod.mk.inj (Option.some.inj h)
      subst howner hcolumn
      constructor
      · rw [hdrop, hc] at hsplit
        rw [← String.toList_inj, String.toList_append, String.toList_append, hpoint,
          String.toList_ofList, String.toList_ofList, List.append_assoc, List.singleton_append,
          hsplit]
      · rw [String.toList_ofList]
        intro hm
        have hne := List.all_eq_true.1 (List.all_takeWhile (p := (· != '.'))) '.' hm
        exact absurd rfl (bne_iff_ne.1 hne)
  · rintro ⟨rfl, hnot⟩
    have hpass : ∀ x ∈ owner.toList, (x != '.') = true := by
      intro x hx
      rw [bne_iff_ne]
      rintro rfl
      exact hnot hx
    have hlist : (owner ++ "." ++ column).toList = owner.toList ++ '.' :: column.toList := by
      rw [String.toList_append, String.toList_append, hpoint, List.append_assoc,
        List.singleton_append]
    rw [hlist, List.dropWhile_append_of_pos hpass, List.takeWhile_append_of_pos hpass]
    simp [String.ofList_toList]

/-! ## Finding parts -/

theorem findNamed?_eq_some {s p : Source γ} {n : String} (h : s.findNamed? n = some p) :
    p ∈ s.parts ∧ p.name? = some n := by
  induction s with
  | join l r o c ihl ihr =>
    rw [findNamed?, Option.or_eq_some_iff] at h
    rcases h with h | ⟨-, h⟩
    · exact ⟨List.mem_append_right _ (ihr h).1, (ihr h).2⟩
    · exact ⟨List.mem_append_left _ (ihl h).1, (ihl h).2⟩
  | _ =>
    rw [findNamed?] at h
    · split at h
      · next hn =>
        obtain rfl := Option.some.inj h
        exact ⟨List.mem_singleton.2 rfl, hn⟩
      · cases h
    · intro l r o c q
      cases q

theorem exists_findNamed? {s p : Source γ} {n : String} (hp : p ∈ s.parts)
    (hn : p.name? = some n) : ∃ q, s.findNamed? n = some q := by
  induction s with
  | join l r o c ihl ihr =>
    unfold findNamed?
    cases hr : r.findNamed? n with
    | some q => exact ⟨q, rfl⟩
    | none =>
      rcases List.mem_append.1 hp with hp | hp
      · exact ihl hp
      · obtain ⟨q, hq⟩ := ihr hp
        rw [hr] at hq
        cases hq
  | _ =>
    rw [findNamed?]
    · obtain rfl := List.mem_singleton.1 hp
      exact ⟨_, if_pos hn⟩
    · intro l r o c q
      cases q

theorem findInRoots?_singleton (s : Source γ) (n : String) :
    findInRoots? [s] n = s.findNamed? n := by
  rw [findInRoots?, List.findSome?_cons, List.findSome?_nil]
  cases s.findNamed? n <;> rfl

/-! ## What a lookup says when it fails -/

/-- A reference has no point, or its alias or its column is not there. -/
def LookupFault (ref : String) (f : Fault) : Prop :=
  f = .malformedReference ref ∨ (∃ a known, f = .aliasNotFound a known) ∨
    ∃ column a known, f = .columnNotFound column a known

theorem resolve_error {roots : List (Source γ)} {ref : String} {f : Fault}
    (h : resolve roots ref = .error f) : LookupFault ref f := by
  unfold resolve at h
  split at h
  · cases h
    exact Or.inl rfl
  · split at h
    · cases h
      exact Or.inr (Or.inl ⟨_, _, rfl⟩)
    · split at h
      · cases h
      · cases h
        exact Or.inr (Or.inr ⟨_, _, _, rfl⟩)

end Source

namespace Graph

/-! ## What joins leave to be found -/

/-- A vertex is hidden by a later right join that is not the first join. -/
def HiddenAlong (start : List Vertex) (es : List Edge) (v : Vertex) : Prop :=
  ∃ before e after, es = before ++ e :: after ∧ before ≠ [] ∧ e.joinType = .right ∧
    v ∈ start ++ before.map Edge.child

/-- A table of a graph is hidden in the graph's statement. -/
def IsHidden (g : Graph) : Vertex → Prop := HiddenAlong g.root.toList g.edges

theorem not_hiddenAlong_nil {start : List Vertex} {v : Vertex} : ¬HiddenAlong start [] v := by
  rintro ⟨before, e, after, hs, -⟩
  cases before <;> cases hs

theorem hiddenAlong_concat_iff {start : List Vertex} {es : List Edge} {e : Edge} {v : Vertex} :
    HiddenAlong start (es ++ [e]) v ↔ HiddenAlong start es v ∨
      (es ≠ [] ∧ e.joinType = .right ∧ v ∈ start ++ es.map Edge.child) := by
  constructor
  · rintro ⟨before, f, after, hs, hne, hright, hv⟩
    rcases split_of_concat_eq hs with ⟨rfl, rfl, rfl⟩ | ⟨rest, rfl, rfl⟩
    · exact Or.inr ⟨hne, hright, hv⟩
    · exact Or.inl ⟨before, f, rest, rfl, hne, hright, hv⟩
  · rintro (⟨before, f, after, rfl, hne, hright, hv⟩ | ⟨hne, hright, hv⟩)
    · exact ⟨before, f, after ++ [e], by simp, hne, hright, hv⟩
    · exact ⟨es, e, [], rfl, hne, hright, hv⟩

theorem HiddenAlong.mem {start : List Vertex} {es : List Edge} {v : Vertex}
    (h : HiddenAlong start es v) : v ∈ start ++ es.map Edge.child := by
  obtain ⟨before, e, after, rfl, -, -, hv⟩ := h
  rw [List.map_append, ← List.append_assoc]
  exact List.mem_append_left _ hv

/-- Tables are hidden exactly if a join other than the first is a right join. -/
theorem exists_isHidden_iff {g : Graph} (hg : g.Coherent) :
    (∃ v ∈ g.vertices, g.IsHidden v) ↔ ∃ e ∈ g.edges.tail, e.joinType = .right := by
  constructor
  · rintro ⟨v, -, before, e, after, hs, hne, hright, -⟩
    refine ⟨e, ?_, hright⟩
    rw [hs, List.tail_append_of_ne_nil hne]
    exact List.mem_append_right _ List.mem_cons_self
  · rintro ⟨e, he, hright⟩
    obtain ⟨before, after, hs⟩ := List.append_of_mem he
    cases hedges : g.edges with
    | nil =>
      rw [hedges] at he
      cases he
    | cons first rest =>
      rw [hedges, List.tail_cons] at hs
      have hm : first.child ∈ g.root.toList ++ (first :: before).map Edge.child :=
        List.mem_append_right _ List.mem_cons_self
      refine ⟨first.child, ?_, first :: before, e, after, ?_, List.cons_ne_nil _ _, hright, hm⟩
      · rw [hg.vertices_eq, hedges]
        exact List.mem_append_right _ List.mem_cons_self
      · rw [hedges, hs]
        rfl

/-- What a statement reads from shows the tables that are not hidden, and apart from them only
parts without a name. -/
structure Covers (root : Vertex) (es : List Edge) (source : Source OnClause) : Prop where
  leaf_mem_iff : ∀ v ∈ root :: es.map Edge.child,
    leaf v ∈ source.parts ↔ ¬HiddenAlong [root] es v
  parts_of : ∀ p ∈ source.parts, (∃ v ∈ root :: es.map Edge.child, p = leaf v) ∨ p.name? = none
  eq_leaf : es = [] → source = leaf root
  eq_join : es ≠ [] → ∃ l r outer on, source = .join l r outer on

theorem aliasName_of_leaf_eq {v w : Vertex} (h : leaf v = leaf w) : v.aliasName = w.aliasName :=
  (Source.aliased.inj h).1

namespace Covers

theorem of_root (root : Vertex) : Covers root [] (leaf root) where
  leaf_mem_iff := by
    intro v hv
    obtain rfl := List.mem_singleton.1 hv
    exact iff_of_true (List.mem_singleton.2 rfl) not_hiddenAlong_nil
  parts_of := fun p hp => Or.inl ⟨root, List.mem_cons_self, List.mem_singleton.1 hp⟩
  eq_leaf := fun _ => rfl
  eq_join := fun h => absurd rfl h

section Step

variable {root : Vertex} {es : List Edge} {source : Source OnClause} {e : Edge}

theorem leaf_ne_child (hnew : e.aliasName ∉ (root :: es.map Edge.child).map Vertex.aliasName)
    {v : Vertex} (hv : v ∈ root :: es.map Edge.child) : leaf v ≠ leaf e.child := by
  intro q
  apply hnew
  rw [show e.aliasName = e.child.aliasName from rfl, ← aliasName_of_leaf_eq q]
  exact List.mem_map_of_mem hv

theorem not_hiddenAlong_child
    (hnew : e.aliasName ∉ (root :: es.map Edge.child).map Vertex.aliasName) :
    ¬HiddenAlong [root] (es ++ [e]) e.child := by
  have hnot : e.child ∉ root :: es.map Edge.child := fun hm =>
    hnew (List.mem_map_of_mem (f := Vertex.aliasName) hm)
  rw [hiddenAlong_concat_iff]
  rintro (h | ⟨-, -, h⟩)
  · exact hnot h.mem
  · exact hnot h

/-- An inner or left join adds the joined table. -/
theorem join (h : Covers root es source)
    (hnew : e.aliasName ∉ (root :: es.map Edge.child).map Vertex.aliasName)
    (hright : e.joinType ≠ .right) (outer : Bool) (on : OnClause) :
    Covers root (es ++ [e]) (.join source (leaf e.child) outer on) where
  leaf_mem_iff := by
    intro v hv
    rw [List.map_append, ← List.cons_append, List.mem_append] at hv
    rcases hv with hv | hv
    · have hsame : HiddenAlong [root] (es ++ [e]) v ↔ HiddenAlong [root] es v := by
        rw [hiddenAlong_concat_iff, or_iff_left]
        exact fun q => hright q.2.1
      rw [hsame, ← h.leaf_mem_iff v hv]
      show leaf v ∈ source.parts ++ [leaf e.child] ↔ _
      rw [List.mem_append, List.mem_singleton, or_iff_left (leaf_ne_child hnew hv)]
    · obtain rfl := List.mem_singleton.1 hv
      exact iff_of_true (List.mem_append_right _ (List.mem_singleton.2 rfl))
        (not_hiddenAlong_child hnew)
  parts_of := by
    intro p hp
    rw [List.map_append, ← List.cons_append]
    rcases List.mem_append.1 hp with hp | hp
    · rcases h.parts_of p hp with ⟨v, hv, rfl⟩ | hname
      · exact Or.inl ⟨v, List.mem_append_left _ hv, rfl⟩
      · exact Or.inr hname
    · obtain rfl := List.mem_singleton.1 hp
      exact Or.inl ⟨e.child, List.mem_append_right _ (List.mem_singleton.2 rfl), rfl⟩
  eq_leaf := fun q => absurd q (List.append_ne_nil_of_right_ne_nil es (List.cons_ne_nil e []))
  eq_join := fun _ => ⟨_, _, _, _, rfl⟩

/-- A right join hides what was joined before; a lone root is not hidden. -/
theorem joinRight (h : Covers root es source)
    (hnew : e.aliasName ∉ (root :: es.map Edge.child).map Vertex.aliasName)
    (hright : e.joinType = .right) (on : OnClause) :
    Covers root (es ++ [e]) (.join (leaf e.child) source.bracketed true on) where
  leaf_mem_iff := by
    intro v hv
    show leaf v ∈ leaf e.child :: source.bracketed.parts ↔ _
    rw [List.mem_cons]
    rw [List.map_append, ← List.cons_append, List.mem_append] at hv
    rcases hv with hv | hv
    · rw [or_iff_right (leaf_ne_child hnew hv), hiddenAlong_concat_iff]
      by_cases hes : es = []
      · subst hes
        obtain rfl := List.mem_singleton.1 hv
        rw [h.eq_leaf rfl]
        refine iff_of_true (List.mem_singleton.2 rfl) ?_
        rintro (q | ⟨q, -⟩)
        · exact not_hiddenAlong_nil q
        · exact q rfl
      · obtain ⟨l, r, outer, on', rfl⟩ := h.eq_join hes
        refine iff_of_false ?_ fun q => q (Or.inr ⟨hes, hright, hv⟩)
        intro q
        cases List.mem_singleton.1 q
    · obtain rfl := List.mem_singleton.1 hv
      exact iff_of_true (Or.inl rfl) (not_hiddenAlong_child hnew)
  parts_of := by
    intro p hp
    rw [List.map_append, ← List.cons_append]
    rcases List.mem_cons.1 hp with rfl | hp
    · exact Or.inl ⟨e.child, List.mem_append_right _ (List.mem_singleton.2 rfl), rfl⟩
    · by_cases hes : es = []
      · rw [h.eq_leaf hes] at hp
        obtain rfl := List.mem_singleton.1 hp
        exact Or.inl ⟨root, List.mem_append_left _ List.mem_cons_self, rfl⟩
      · obtain ⟨l, r, outer, on', rfl⟩ := h.eq_join hes
        obtain rfl := List.mem_singleton.1 hp
        exact Or.inr rfl
  eq_leaf := fun q => absurd q (List.append_ne_nil_of_right_ne_nil es (List.cons_ne_nil e []))
  eq_join := fun _ => ⟨_, _, _, _, rfl⟩

theorem joinLeaf (h : Covers root es source)
    (hnew : e.aliasName ∉ (root :: es.map Edge.child).map Vertex.aliasName) (on : OnClause) :
    Covers root (es ++ [e]) (Graph.joinLeaf source (leaf e.child) e.joinType on) := by
  cases ht : e.joinType with
  | inner => exact h.join hnew (by rw [ht]; exact JoinType.noConfusion) false on
  | left => exact h.join hnew (by rw [ht]; exact JoinType.noConfusion) true on
  | right => exact h.joinRight hnew ht on

end Step

section Lookup

variable {g : Graph} {root : Vertex} {source : Source OnClause}

/-- What is found under a name is the table of that alias, unless it is hidden. -/
theorem findNamed?_eq_some_iff (h : Covers root g.edges source) (hg : g.Coherent)
    (hroot : g.root = some root) {n : String} {p : Source OnClause} :
    source.findNamed? n = some p ↔
      ∃ v ∈ g.vertices, ¬g.IsHidden v ∧ v.aliasName = n ∧ p = leaf v := by
  have hvertices := hg.vertices_eq_cons hroot
  have hshown : ∀ v ∈ g.vertices, leaf v ∈ source.parts ↔ ¬g.IsHidden v := by
    intro v hv
    rw [IsHidden, hroot]
    exact h.leaf_mem_iff v (hvertices ▸ hv)
  have hfound : ∀ q, source.findNamed? n = some q →
      ∃ v ∈ g.vertices, ¬g.IsHidden v ∧ v.aliasName = n ∧ q = leaf v := by
    intro q hq
    obtain ⟨hpart, hname⟩ := Source.findNamed?_eq_some hq
    rcases h.parts_of q hpart with ⟨v, hv, rfl⟩ | hnone
    · rw [← hvertices] at hv
      exact ⟨v, hv, (hshown v hv).1 hpart, Option.some.inj hname, rfl⟩
    · rw [hnone] at hname
      cases hname
  constructor
  · exact hfound p
  · rintro ⟨v, hv, hnot, rfl, rfl⟩
    obtain ⟨q, hq⟩ := Source.exists_findNamed? ((hshown v hv).2 hnot) (n := v.aliasName) rfl
    obtain ⟨w, hw, -, ha, rfl⟩ := hfound q hq
    obtain rfl := hg.eq_of_aliasName hw hv ha
    exact hq

/-- A reference is looked up among the tables that are not hidden. -/
theorem resolve_eq_ok_iff (h : Covers root g.edges source) (hg : g.Coherent)
    (hroot : g.root = some root) {ref : String} {c : ColumnRef} :
    Source.resolve [source] ref = .ok c ↔ ∃ v ∈ g.vertices, ¬g.IsHidden v ∧
      ∃ f ∈ v.table.fields, Source.splitReference? ref = some (v.aliasName, f) ∧
        c = ⟨v.aliasName, f⟩ := by
  unfold Source.resolve
  constructor
  · intro hr
    split at hr
    · cases hr
    · next owner column hsplit =>
      rw [Source.findInRoots?_singleton] at hr
      split at hr
      · cases hr
      · next p hp =>
        obtain ⟨v, hv, hnot, rfl, rfl⟩ := (h.findNamed?_eq_some_iff hg hroot).1 hp
        split at hr
        · next hcolumn =>
          cases hr
          exact ⟨v, hv, hnot, column, hcolumn, hsplit, rfl⟩
        · cases hr
  · rintro ⟨v, hv, hnot, f, hf, hsplit, rfl⟩
    have hp := (h.findNamed?_eq_some_iff hg hroot).2 ⟨v, hv, hnot, rfl, rfl⟩
    rw [hsplit]
    simp only [Source.findInRoots?_singleton, hp]
    exact if_pos hf

/-- A reference to a hidden table finds no table. -/
theorem resolve_of_isHidden (h : Covers root g.edges source) (hg : g.Coherent)
    (hroot : g.root = some root) {ref f : String} {v : Vertex} (hv : v ∈ g.vertices)
    (hhidden : g.IsHidden v) (hsplit : Source.splitReference? ref = some (v.aliasName, f)) :
    Source.resolve [source] ref =
      .error (.aliasNotFound v.aliasName (Source.allAliasNames [source])) := by
  have hnone : source.findNamed? v.aliasName = none := by
    rw [Option.eq_none_iff_forall_ne_some]
    intro p hp
    obtain ⟨w, hw, hnot, ha, -⟩ := (h.findNamed?_eq_some_iff hg hroot).1 hp
    obtain rfl := hg.eq_of_aliasName hw hv ha
    exact hnot hhidden
  rw [Source.resolve, hsplit]
  simp only [Source.findInRoots?_singleton, hnone]

end Lookup

end Covers

end Graph

end NestedJoin
