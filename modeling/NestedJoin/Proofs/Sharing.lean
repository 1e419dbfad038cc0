import NestedJoin.Proofs.Decoding
import NestedJoin.Proofs.Lossless
set_option autoImplicit false

/-!
# Containers that a list and a single entity share

Nothing keeps an edge for a list and an edge for a single entity from sharing a container of one
parent.  The one appends to what the container holds, the other writes over it, so a list that
comes after a single entity finds nothing to append to.  That is the only way in which complete
rows can fail; and it is open in every graph with two such edges: a row with the single child and
one with the child for the list are enough.

Main statements: `Graph.Grown.forestOf_fails_only`, `Graph.Grown.forestOf_rivals` and
`Session.materialize_succeeds_iff`.
-/

namespace NestedJoin

/-! ## Folds that know one fault -/

/-- A result is of some sort or is one fault. -/
def FailsOnly {β : Type} (fault : Fault) (sort : β → Prop) : Except Fault β → Prop
  | .error f => f = fault
  | .ok s => sort s

theorem failsOnly_foldlM {α β : Type} {step : β → α → Except Fault β} {fault : Fault}
    {sort : β → Prop} {xs : List α}
    (hstep : ∀ x ∈ xs, ∀ s, sort s → FailsOnly fault sort (step s x)) {s : β} (hs : sort s) :
    FailsOnly fault sort (xs.foldlM step s) := by
  induction xs generalizing s with
  | nil => exact hs
  | cons x xs ih =>
    have hx := hstep x List.mem_cons_self s hs
    rw [List.foldlM_cons]
    cases hnext : step s x with
    | error f =>
      rw [hnext] at hx
      exact hx
    | ok next =>
      rw [hnext] at hx
      exact ih (fun y hy => hstep y (List.mem_cons_of_mem x hy)) hx

/-- A fold that succeeds has taken its first element. -/
theorem exists_of_foldlM_cons {α β : Type} {step : β → α → Except Fault β} {x : α} {xs : List α}
    {s s' : β} (h : (x :: xs).foldlM step s = .ok s') :
    ∃ next, step s x = .ok next ∧ xs.foldlM step next = .ok s' := by
  rw [List.foldlM_cons] at h
  cases hnext : step s x with
  | error f =>
    rw [hnext] at h
    cases h
  | ok next =>
    rw [hnext] at h
    exact ⟨next, rfl, h⟩

namespace Graph

variable {g : Graph} {chains : KeyChains} {f f' : Forest}

/-- A row holds something in every column of every table that can be part of a key; null can. -/
def Hashable (g : Graph) (row : Row) : Prop :=
  ∀ v ∈ g.vertices, ∀ field ∈ v.table.fields,
    (row.get? (v.table.column field)).any Value.isScalar = true

instance (g : Graph) (row : Row) : Decidable (g.Hashable row) :=
  inferInstanceAs (Decidable (∀ v ∈ g.vertices, ∀ field ∈ v.table.fields, _))

/-- A row that holds every column has the key of every table. -/
theorem Hashable.keyed {row : Row} (h : g.Hashable row) : g.Keyed row := by
  intro v _ _ c hc
  obtain ⟨w, hw, hkey⟩ := exists_of_mem_chainOf hc
  obtain ⟨field, hfield, rfl⟩ := List.mem_map.1 (Table.mem_columns_of_mem_keyColumns hkey)
  exact h w hw field hfield

/-! ## Containers exist -/

/-- Every node has the containers of the edges onto its table. -/
def Slotted (g : Graph) (f : Forest) : Prop :=
  ∀ e ∈ g.edges, ∀ k fragment, f.fragment? ⟨e.parentAlias, k⟩ = some fragment →
    (fragment.get? e.container).isSome = true

theorem exists_fragmentOf_container (hg : g.Grown) {e : Edge} (he : e ∈ g.edges) (row : Row) :
    ((g.fragmentOf e.parent row).get? e.container).isSome = true := by
  have hinto := (hg.mem_edgesInto_iff (hg.parent_mem he)).2 ⟨he, rfl⟩
  have hgiven : e.container ∈ ((g.edgesInto e.parent.aliasName).map fun e =>
      (e.container, e.emptyContent)).map Prod.fst := by
    rw [List.map_map]
    exact List.mem_map_of_mem hinto
  rw [fragmentOf_eq_insertAll]
  obtain ⟨content, -, hget⟩ := OrderedMap.exists_get?_insertAll hgiven
  rw [hget]
  rfl

theorem Slotted.file (hs : g.Slotted f) (hg : g.Grown) {v : Vertex} (hv : v ∈ g.vertices)
    (key : NodeKey) (row : Row) : g.Slotted (f.file ⟨v.aliasName, key⟩ (g.fragmentOf v row)) := by
  intro e he k fragment hf
  unfold Forest.file at hf
  split at hf
  · exact hs e he k fragment hf
  · rw [Forest.fragment?_write] at hf
    split at hf
    · next hr =>
      cases hf
      obtain rfl := hg.coherent.eq_of_aliasName (hg.parent_mem he) hv (NodeRef.mk.inj hr).1
      exact exists_fragmentOf_container hg he row
    · exact hs e he k fragment hf

/-- Attaching changes what a container holds, but takes no container away. -/
theorem isSome_get?_attach {e : Edge} {fragment fragment' : Fragment} {child : NodeRef}
    (ha : attach e fragment child = .ok fragment') {name : String}
    (h : (fragment.get? name).isSome = true) : (fragment'.get? name).isSome = true := by
  by_cases hname : name = e.container
  · subst hname
    obtain ⟨-, rfl⟩ | ⟨rs, -, -, rfl⟩ := attach_cases ha <;>
      rw [OrderedMap.get?_insert_self] <;> rfl
  · rwa [get?_attach_of_ne ha hname]

/-- Where every node has its containers, attaching fails in one way only. -/
theorem attach_failsOnly (hg : g.Grown) {e : Edge} (he : e ∈ g.edges) {fragment : Fragment}
    (h : (fragment.get? e.container).isSome = true) (child : NodeRef) :
    FailsOnly .notAppendable (fun _ => True) (attach e fragment child) := by
  obtain ⟨content, hcontent⟩ := Option.isSome_iff_exists.1 h
  unfold attach
  rcases hg.kind_eq e he with hkind | hkind
  · rw [hkind]
    trivial
  · rw [hkind, hcontent]
    cases content with
    | many rs => trivial
    | data x => rfl
    | one r => rfl

theorem Slotted.link (hs : g.Slotted f) (hg : g.Grown) {e : Edge} (he : e ∈ g.edges)
    (k : NodeKey) (child : NodeRef) :
    FailsOnly .notAppendable g.Slotted (link e f ⟨e.parentAlias, k⟩ child) := by
  unfold Graph.link
  split
  · exact hs
  · next fragment hf =>
    dsimp only
    split
    · exact hs
    · have hattach := attach_failsOnly hg he (hs e he k fragment hf) child
      cases ha : attach e fragment child with
      | error fault =>
        rw [ha] at hattach
        exact hattach
      | ok fragment' =>
        intro e' he' k' fragment₀ hf₀
        change (f.write ⟨e.parentAlias, k⟩ fragment').fragment? _ = _ at hf₀
        rw [Forest.fragment?_write] at hf₀
        split at hf₀
        · next hr =>
          cases hf₀
          exact isSome_get?_attach ha (hs e' he' k' fragment (hr ▸ hf))
        · exact hs e' he' k' fragment₀ hf₀

theorem Slotted.consume (hs : g.Slotted f) (hg : g.Grown) (hc : g.IsPrepared chains) {v : Vertex}
    (hv : v ∈ g.vertices) {row : Row} (hrow : g.Keyed row) :
    FailsOnly .notAppendable g.Slotted (g.consume chains row f v) := by
  cases hp : v.table.isPresent row with
  | false =>
    rw [consume_of_absent hp]
    exact hs
  | true =>
    rw [hg.consume_of_present hc hv (hrow v hv hp) hp]
    have hfiled := hs.file hg hv (g.keyIn v row) row
    cases hedge : g.edge? v.aliasName with
    | none => exact hfiled
    | some e => exact hfiled.link hg ((hg.coherent.edge?_eq_some_iff hv).1 hedge).1 _ _

/-- Folding rows that have their keys fails in one way only: a container is not a list. -/
theorem Grown.forestOf_fails_only (hg : g.Grown) (hc : g.IsPrepared chains) {rows : List Row}
    (hrows : ∀ r ∈ rows, g.Keyed r) :
    FailsOnly .notAppendable g.Slotted (g.forestOf chains rows) := by
  have hstart : g.Slotted (Forest.ofAliases g.aliases) := by
    intro e _ k fragment hf
    rw [Forest.fragment?_ofAliases] at hf
    cases hf
  refine failsOnly_foldlM (fun row hrow s hs => ?_) hstart
  exact failsOnly_foldlM (fun v hv s hs => hs.consume hg hc hv (hrows row hrow)) hs

/-! ## Marked rows -/

/-- The row in which each table holds one value in all its columns. -/
def marked (g : Graph) (mark : String → Value) : Row := g.rowWith fun v _ => mark v.aliasName

section Marked

variable {mark mark' : String → Value} {v : Vertex}

theorem Coherent.get?_marked (h : g.Coherent) (mark : String → Value) (hv : v ∈ g.vertices)
    {c : String} (hcol : c ∈ v.table.keyColumns) :
    (g.marked mark).get? c = some (mark v.aliasName) := by
  obtain ⟨field, hfield, rfl⟩ := List.mem_map.1 hcol
  exact h.get?_rowWith _ hv (v.table.primaryKey_subset field hfield)

theorem Coherent.hashable_marked (h : g.Coherent) (hmark : ∀ a, (mark a).isScalar = true) :
    g.Hashable (g.marked mark) := by
  intro v hv field hfield
  rw [marked, h.get?_rowWith _ hv hfield]
  exact hmark v.aliasName

/-- A table is present in a marked row unless its mark is null. -/
theorem Coherent.isPresent_marked (h : g.Coherent) (hv : v ∈ g.vertices) :
    v.table.isPresent (g.marked mark) = true ↔ mark v.aliasName ≠ .null := by
  rw [Table.isPresent, List.any_eq_true]
  constructor
  · rintro ⟨c, hc, hholds⟩ hnull
    rw [Row.holds, h.get?_marked mark hv hc, hnull] at hholds
    cases hholds
  · intro hne
    obtain ⟨field, rest, hkey⟩ := List.exists_cons_of_ne_nil v.table.primaryKey_ne_nil
    have hc : v.table.column field ∈ v.table.keyColumns :=
      List.mem_map_of_mem (hkey ▸ List.mem_cons_self)
    exact ⟨_, hc, Row.holds_of_get? (h.get?_marked mark hv hc) hne⟩

/-- The key of a table in a marked row is told by the marks on the way down to it. -/
theorem Coherent.keyIn_marked (h : g.Coherent)
    (hmark : ∀ a ∈ climb g.edges.reverse v.aliasName, mark a = mark' a) :
    g.keyIn v (g.marked mark) = g.keyIn v (g.marked mark') := by
  refine List.map_congr_left fun c hc => ?_
  obtain ⟨a, ha, hcol⟩ := List.mem_flatMap.1 hc
  unfold keyColumnsOf at hcol
  cases hw : g.find? a with
  | none =>
    rw [hw] at hcol
    cases hcol
  | some w =>
    rw [hw] at hcol
    have hmem : w ∈ g.vertices := OrderedMap.mem_values_of_get? hw
    have halias : w.aliasName = a := h.aliasName_of_find? hw
    rw [h.get?_marked mark hmem hcol, h.get?_marked mark' hmem hcol, halias, hmark a ha]

theorem Coherent.atoms_marked (h : g.Coherent) (hv : v ∈ g.vertices) :
    (g.marked mark).atoms v.table.keyColumns =
      v.table.keyColumns.map fun _ => (mark v.aliasName).atom?.getD .null := by
  refine List.map_congr_left fun c hc => ?_
  rw [h.get?_marked mark hv hc]
  rfl

end Marked

/-- No table that is joined onto an alias is on the way down to it. -/
theorem Coherent.notMem_climb_of_edgesInto (h : g.Coherent) {a b : String} (ha : a ∈ g.aliases)
    (hb : b ∈ climb g.edges.reverse a) : b ∉ (g.edgesInto a).map Edge.aliasName := by
  intro hm
  obtain ⟨e, he, rfl⟩ := List.mem_map.1 hm
  rw [h.edgesInto_eq, List.mem_filter, beq_iff_eq] at he
  have hlater := h.isRootedTree.parent_first e he.1
  have hearlier := h.idxOf_le_of_mem_climb ha hb
  rw [he.2] at hlater
  omega

/-! ## A container that is no list -/

/-- One key only is linked into a container of a node, and if it is, the container is no list. -/
structure Taken (p : NodeRef) (container : String) (own : NodeKey) (f : Forest) : Prop where
  only : ∀ key, ⟨p, container, key⟩ ∈ f.links → key = own
  no_list : ⟨p, container, own⟩ ∈ f.links →
    ∃ fragment, f.fragment? p = some fragment ∧ ∀ rs, fragment.get? container ≠ some (.many rs)

namespace Taken

variable {p : NodeRef} {container : String} {own : NodeKey} {row : Row}

theorem ofAliases (aliases : List String) : Taken p container own (Forest.ofAliases aliases) :=
  ⟨fun _ hm => absurd hm List.not_mem_nil, fun hm => absurd hm List.not_mem_nil⟩

theorem file (h : Taken p container own f) (r : NodeRef) (fragment : Fragment) :
    Taken p container own (f.file r fragment) := by
  unfold Forest.file
  split
  · exact h
  · next hnone =>
    refine ⟨h.only, fun hm => ?_⟩
    obtain ⟨fragment', hf, hlist⟩ := h.no_list hm
    refine ⟨fragment', ?_, hlist⟩
    rw [Forest.fragment?_write, if_neg]
    · exact hf
    · rintro rfl
      rw [hf] at hnone
      cases hnone

/-- What is linked into the container is the one child, or something for a list that comes too
late. -/
theorem link (h : Taken p container own f) {e : Edge} {k key : NodeKey}
    (hedge : e.parentAlias = p.aliasName → e.container = container →
      (e.kind = .single ∧ key = own) ∨ (e.kind = .multiple ∧ ⟨p, container, own⟩ ∈ f.links))
    (hl : Graph.link e f ⟨e.parentAlias, k⟩ ⟨e.aliasName, key⟩ = .ok f') :
    Taken p container own f' := by
  obtain ⟨rfl, -⟩ | ⟨fragment, fragment', hf, -, ha, rfl⟩ := link_cases hl
  · exact h
  have hsingle : ⟨e.parentAlias, k⟩ = p → e.container = container →
      key = own ∧ fragment' = fragment.insert e.container (.one ⟨e.aliasName, key⟩) := by
    rintro rfl rfl
    rcases hedge rfl rfl with ⟨hkind, hown⟩ | ⟨hkind, hm⟩
    · obtain ⟨-, hfragment⟩ | ⟨rs, hkind', -, -⟩ := attach_cases ha
      · exact ⟨hown, hfragment⟩
      · rw [hkind] at hkind'
        cases hkind'
    · obtain ⟨hkind', -⟩ | ⟨rs, -, hlist, -⟩ := attach_cases ha
      · rw [hkind] at hkind'
        cases hkind'
      · obtain ⟨fragment₀, hf₀, hnot⟩ := h.no_list hm
        rw [hf] at hf₀
        cases hf₀
        exact absurd hlist (hnot rs)
  refine ⟨fun key' hm => ?_, fun hm => ?_⟩
  · rcases List.mem_append.1 hm with hm | hm
    · exact h.only key' hm
    · obtain ⟨rfl, rfl, rfl⟩ := Link.mk.inj (List.mem_singleton.1 hm)
      exact (hsingle rfl rfl).1
  · have hwrite := f.fragment?_write ⟨e.parentAlias, k⟩ p fragment'
    by_cases hp : p = ⟨e.parentAlias, k⟩
    · rw [if_pos hp] at hwrite
      refine ⟨fragment', hwrite, fun rs hlist => ?_⟩
      by_cases hc : e.container = container
      · rw [(hsingle hp.symm hc).2, hc, OrderedMap.get?_insert_self] at hlist
        cases hlist
      · rcases List.mem_append.1 hm with hm | hm
        · obtain ⟨fragment₀, hf₀, hnot⟩ := h.no_list hm
          rw [hp, hf] at hf₀
          cases hf₀
          rw [get?_attach_of_ne ha (Ne.symm hc)] at hlist
          exact hnot rs hlist
        · exact hc (Link.mk.inj (List.mem_singleton.1 hm)).2.1.symm
    · rw [if_neg hp] at hwrite
      rcases List.mem_append.1 hm with hm | hm
      · obtain ⟨fragment₀, hf₀, hnot⟩ := h.no_list hm
        exact ⟨fragment₀, hwrite.trans hf₀, hnot⟩
      · exact absurd (Link.mk.inj (List.mem_singleton.1 hm)).1 hp

/-- A row keeps a container from being a list if it brings the one child there, or children for a
list after that. -/
theorem consumeRow (h : Taken p container own f) (hg : g.Grown) (hc : g.IsPrepared chains)
    (hrow : ∀ e ∈ g.edges, e.parentAlias = p.aliasName → e.container = container →
      e.child.table.isPresent row = true → (e.kind = .single ∧ g.keyIn e.child row = own) ∨
        (e.kind = .multiple ∧ ⟨p, container, own⟩ ∈ f.links))
    (hf : g.consumeRow chains f row = .ok f') : Taken p container own f' := by
  suffices hinv : Taken p container own f' ∧ f.Within f' from hinv.1
  refine foldlM_invariant (fun _ s => Taken p container own s ∧ f.Within s) ?_ ⟨h, .refl f⟩ hf
  intro shown v rest hs s s' hinv hconsume
  have hv : v ∈ g.vertices := hs ▸ List.mem_append_right _ List.mem_cons_self
  refine ⟨?_, hinv.2.trans (consume_within hconsume)⟩
  obtain ⟨-, rfl⟩ | ⟨key, hp, hkey, ⟨-, rfl⟩ | ⟨e, k, hedge, -, hl⟩⟩ := consume_cases hconsume
  · exact hinv.1
  · exact hinv.1.file _ _
  · obtain ⟨he, rfl⟩ := (hg.coherent.edge?_eq_some_iff hv).1 hedge
    obtain ⟨-, rfl⟩ := of_filingKey_eq_ok (hc _ hv) hkey
    refine (hinv.1.file _ _).link (fun hparent hcontainer => ?_) hl
    refine (hrow e he hparent hcontainer hp).imp id fun hm => ⟨hm.1, ?_⟩
    exact ((hinv.2.trans (s.within_file ⟨e.child.aliasName, _⟩ (g.fragmentOf e.child row))).link _
      hm.2)

end Taken

/-! ## Two rows for two rivals -/

/-- Marks the tables so that of those joined onto an alias only one is present. -/
def onlyChild (g : Graph) (parentAlias own : String) (n : Int) (a : String) : Value :=
  if a = own then .int n
  else if a ∈ (g.edgesInto parentAlias).map Edge.aliasName then .null else .int 0

/-- The row in which of the tables that are joined onto an alias only one is present. -/
def onlyChildRow (g : Graph) (e : Edge) (n : Int) : Row :=
  g.marked (g.onlyChild e.parentAlias e.aliasName n)

section Rivals

variable {e e' : Edge} {n : Int}

theorem hashable_onlyChildRow (hg : g.Grown) (e : Edge) (n : Int) :
    g.Hashable (g.onlyChildRow e n) := by
  refine hg.coherent.hashable_marked fun a => ?_
  unfold onlyChild
  split
  · rfl
  · split <;> rfl

/-- Of the tables that are joined onto an alias only the one is present. -/
theorem Grown.eq_of_isPresent_onlyChildRow (hg : g.Grown) (he : e ∈ g.edges) (he' : e' ∈ g.edges)
    (hp : e'.parentAlias = e.parentAlias)
    (hpresent : e'.child.table.isPresent (g.onlyChildRow e n) = true) : e' = e := by
  by_contra hne
  refine (hg.coherent.isPresent_marked (hg.coherent.child_mem he')).1 hpresent ?_
  have hinto : e'.aliasName ∈ (g.edgesInto e.parentAlias).map Edge.aliasName := by
    rw [hg.coherent.edgesInto_eq]
    exact List.mem_map_of_mem (List.mem_filter.2 ⟨he', beq_iff_eq.2 hp⟩)
  show g.onlyChild e.parentAlias e.aliasName n e'.aliasName = .null
  rw [onlyChild, if_neg (fun hq => hne (hg.coherent.edge_unique he' he hq)), if_pos hinto]

theorem Grown.isPresent_child_onlyChildRow (hg : g.Grown) (he : e ∈ g.edges) (n : Int) :
    e.child.table.isPresent (g.onlyChildRow e n) = true := by
  refine (hg.coherent.isPresent_marked (hg.coherent.child_mem he)).2 ?_
  show g.onlyChild e.parentAlias e.aliasName n e.aliasName ≠ .null
  rw [onlyChild, if_pos rfl]
  exact nofun

/-- On the way down to the alias all tables are marked alike, whichever the one is. -/
theorem Grown.onlyChild_of_mem_climb (hg : g.Grown) (he : e ∈ g.edges) {a : String}
    (ha : a ∈ climb g.edges.reverse e.parentAlias) :
    g.onlyChild e.parentAlias e.aliasName n a = .int 0 := by
  have hnot := hg.coherent.notMem_climb_of_edgesInto (hg.coherent.parent_mem_aliases he) ha
  have hinto : e.aliasName ∈ (g.edgesInto e.parentAlias).map Edge.aliasName := by
    rw [hg.coherent.edgesInto_eq]
    exact List.mem_map_of_mem (List.mem_filter.2 ⟨he, beq_self_eq_true _⟩)
  have hne : a ≠ e.aliasName := fun hq => hnot (hq.symm ▸ hinto)
  rw [onlyChild, if_neg hne, if_neg hnot]

theorem Grown.isPresent_parent_onlyChildRow (hg : g.Grown) (he : e ∈ g.edges) (n : Int) :
    e.parent.table.isPresent (g.onlyChildRow e n) = true := by
  refine (hg.coherent.isPresent_marked (hg.parent_mem he)).2 ?_
  show g.onlyChild e.parentAlias e.aliasName n e.parentAlias ≠ .null
  have hself : e.parentAlias ∈ climb g.edges.reverse e.parentAlias :=
    List.mem_of_getLast? (climb_getLast? _ _)
  rw [hg.onlyChild_of_mem_climb he hself]
  exact nofun

/-- The parent has one key, whichever child the row is for. -/
theorem Grown.keyIn_parent_onlyChildRow (hg : g.Grown) (he : e ∈ g.edges) (he' : e' ∈ g.edges)
    (hp : e'.parentAlias = e.parentAlias) (n m : Int) :
    g.keyIn e'.parent (g.onlyChildRow e' m) = g.keyIn e.parent (g.onlyChildRow e n) := by
  have hparent : e'.parent = e.parent :=
    hg.coherent.eq_of_aliasName (hg.parent_mem he') (hg.parent_mem he) hp
  rw [hparent]
  refine hg.coherent.keyIn_marked fun a ha => ?_
  rw [hg.onlyChild_of_mem_climb he ha, hg.onlyChild_of_mem_climb he' (hp ▸ ha)]

/-- Children with different marks have different keys. -/
theorem Grown.keyIn_child_onlyChildRow_ne (hg : g.Grown) (he : e ∈ g.edges) (he' : e' ∈ g.edges)
    (hp : e'.parentAlias = e.parentAlias) {n m : Int} (hne : n ≠ m) :
    g.keyIn e'.child (g.onlyChildRow e' m) ≠ g.keyIn e.child (g.onlyChildRow e n) := by
  intro hq
  have hatoms : ∀ {e : Edge} (_ : e ∈ g.edges) (n : Int),
      (g.onlyChildRow e n).atoms e.child.table.keyColumns =
        e.child.table.keyColumns.map fun _ => Atom.ofInt n := by
    intro e he n
    rw [onlyChildRow, hg.coherent.atoms_marked (hg.coherent.child_mem he)]
    show (e.child.table.keyColumns.map fun _ =>
      (g.onlyChild e.parentAlias e.aliasName n e.aliasName).atom?.getD .null) = _
    rw [onlyChild, if_pos rfl]
    rfl
  rw [hg.keyIn_child he', hg.keyIn_child he, hg.keyIn_parent_onlyChildRow he he' hp,
    hatoms he, hatoms he'] at hq
  have hkeys := List.append_cancel_left hq
  obtain ⟨field, rest, hfield⟩ := List.exists_cons_of_ne_nil e'.child.table.primaryKey_ne_nil
  obtain ⟨field', rest', hfield'⟩ := List.exists_cons_of_ne_nil e.child.table.primaryKey_ne_nil
  simp only [Table.keyColumns, hfield, hfield', List.map_cons, List.cons.injEq] at hkeys
  exact hne (Atom.number.inj hkeys.1).1.symm

/-- A row links a child that is present there with its parent. -/
theorem Grown.mem_links_consumeRow (hg : g.Grown) (hc : g.IsPrepared chains) (he : e ∈ g.edges)
    {row : Row} (hparent : e.parent.table.isPresent row = true)
    (hchild : e.child.table.isPresent row = true) (h : g.consumeRow chains f row = .ok f') :
    ⟨⟨e.parentAlias, g.keyIn e.parent row⟩, e.container, g.keyIn e.child row⟩ ∈ f'.links := by
  obtain ⟨k, key, hk, hkey, hm⟩ :=
    hg.coherent.linkedIn_consumeRow he (hg.parent_eq e he) rfl h hparent hchild
  obtain ⟨-, rfl⟩ := of_filingKey_eq_ok (hc _ (hg.parent_mem he)) hk
  obtain ⟨-, rfl⟩ := of_filingKey_eq_ok (hc _ (hg.coherent.child_mem he)) hkey
  exact hm

/-- The rows with one child each of two edges. -/
def rivalRows (g : Graph) (e e' : Edge) : List Row := [g.onlyChildRow e 1, g.onlyChildRow e' 2]

theorem hashable_rivalRows (hg : g.Grown) : ∀ r ∈ g.rivalRows e e', g.Hashable r := by
  simp only [rivalRows, List.mem_cons, List.not_mem_nil, or_false]
  rintro r (rfl | rfl)
  · exact hashable_onlyChildRow hg e 1
  · exact hashable_onlyChildRow hg e' 2

/-- Two rows make a list follow a single entity in the container that they share, and that
fails. -/
theorem Grown.forestOf_rivals (hg : g.Grown) (hc : g.IsPrepared chains) (he : e ∈ g.edges)
    (he' : e' ∈ g.edges) (hp : e'.parentAlias = e.parentAlias)
    (hcontainer : e'.container = e.container) (hsingle : e.kind = .single)
    (hmany : e'.kind = .multiple) :
    g.forestOf chains (g.rivalRows e e') = .error .notAppendable := by
  have hkeyed : ∀ r ∈ g.rivalRows e e', g.Keyed r := fun r hr => (hashable_rivalRows hg r hr).keyed
  have hfails := hg.forestOf_fails_only hc hkeyed
  cases hforest : g.forestOf chains (g.rivalRows e e') with
  | error fault =>
    rw [hforest] at hfails
    exact congrArg Except.error hfails
  | ok f =>
    exfalso
    obtain ⟨f₁, hfirst, hrest⟩ := exists_of_foldlM_cons hforest
    obtain ⟨f₂, hsecond, -⟩ := exists_of_foldlM_cons hrest
    -- the first row links the single child
    have hone := hg.mem_links_consumeRow hc he (hg.isPresent_parent_onlyChildRow he 1)
      (hg.isPresent_child_onlyChildRow he 1) hfirst
    have htaken : Taken ⟨e.parentAlias, g.keyIn e.parent (g.onlyChildRow e 1)⟩ e.container
        (g.keyIn e.child (g.onlyChildRow e 1)) f₁ := by
      refine (Taken.ofAliases g.aliases).consumeRow hg hc ?_ hfirst
      intro e₁ he₁ hp₁ _ hpresent
      obtain rfl := hg.eq_of_isPresent_onlyChildRow he he₁ hp₁ hpresent
      exact Or.inl ⟨hsingle, rfl⟩
    -- so the second row cannot have linked the child for the list
    have htaken' : Taken ⟨e.parentAlias, g.keyIn e.parent (g.onlyChildRow e 1)⟩ e.container
        (g.keyIn e.child (g.onlyChildRow e 1)) f₂ := by
      refine htaken.consumeRow hg hc ?_ hsecond
      intro e₁ he₁ hp₁ _ hpresent
      obtain rfl := hg.eq_of_isPresent_onlyChildRow he' he₁ (hp₁.trans hp.symm) hpresent
      exact Or.inr ⟨hmany, hone⟩
    have htwo := hg.mem_links_consumeRow hc he' (hg.isPresent_parent_onlyChildRow he' 2)
      (hg.isPresent_child_onlyChildRow he' 2) hsecond
    rw [hp, hcontainer, hg.keyIn_parent_onlyChildRow he he' hp 1 2] at htwo
    exact hg.keyIn_child_onlyChildRow_ne he he' hp (by decide) (htaken'.only _ htwo)

end Rivals

/-- Rows that hold every column are folded without a fault, whatever the rows, exactly if edges
that share a container are of one kind. -/
theorem Grown.forestOf_succeeds_iff (hg : g.Grown) (hc : g.IsPrepared chains) :
    (∀ rows, (∀ r ∈ rows, g.Hashable r) → ∃ f, g.forestOf chains rows = .ok f) ↔
      g.KindsAgree := by
  constructor
  · intro hall e he e' he' hp hcontainer
    have hsucceeds : ∀ {e e' : Edge}, e ∈ g.edges → e' ∈ g.edges → e'.parentAlias = e.parentAlias →
        e'.container = e.container → e.kind = .single → e'.kind ≠ .multiple := by
      intro e e' he he' hp hcontainer hsingle hmany
      have hfault := hg.forestOf_rivals hc he he' hp hcontainer hsingle hmany
      obtain ⟨f, hf⟩ := hall (g.rivalRows e e') (hashable_rivalRows hg)
      rw [hfault] at hf
      cases hf
    rcases hg.kind_eq e he with hkind | hkind <;> rcases hg.kind_eq e' he' with hkind' | hkind'
    · rw [hkind, hkind']
      rfl
    · exact absurd hkind' (hsucceeds he he' hp hcontainer hkind)
    · exact absurd hkind (hsucceeds he' he hp.symm hcontainer.symm hkind')
    · rw [hkind, hkind']
      rfl
  · intro hk rows hrows
    exact hg.exists_forestOf_of_kindsAgree hc hk fun r hr => (hrows r hr).keyed

end Graph

namespace Session

open NestedJoin.Graph

/-- What a builder without modifiers answers to rows. -/
def plainAnswer (b : Builder) (chains : KeyChains) (rows : List Row) : Except Fault (List Value) :=
  (Builder.materialize { b with modifiers := .empty } chains rows).1.entities

theorem plainAnswer_eq {b : Builder} {chains chains' : KeyChains} {root : Vertex}
    (hroot : b.graph.root = some root) (hp : b.graph.prepare chains = .ok chains')
    (rows : List Row) : plainAnswer b chains rows =
      (b.graph.forestOf chains' rows).map fun f => f.entitiesOf root.aliasName := by
  have hrun : plainAnswer b chains rows =
      (b.graph.materialize chains' .empty rows).entities := by
    rw [plainAnswer, Builder.materialize, hp]
  rw [hrun, Graph.materialize]
  cases b.graph.forestOf chains' rows with
  | error fault => rfl
  | ok f =>
    show (b.graph.rootOrFault.map fun r => (f, r.aliasName)).map _ = _
    rw [rootOrFault, hroot]
    rfl

/-- For every builder that calls have made, and rows that hold in every column something that can
be part of a key: the rows are materialized to a list, or a container was no list where it should
have been one, and there is no other fault.  No rows at all lead to this fault exactly if the edges
onto one table that share a container are of one kind. -/
theorem materialize_succeeds_iff (schema : Schema) (cs : List Command) {name : String} {b : Builder}
    (hb : ((ofSchema schema).obeyAll cs).builder? name = some b) (chains : KeyChains) :
    (∀ rows, (∀ r ∈ rows, b.graph.Hashable r) →
      (∃ entities, plainAnswer b chains rows = .ok entities) ∨
        plainAnswer b chains rows = .error .notAppendable) ∧
    ((∀ rows, (∀ r ∈ rows, b.graph.Hashable r) →
      ∃ entities, plainAnswer b chains rows = .ok entities) ↔ b.graph.KindsAgree) := by
  have hg := grown_run schema cs hb
  obtain ⟨root, hroot⟩ := Option.isSome_iff_exists.1 hg.has_root
  obtain ⟨chains', hp⟩ := hg.exists_prepare chains
  have hc := hg.isPrepared_prepare hp
  constructor
  · intro rows hrows
    have hfails := hg.forestOf_fails_only hc fun r hr => (hrows r hr).keyed
    rw [plainAnswer_eq hroot hp]
    cases hforest : b.graph.forestOf chains' rows with
    | error fault =>
      rw [hforest] at hfails
      exact Or.inr (congrArg Except.error hfails)
    | ok f => exact Or.inl ⟨_, rfl⟩
  · rw [← hg.forestOf_succeeds_iff hc]
    refine forall_congr' fun rows => forall_congr' fun _ => ?_
    rw [plainAnswer_eq hroot hp]
    cases b.graph.forestOf chains' rows with
    | error fault => simp [Except.map]
    | ok f => simp [Except.map]

/-- Calls that join a list and a single entity under one name. -/
def sharingCalls : List Command :=
  let spec : JoinSpec := { kind := .ok .multiple, on := [(.str "x", .str "id")] }
  [.select "q" (.named "a") "a" false,
    .join "q" true (.named "p") (some "items") "p" "a" spec,
    .join "q" false (.named "c") (some "items") "c" "a" spec]

def sharingBuilder : Builder :=
  (((ofSchema sampleSchema).obeyAll sharingCalls).builder? "q").getD default

/-- A row of the parent with a child for the list, and no single one. -/
def sharingRow : Row :=
  .ofList [("a_id", .int 1), ("a_x", .str "x"), ("p_id", .int 2), ("p_x", .int 1), ("c_id", .null),
    ("c_x", .null)]

/-- The single edge came last, so that one child for the list is enough. -/
theorem materialize_succeeds_iff_sharing :
    ¬ sharingBuilder.graph.KindsAgree ∧ sharingBuilder.graph.Hashable sharingRow ∧
      plainAnswer sharingBuilder .empty [sharingRow] = .error .notAppendable ∧
      ¬ ∀ rows, (∀ r ∈ rows, sharingBuilder.graph.Hashable r) →
        ∃ entities, plainAnswer sharingBuilder .empty rows = .ok entities := by
  have hb : ((ofSchema sampleSchema).obeyAll sharingCalls).builder? "q" = some sharingBuilder := rfl
  have hkinds : ¬ sharingBuilder.graph.KindsAgree := by decide
  refine ⟨hkinds, by decide, rfl, fun hall => hkinds ?_⟩
  exact (materialize_succeeds_iff sampleSchema sharingCalls hb .empty).2.1 hall

end Session

end NestedJoin
