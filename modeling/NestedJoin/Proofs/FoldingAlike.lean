import Mathlib.Data.List.Forall2
import NestedJoin.Modifier
set_option autoImplicit false

/-!
# Graphs that fold rows alike

Of a graph, folding reads the tables of the vertices and their key chains, and of every edge its
kind, its container and the alias and the key chain of its parent.  It does not look at the join
conditions, nor at what tells vertices and edges apart.

Main statement: `Graph.FoldsAlike.materialize_eq`.
-/

namespace NestedJoin

/-- Folds over lists whose items take the same steps end alike. -/
theorem foldlM_eq_of_forall₂ {α β σ : Type} {R : α → β → Prop} {xs : List α} {ys : List β}
    (h : List.Forall₂ R xs ys) {step : σ → α → Except Fault σ} {step' : σ → β → Except Fault σ}
    (hstep : ∀ s x y, R x y → step s x = step' s y) (s : σ) :
    xs.foldlM step s = ys.foldlM step' s := by
  induction h generalizing s with
  | nil => rfl
  | cons hxy _ ih =>
    rw [List.foldlM_cons, List.foldlM_cons, hstep s _ _ hxy]
    exact bind_congr fun next => ih next

namespace Graph

/-- What folding reads of the edge of an alias. -/
def attachment (g : Graph) (chains : KeyChains) (a : String) :
    Option (Kind × String × String × List String) :=
  (g.edge? a).map fun e => (e.kind, e.container, e.parentAlias, chains.chainOf e.parent)

/-- Two graphs with their key chains say the same to folding. -/
structure FoldsAlike (g g' : Graph) (chains chains' : KeyChains) : Prop where
  vertices : List.Forall₂ (fun v v' => v.table = v'.table ∧ chains.chainOf v = chains'.chainOf v')
    g.vertices g'.vertices
  aliases_eq : g.aliases = g'.aliases
  root_eq : g.root.map Vertex.aliasName = g'.root.map Vertex.aliasName
  containers_eq : ∀ a, (g.edgesInto a).map (fun e => (e.container, e.emptyContent)) =
    (g'.edgesInto a).map fun e => (e.container, e.emptyContent)
  attachment_eq : ∀ a, g.attachment chains a = g'.attachment chains' a

/-- The key of a vertex in a row depends on its alias and its chain. -/
theorem filingKey_congr {chains chains' : KeyChains} {v v' : Vertex}
    (ha : v.aliasName = v'.aliasName) (hc : chains.chainOf v = chains'.chainOf v') (row : Row) :
    chains.filingKey v row = chains'.filingKey v' row := by
  simp only [KeyChains.filingKey, KeyChains.nodeKey, ha, hc]

theorem link_congr {e e' : Edge} (hk : e.kind = e'.kind) (hc : e.container = e'.container)
    (f : Forest) (parent child : NodeRef) : link e f parent child = link e' f parent child := by
  simp only [link, attach, hk, hc]

namespace FoldsAlike

variable {g g' : Graph} {chains chains' : KeyChains}

theorem fragmentOf_eq (h : g.FoldsAlike g' chains chains') {v v' : Vertex}
    (hv : v.table = v'.table) (row : Row) : g.fragmentOf v row = g'.fragmentOf v' row := by
  rw [fragmentOf_eq_insertAll, fragmentOf_eq_insertAll, h.containers_eq, Vertex.aliasName,
    Vertex.aliasName, hv]

/-- Showing a row to a vertex does the same in both graphs. -/
theorem consume_eq (h : g.FoldsAlike g' chains chains') {v v' : Vertex} (hv : v.table = v'.table)
    (hc : chains.chainOf v = chains'.chainOf v') (row : Row) (f : Forest) :
    g.consume chains row f v = g'.consume chains' row f v' := by
  have ha : v.aliasName = v'.aliasName := congrArg Table.aliasName hv
  have hedges := h.attachment_eq v'.aliasName
  unfold consume
  rw [hv, filingKey_congr ha hc row, h.fragmentOf_eq hv, ha]
  refine ite_congr rfl (fun _ => bind_congr fun key => ?_) fun _ => rfl
  unfold attachment at hedges
  cases he : g.edge? v'.aliasName with
  | none =>
    rw [he, Option.map_none] at hedges
    rw [Option.map_eq_none_iff.1 hedges.symm]
  | some e =>
    rw [he, Option.map_some] at hedges
    obtain ⟨e', he', hparts⟩ := Option.map_eq_some_iff.1 hedges.symm
    obtain ⟨hkind, hcontainer, hparent, hchain⟩ :
        e'.kind = e.kind ∧ e'.container = e.container ∧ e'.parentAlias = e.parentAlias ∧
          chains'.chainOf e'.parent = chains.chainOf e.parent := by
      simpa only [Prod.mk.injEq] using hparts
    rw [he']
    dsimp only
    rw [filingKey_congr hparent hchain, hparent]
    exact bind_congr fun k => link_congr hkind.symm hcontainer.symm _ _ _

/-- Rows make the same forest of both graphs. -/
theorem forestOf_eq (h : g.FoldsAlike g' chains chains') (rows : List Row) :
    g.forestOf chains rows = g'.forestOf chains' rows := by
  have hrow : g.consumeRow chains = g'.consumeRow chains' := by
    funext f row
    exact foldlM_eq_of_forall₂ h.vertices (fun s v v' hv => h.consume_eq hv.1 hv.2 row s) f
  rw [forestOf, forestOf, hrow, h.aliases_eq]

theorem rootOrFault_eq (h : g.FoldsAlike g' chains chains') :
    g.rootOrFault.map Vertex.aliasName = g'.rootOrFault.map Vertex.aliasName := by
  have hroot := h.root_eq
  unfold rootOrFault
  cases hr : g.root with
  | none =>
    rw [hr, Option.map_none] at hroot
    rw [Option.map_eq_none_iff.1 hroot.symm]
  | some r =>
    rw [hr, Option.map_some] at hroot
    obtain ⟨r', hr', ha⟩ := Option.map_eq_some_iff.1 hroot.symm
    rw [hr']
    exact congrArg Except.ok ha.symm

/-- Whatever the modifiers, rows make the same entities of both graphs. -/
theorem materialize_eq (h : g.FoldsAlike g' chains chains') (modifiers : Modifiers)
    (rows : List Row) :
    g.materialize chains modifiers rows = g'.materialize chains' modifiers rows := by
  have hmap : ∀ (answer : Except Fault Vertex) (f : Forest),
      answer.map (fun r => (f, r.aliasName)) =
        (answer.map Vertex.aliasName).map fun a => (f, a) := by
    intro answer f
    cases answer <;> rfl
  unfold materialize
  rw [h.forestOf_eq rows]
  simp only [hmap, h.rootOrFault_eq]

end FoldsAlike

end Graph

end NestedJoin
