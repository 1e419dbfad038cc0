import NestedJoin.Table
set_option autoImplicit false

/-!
# Vertices and key chains

A vertex is a table placed in join graphs.  Graphs share vertices: two vertices with one
serial number are one vertex, and a key chain worked out for it by one graph is seen by
every graph that holds it.

The key chain of a vertex lists the primary-key columns of every table from the root down
to it; the values a row holds there tell the nodes of that position apart.

Main statements: `KeyChains.nodeKey_eq_ok_iff`, a row has a node key exactly when it holds
every column of the chain, and `KeyChains.filingKey_eq_ok_iff`, when it can be filed.
-/

namespace NestedJoin

/-- A table placed in join graphs. -/
structure Vertex where
  /-- tells vertices apart -/
  serial : Nat
  table : Table

namespace Vertex

/-- The alias of the vertex's table. -/
def aliasName (v : Vertex) : String := v.table.aliasName

end Vertex

/-- The key chains worked out so far, by the serial numbers of their vertices. -/
abbrev KeyChains : Type := OrderedMap Nat (List String)

/-- What tells the nodes of one vertex apart. -/
abbrev NodeKey : Type := List Atom

/-- Stands between the values of a printed key. -/
def keySeparator : String := "-"

namespace KeyChains

/-- The key chain of a vertex; empty until one is worked out. -/
def chainOf (chains : KeyChains) (v : Vertex) : List String := (chains.get? v.serial).getD []

/-- Stores the key chain of a vertex. -/
def store (chains : KeyChains) (v : Vertex) (chain : List String) : KeyChains :=
  chains.insert v.serial chain

theorem chainOf_store (chains : KeyChains) (v w : Vertex) (chain : List String) :
    (chains.store v chain).chainOf w = if w.serial = v.serial then chain else chains.chainOf w := by
  simp only [chainOf, store, OrderedMap.get?_insert]
  split <;> rfl

/-- The values of a row under the columns of a chain, or the first column it lacks. -/
def columnValues (aliasName : String) (row : Row) : List String → Except Fault (List Value)
  | [] => .ok []
  | c :: cs =>
    match row.get? c with
    | none => .error (.keyColumnMissing aliasName c)
    | some v => (columnValues aliasName row cs).map (v :: ·)

/-- The values of a row under the key chain of a vertex. -/
def nodeKey (chains : KeyChains) (v : Vertex) (row : Row) : Except Fault (List Value) :=
  columnValues v.aliasName row (chains.chainOf v)

theorem columnValues_eq_ok_iff {aliasName : String} {row : Row} {cs : List String}
    {vs : List Value} :
    columnValues aliasName row cs = .ok vs ↔ cs.map row.get? = vs.map some := by
  induction cs generalizing vs with
  | nil => cases vs <;> simp [columnValues]
  | cons c cs ih =>
    cases hc : row.get? c with
    | none => cases vs <;> simp [columnValues, hc]
    | some v =>
      cases hr : columnValues aliasName row cs with
      | error e =>
        simp only [columnValues, hc, hr, Except.map, reduceCtorEq, false_iff]
        intro h
        cases vs with
        | nil => simp at h
        | cons w ws =>
          simp only [List.map_cons, List.cons.injEq] at h
          rw [ih.2 h.2] at hr
          cases hr
      | ok us =>
        cases vs with
        | nil => simp [columnValues, hc, hr, Except.map]
        | cons w ws =>
          have hi : columnValues aliasName row cs = .ok ws ↔ cs.map row.get? = ws.map some := ih
          rw [hr] at hi
          simp only [columnValues, hc, hr, Except.map, Except.ok.injEq, List.cons.injEq,
            List.map_cons, Option.some.injEq] at hi ⊢
          rw [hi]

/-- A row has a node key exactly when it holds every column of the chain. -/
theorem nodeKey_eq_ok_iff {chains : KeyChains} {v : Vertex} {row : Row} {vs : List Value} :
    chains.nodeKey v row = .ok vs ↔ (chains.chainOf v).map row.get? = vs.map some :=
  columnValues_eq_ok_iff

/-- The normal forms of the values of a key; a list or a dictionary cannot be part of one. -/
def atoms : List Value → Except Fault NodeKey
  | [] => .ok []
  | v :: vs =>
    match v.atom? with
    | none => .error .notHashable
    | some a => (atoms vs).map (a :: ·)

/-- The key under which a row's node of a vertex is filed. -/
def filingKey (chains : KeyChains) (v : Vertex) (row : Row) : Except Fault NodeKey :=
  chains.nodeKey v row >>= atoms

/-- Values can be part of a key exactly if each of them has a normal form. -/
theorem atoms_eq_ok_iff {vs : List Value} {k : NodeKey} :
    atoms vs = .ok k ↔ vs.map Value.atom? = k.map some := by
  induction vs generalizing k with
  | nil => cases k <;> simp [atoms]
  | cons v vs ih =>
    cases ha : v.atom? with
    | none => cases k <;> simp [atoms, ha]
    | some a =>
      cases hr : atoms vs with
      | error f =>
        rw [hr] at ih
        cases k with
        | nil => simp [atoms, ha, hr, Except.map]
        | cons b k => simpa [atoms, ha, hr, Except.map] using fun _ => ih (k := k)
      | ok rest =>
        rw [hr] at ih
        cases k with
        | nil => simp [atoms, ha, hr, Except.map]
        | cons b k => simp [atoms, ha, hr, Except.map, ← ih]

/-- A row has a filing key exactly if under every column of the chain it holds a value that can be
part of a key. -/
theorem filingKey_eq_ok_iff {chains : KeyChains} {v : Vertex} {row : Row} {k : NodeKey} :
    chains.filingKey v row = .ok k ↔
      (chains.chainOf v).map (fun c => (row.get? c).bind Value.atom?) = k.map some := by
  have hbind : ∀ vs : List Value, (chains.chainOf v).map row.get? = vs.map some →
      (chains.chainOf v).map (fun c => (row.get? c).bind Value.atom?) = vs.map Value.atom? := by
    intro vs h
    have hmap := congrArg (List.map fun x => x.bind Value.atom?) h
    rwa [List.map_map, List.map_map] at hmap
  constructor
  · intro h
    cases hvs : chains.nodeKey v row with
    | error f =>
      rw [filingKey, hvs] at h
      cases h
    | ok vs =>
      rw [filingKey, hvs] at h
      rw [hbind vs (nodeKey_eq_ok_iff.1 hvs)]
      exact atoms_eq_ok_iff.1 h
  · intro h
    obtain ⟨vs, hvs⟩ : ∃ vs : List Value, (chains.chainOf v).map row.get? = vs.map some := by
      refine ⟨(chains.chainOf v).map fun c => (row.get? c).getD .null, ?_⟩
      rw [List.map_map]
      refine List.map_congr_left fun c hc => ?_
      have hm := List.mem_map_of_mem (f := fun c => (row.get? c).bind Value.atom?) hc
      rw [h] at hm
      obtain ⟨a, -, ha⟩ := List.mem_map.1 hm
      obtain ⟨x, hx, -⟩ := Option.bind_eq_some_iff.1 ha.symm
      rw [Function.comp_apply, hx, Option.getD_some]
    rw [filingKey, nodeKey_eq_ok_iff.2 hvs]
    refine atoms_eq_ok_iff.2 ?_
    rw [← hbind vs hvs, h]

/-- The printable form of a node key. -/
def compositeKey (chains : KeyChains) (v : Vertex) (row : Row) : Except Fault String :=
  (chains.nodeKey v row).map fun vs => keySeparator.intercalate (vs.map Value.display)

end KeyChains

end NestedJoin
