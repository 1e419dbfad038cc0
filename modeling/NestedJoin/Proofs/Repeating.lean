import NestedJoin.Proofs.Linking
import NestedJoin.Proofs.Materializing
set_option autoImplicit false

/-!
# Repeated rows

A row that agrees with an earlier one on the key columns of all tables is a repetition, whatever
it holds elsewhere.  Each table that is present in it has its node already.  The node's parent is
either absent from both rows, and then its node, which would have to come from a row with the same
key, does not exist; or it is present in both, and then the earlier row left the link between the
two.  A link stays when another node takes the place of the linked one in a single container, so
the repetition does not bring the old one back.

The values under the key columns need only be equal, not alike.  But where the earlier row holds a
scalar, the later one must hold one too, since an equal value that can be changed is a fault.

Main statements: `Graph.Grown.consumeRow_repeated` and `Session.materialize_repeated`.
-/

namespace NestedJoin

/-! ## Rows that agree -/

namespace Row

/-- Two rows both lack a column or hold equal values there. -/
def agreesAt (row row' : Row) (column : String) : Bool :=
  match row.get? column, row'.get? column with
  | none, none => true
  | some v, some w => v.same w
  | _, _ => false

variable {row row' : Row} {column : String}

/-- A value is something exactly if it does not denote null. -/
theorem holds_iff_of_get? {v : Value} (h : row.get? column = some v) :
    row.holds column = true ↔ v.denoted? ≠ some .null := by
  rw [holds, h, ne_eq, Value.denoted?_eq_null_iff]
  cases v <;> simp

theorem holds_eq_of_agreesAt (h : row.agreesAt row' column = true) :
    row.holds column = row'.holds column := by
  unfold agreesAt at h
  split at h
  · next hv hw => rw [holds, holds, hv, hw]
  · next v w hv hw =>
    rw [Bool.eq_iff_iff, holds_iff_of_get? hv, holds_iff_of_get? hw,
      Value.denoted?_eq_of_same h]
  · cases h

/-- Rows that agree on a column have one normal form there if both hold a scalar. -/
theorem atom?_eq_of_agreesAt (h : row.agreesAt row' column = true)
    (hs : (row.get? column).any Value.isScalar = true)
    (hs' : (row'.get? column).any Value.isScalar = true) :
    (row.get? column).bind Value.atom? = (row'.get? column).bind Value.atom? := by
  obtain ⟨v, hv, hscalar⟩ := (Option.any_eq_true _ _).1 hs
  obtain ⟨w, hw, hscalar'⟩ := (Option.any_eq_true _ _).1 hs'
  have hsame : v.same w = true := by rwa [agreesAt, hv, hw] at h
  rw [hv, hw, Option.bind_some, Option.bind_some, Value.atom?_eq_of_same hsame hscalar hscalar']

end Row

namespace Graph

/-- Two rows agree on the key columns of all tables. -/
def SameKeys (g : Graph) (row row' : Row) : Prop :=
  ∀ v ∈ g.vertices, ∀ c ∈ v.table.keyColumns, row.agreesAt row' c = true

instance (g : Graph) (row row' : Row) : Decidable (g.SameKeys row row') :=
  inferInstanceAs (Decidable (∀ v ∈ g.vertices, ∀ c ∈ v.table.keyColumns, _))

/-- Where the first of two rows holds a scalar under a key column, so does the second: it has not
got a value there that is equal but can be changed. -/
def KeepsScalars (g : Graph) (row row' : Row) : Prop :=
  ∀ v ∈ g.vertices, ∀ c ∈ v.table.keyColumns,
    (row.get? c).any Value.isScalar = true → (row'.get? c).any Value.isScalar = true

instance (g : Graph) (row row' : Row) : Decidable (g.KeepsScalars row row') :=
  inferInstanceAs (Decidable (∀ v ∈ g.vertices, ∀ c ∈ v.table.keyColumns, _))

section SameKeys

variable {g : Graph} {chains : KeyChains} {row row' : Row} {v : Vertex}

/-- The same tables are present in two rows with the same keys. -/
theorem SameKeys.isPresent_eq (h : g.SameKeys row row') (hv : v ∈ g.vertices) :
    v.table.isPresent row = v.table.isPresent row' := by
  rw [Bool.eq_iff_iff, Table.isPresent, Table.isPresent, List.any_eq_true, List.any_eq_true]
  refine exists_congr fun c => and_congr_right fun hc => ?_
  rw [Row.holds_eq_of_agreesAt (h v hv c hc)]

/-- A row with the same keys, as scalar as the first one's, is filed where the first one is. -/
theorem SameKeys.filingKey_eq_ok (h : g.SameKeys row row') (hs : g.KeepsScalars row row')
    (hc : g.IsPrepared chains) (hv : v ∈ g.vertices) {k : NodeKey}
    (hk : chains.filingKey v row = .ok k) : chains.filingKey v row' = .ok k := by
  obtain ⟨hscalar, -⟩ := of_filingKey_eq_ok (hc v hv) hk
  rw [KeyChains.filingKey_eq_ok_iff] at hk ⊢
  rw [← hk]
  refine List.map_congr_left fun c hm => ?_
  rw [hc v hv] at hm
  obtain ⟨w, hw, hcol⟩ := exists_of_mem_chainOf hm
  have hfirst := hscalar c hm
  exact (Row.atom?_eq_of_agreesAt (h w hw c hcol) hfirst (hs w hw c hcol hfirst)).symm

end SameKeys

/-! ## What a row leaves behind -/

section Consumed

variable {g : Graph} {chains : KeyChains} {f : Forest}

/-- A node comes from a row in which its table is present. -/
theorem exists_row_of_fragment? {rows : List Row} (h : g.forestOf chains rows = .ok f)
    {r : NodeRef} (hr : (f.fragment? r).isSome = true) :
    ∃ row ∈ rows, ∃ v ∈ g.vertices, v.aliasName = r.aliasName ∧ v.table.isPresent row = true ∧
      chains.filingKey v row = .ok r.key := by
  have hconfined : f.Confined (fun r => ∃ row ∈ rows, ∃ v ∈ g.vertices, v.aliasName = r.aliasName ∧
      v.table.isPresent row = true ∧ chains.filingKey v row = .ok r.key) fun _ _ => True :=
    confined_forestOf (fun row hrow v hv hp key hkey => ⟨row, hrow, v, hv, rfl, hp, hkey⟩)
      (fun _ _ _ _ _ _ _ _ _ _ _ _ => trivial) h
  obtain ⟨fragment, hf⟩ := Option.isSome_iff_exists.1 hr
  exact hconfined.node r fragment hf

end Consumed

/-! ## Repetitions -/

section Repeated

variable {g : Graph} {chains : KeyChains} {row row' : Row} {f : Forest}

/-- A node of an edge's parent exists for a row only if the parent is present in the row: the row
that the node comes from has the same values under the parent's key columns. -/
theorem Grown.isPresent_of_fragment? (hg : g.Grown) (hc : g.IsPrepared chains) {rows : List Row}
    (h : g.forestOf chains rows = .ok f) {v : Vertex} (hv : v ∈ g.vertices) {k : NodeKey}
    (hk : chains.filingKey v row = .ok k) (hf : (f.fragment? ⟨v.aliasName, k⟩).isSome = true) :
    v.table.isPresent row = true := by
  obtain ⟨origin, -, w, hw, halias, hp, hkey⟩ := exists_row_of_fragment? h hf
  obtain rfl := hg.coherent.eq_of_aliasName hw hv halias
  obtain ⟨hheld, rfl⟩ := of_filingKey_eq_ok (hc w hv) hkey
  obtain ⟨-, hq⟩ := of_filingKey_eq_ok (hc w hv) hk
  exact hg.isPresent_of_keyIn_eq hv hheld hp hq

/-- A repetition changes nothing for any vertex. -/
theorem Grown.consume_repeated (hg : g.Grown) (hc : g.IsPrepared chains)
    (hsame : g.SameKeys row row') (hs : g.KeepsScalars row row') {rows : List Row}
    (hmem : row ∈ rows)
    (hf : g.forestOf chains rows = .ok f) {v : Vertex} (hv : v ∈ g.vertices) :
    g.consume chains row' f v = .ok f := by
  obtain ⟨f₀, f₁, hrow, hwithin⟩ :=
    exists_step_of_foldlM (fun _ _ _ h => consumeRow_within h) hf hmem
  cases hp' : v.table.isPresent row' with
  | false => exact consume_of_absent hp'
  | true =>
    have hp : v.table.isPresent row = true := (hsame.isPresent_eq hv).trans hp'
    obtain ⟨s, s', hconsume, hs'⟩ :=
      exists_step_of_foldlM (fun _ _ _ h => consume_within h) hrow hv
    obtain ⟨key, hkey, hfiled⟩ := filed_of_consume hconsume hp
    obtain ⟨fragment, hfragment⟩ :=
      Option.isSome_iff_exists.1 ((hs'.trans hwithin).node _ hfiled)
    simp only [consume, hp', if_true, hsame.filingKey_eq_ok hs hc hv hkey, bind, Except.bind,
      Forest.file, hfragment]
    cases hedge : g.edge? v.aliasName with
    | none => rfl
    | some e =>
      obtain ⟨he, rfl⟩ := (hg.coherent.edge?_eq_some_iff hv).1 hedge
      have hparent := hg.parent_mem he
      obtain ⟨-, k, -, hk, -⟩ := linked_of_consume hconsume hp hedge
      simp only [hsame.filingKey_eq_ok hs hc hparent hk]
      -- without a node of the parent there is nothing to link; with one the parent is present in
      -- both rows, so the earlier row has made the link
      cases hnode : f.fragment? ⟨e.parentAlias, k⟩ with
      | none => exact link_of_absent hnode
      | some parent =>
        have hpresent := hg.isPresent_of_fragment? hc hf hparent hk
          (Option.isSome_of_eq_some hnode)
        obtain ⟨k', key', hk', hkey', hlinked⟩ := hg.coherent.linkedIn_consumeRow he
          (hg.parent_eq e he) rfl hrow hpresent hp
        rw [hk] at hk'
        cases hk'
        rw [hkey] at hkey'
        cases hkey'
        exact link_of_linked (hwithin.link _ hlinked)

/-- A row that agrees with an earlier one on the key columns of all tables changes nothing. -/
theorem Grown.consumeRow_repeated (hg : g.Grown) (hc : g.IsPrepared chains)
    (hsame : g.SameKeys row row') (hs : g.KeepsScalars row row') {rows : List Row}
    (hmem : row ∈ rows)
    (hf : g.forestOf chains rows = .ok f) : g.consumeRow chains f row' = .ok f := by
  have hstep : ∀ shown v rest, g.vertices = shown ++ v :: rest → ∀ s, s = f →
      ∃ s', g.consume chains row' s v = .ok s' ∧ s' = f := by
    rintro shown v rest hv s rfl
    have hvertex : v ∈ g.vertices := hv ▸ List.mem_append_right _ List.mem_cons_self
    exact ⟨s, hg.consume_repeated hc hsame hs hmem hf hvertex, rfl⟩
  obtain ⟨f', hrun, rfl⟩ := foldlM_prefix (fun _ s => s = f) hstep rfl
  exact hrun

/-- The forest is the same with and without a repetition, and so is the fault if there is none. -/
theorem Grown.forestOf_repeated (hg : g.Grown) (hc : g.IsPrepared chains)
    (hsame : g.SameKeys row row') (hs : g.KeepsScalars row row') (before between after : List Row) :
    g.forestOf chains (before ++ row :: (between ++ row' :: after)) =
      g.forestOf chains (before ++ row :: (between ++ after)) := by
  have hsplit : ∀ rest, g.forestOf chains (before ++ row :: (between ++ rest)) =
      (g.forestOf chains (before ++ row :: between) >>= fun f =>
        rest.foldlM (g.consumeRow chains) f) := by
    intro rest
    rw [forestOf, forestOf, ← List.foldlM_append, List.append_assoc, List.cons_append]
  rw [hsplit, hsplit]
  cases hf : g.forestOf chains (before ++ row :: between) with
  | error fault => rfl
  | ok f =>
    have hmem : row ∈ before ++ row :: between := List.mem_append_right _ List.mem_cons_self
    show List.foldlM (g.consumeRow chains) f (row' :: after) = _
    rw [List.foldlM_cons, hg.consumeRow_repeated hc hsame hs hmem hf]

end Repeated

end Graph

namespace Session

/-- For every builder that calls have made: a row that agrees with an earlier one on the key columns
of all tables, and holds scalars there where the earlier one does, wherever it stands after that and
whatever it holds elsewhere, changes nothing at all in what materializing does, be it entities or a
fault. -/
theorem materialize_repeated (schema : Schema) (cs : List Command) {name : String} {b : Builder}
    (hb : ((ofSchema schema).obeyAll cs).builder? name = some b) (chains : KeyChains)
    {row row' : Row} (hsame : b.graph.SameKeys row row') (hscalar : b.graph.KeepsScalars row row')
    (before between after : List Row) :
    b.materialize chains (before ++ row :: (between ++ row' :: after)) =
      b.materialize chains (before ++ row :: (between ++ after)) := by
  have hg := grown_run schema cs hb
  unfold Builder.materialize
  cases hp : b.graph.prepare chains with
  | error fault => rfl
  | ok chains' =>
    have hforest := hg.forestOf_repeated (hg.isPrepared_prepare hp) hsame hscalar before between
      after
    simp only [Graph.materialize, hforest]

/-- A row of a root table and its single child. -/
def childRow (a c x : Value) : Row := .ofList [("a_id", a), ("c_id", c), ("c_x", x)]

def oldChildRow : Row := childRow (.int 1) (.int 7) (.str "old")

def newChildRow : Row := childRow (.int 1) (.int 8) (.str "new")

/-- The keys of the old child's row, written as other values, and a field of its own. -/
def repeatedChildRow : Row :=
  childRow (.bool true) (.float (.finite false 7 0)) (.str "again")

/-- A single child that another one has replaced in between does not come back. -/
theorem materialize_repeated_replaced :
    sampleBuilder.graph.SameKeys oldChildRow repeatedChildRow ∧
      sampleBuilder.graph.KeepsScalars oldChildRow repeatedChildRow ∧
      sampleBuilder.materialize .empty [oldChildRow, newChildRow, repeatedChildRow] =
        sampleBuilder.materialize .empty [oldChildRow, newChildRow] ∧
      (sampleBuilder.materialize .empty [oldChildRow, newChildRow]).1.entities =
        .ok [.dict [(.str "id", .int 1), (.str "bs", .list []),
          (.str "c", .dict [(.str "id", .int 8), (.str "x", .str "new")])]] := by
  have hb : ((ofSchema sampleSchema).obeyAll sampleCalls).builder? "q" = some sampleBuilder := rfl
  have hsame : sampleBuilder.graph.SameKeys oldChildRow repeatedChildRow := by decide
  have hscalar : sampleBuilder.graph.KeepsScalars oldChildRow repeatedChildRow := by decide
  have hrun := materialize_repeated sampleSchema sampleCalls hb .empty hsame hscalar []
    [newChildRow] []
  exact ⟨hsame, hscalar, hrun, rfl⟩

/-- A byte string that can be changed: it is equal to the byte string of the same bytes, but it is
no part of a key. -/
def changeableBytes : Value :=
  .foreign
    { denotes := .bytes [0x31]
      denotes_ne_null := nofun
      isScalar := false
      text := "bytearray(b'1')"
      display := "bytearray(b'1')"
      literalType := .untyped
      literal? := fun _ type => match type with
        | .integer => some "1"
        | .number => some "bytearray(b'1')"
        | .bytes => some "'1'"
        | _ => none }
    (some [.int 0x31])

def bytesRow : Row := childRow (.bytes [0x31]) .null .null

def changeableRow : Row := childRow changeableBytes .null .null

/-- The second row has equal values under all key columns, and yet it is a fault. -/
theorem materialize_repeated_changeable :
    ((ofSchema sampleSchema).obeyAll sampleCalls).builder? "q" = some sampleBuilder ∧
      sampleBuilder.graph.SameKeys bytesRow changeableRow ∧
      (sampleBuilder.materialize .empty [bytesRow]).1.entities =
        .ok [.dict [(.str "id", .bytes [0x31]), (.str "bs", .list []), (.str "c", .null)]] ∧
      (sampleBuilder.materialize .empty [bytesRow, changeableRow]).1.entities =
        .error .notHashable :=
  ⟨rfl, by decide, rfl, rfl⟩

end Session

end NestedJoin
