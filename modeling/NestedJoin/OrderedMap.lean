set_option autoImplicit false

/-!
# Insertion-ordered maps

A map that remembers the order in which its keys were first given.  Writing a key
again keeps its place and takes the new value, so a list of pairs read from left to
right has one meaning: a repeated key stands where it first stood and holds what was
said last.  The keys are pairwise distinct by construction.

Main statements: `get?_insert` says what a write does to a look-up, `keys_insert`
what it does to the order, and `erase_insert` when it is undone by a removal.
-/

namespace NestedJoin

/-- Pairs of distinct keys and their values, in the order of the keys' first writing. -/
structure OrderedMap (κ ν : Type) where
  entries : List (κ × ν)
  nodup_keys : (entries.map Prod.fst).Nodup
  deriving DecidableEq, Repr

namespace OrderedMap

variable {κ ν : Type}

/-! ## Views -/

/-- The map without entries. -/
def empty : OrderedMap κ ν := ⟨[], List.nodup_nil⟩

instance : Inhabited (OrderedMap κ ν) := ⟨empty⟩

/-- The keys in order. -/
def keys (m : OrderedMap κ ν) : List κ := m.entries.map Prod.fst

/-- The values in the order of their keys. -/
def values (m : OrderedMap κ ν) : List ν := m.entries.map Prod.snd

/-- The number of entries. -/
def size (m : OrderedMap κ ν) : Nat := m.entries.length

/-- The value written last under a key. -/
def get? [DecidableEq κ] (m : OrderedMap κ ν) (k : κ) : Option ν := m.entries.lookup k

/-- Whether a key has a value. -/
def contains [DecidableEq κ] (m : OrderedMap κ ν) (k : κ) : Bool := (m.get? k).isSome

theorem keys_nodup (m : OrderedMap κ ν) : m.keys.Nodup := m.nodup_keys

@[simp] theorem keys_empty : (empty : OrderedMap κ ν).keys = [] := rfl

@[simp] theorem get?_empty [DecidableEq κ] (k : κ) : (empty : OrderedMap κ ν).get? k = none := rfl

/-- A key has a value exactly if it is among the keys. -/
theorem contains_iff_mem_keys [DecidableEq κ] {m : OrderedMap κ ν} {k : κ} :
    m.contains k = true ↔ k ∈ m.keys := by
  simp [contains, get?, keys, List.lookup_isSome_iff]

/-- A look-up gives exactly the entries. -/
theorem get?_eq_some_iff [DecidableEq κ] {m : OrderedMap κ ν} {k : κ} {v : ν} :
    m.get? k = some v ↔ (k, v) ∈ m.entries := by
  obtain ⟨es, hn⟩ := m
  simp only [get?]
  induction es with
  | nil => simp
  | cons e es ih =>
    obtain ⟨a, b⟩ := e
    rw [List.map_cons, List.nodup_cons] at hn
    by_cases h : k = a
    · subst h
      have hnot : (k, v) ∉ es := fun hm => hn.1 (List.mem_map.2 ⟨(k, v), hm, rfl⟩)
      simp [hnot, eq_comm]
    · have hb : (k == a) = false := by simp [h]
      simp [List.lookup_cons, hb, h, ih hn.2]

theorem mem_values_of_get? [DecidableEq κ] {m : OrderedMap κ ν} {k : κ} {v : ν}
    (h : m.get? k = some v) : v ∈ m.values :=
  List.mem_map_of_mem (get?_eq_some_iff.1 h)

/-! ## Writing -/

/-- Replaces the value of a key that occurs, or adds the pair at the end. -/
def writeEntry [DecidableEq κ] : List (κ × ν) → κ → ν → List (κ × ν)
  | [], k, v => [(k, v)]
  | e :: es, k, v => if e.1 = k then (e.1, v) :: es else e :: writeEntry es k v

/-- A write leaves the keys alone if the key occurs, and adds it at the end otherwise. -/
theorem map_fst_writeEntry [DecidableEq κ] (es : List (κ × ν)) (k : κ) (v : ν) :
    (writeEntry es k v).map Prod.fst =
      if k ∈ es.map Prod.fst then es.map Prod.fst else es.map Prod.fst ++ [k] := by
  induction es with
  | nil => simp [writeEntry]
  | cons e es ih =>
    by_cases h : e.1 = k
    · simp [writeEntry, h]
    · have h' : k ≠ e.1 := fun q => h q.symm
      by_cases hm : k ∈ es.map Prod.fst <;> simp_all [writeEntry]

theorem nodup_writeEntry [DecidableEq κ] {es : List (κ × ν)} (h : (es.map Prod.fst).Nodup)
    (k : κ) (v : ν) : ((writeEntry es k v).map Prod.fst).Nodup := by
  rw [map_fst_writeEntry]
  split
  · exact h
  · next hk =>
    rw [List.nodup_append]
    refine ⟨h, by simp, ?_⟩
    intro a ha b hb
    simp only [List.mem_singleton] at hb
    subst hb
    exact fun q => hk (q ▸ ha)

/-- The look-up after a write: the new value under its own key, the old one elsewhere. -/
theorem lookup_writeEntry [DecidableEq κ] (es : List (κ × ν)) (k : κ) (v : ν) (k' : κ) :
    (writeEntry es k v).lookup k' = if k' = k then some v else es.lookup k' := by
  induction es with
  | nil =>
    by_cases h : k' = k
    · simp [writeEntry, h]
    · have hb : (k' == k) = false := by simp [h]
      simp [writeEntry, List.lookup_cons, hb, h]
  | cons e es ih =>
    obtain ⟨a, b⟩ := e
    by_cases h : a = k
    · subst h
      by_cases h' : k' = a
      · simp [writeEntry, h']
      · have hb : (k' == a) = false := by simp [h']
        simp [writeEntry, List.lookup_cons, hb, h']
    · by_cases h' : k' = a
      · subst h'
        simp [writeEntry, h]
      · have hb : (k' == a) = false := by simp [h']
        simp [writeEntry, h, List.lookup_cons, hb, ih]

/-- Writes a key: in its old place, or at the end. -/
def insert [DecidableEq κ] (m : OrderedMap κ ν) (k : κ) (v : ν) : OrderedMap κ ν :=
  ⟨writeEntry m.entries k v, nodup_writeEntry m.nodup_keys k v⟩

theorem get?_insert [DecidableEq κ] (m : OrderedMap κ ν) (k : κ) (v : ν) (k' : κ) :
    (m.insert k v).get? k' = if k' = k then some v else m.get? k' :=
  lookup_writeEntry m.entries k v k'

@[simp] theorem get?_insert_self [DecidableEq κ] (m : OrderedMap κ ν) (k : κ) (v : ν) :
    (m.insert k v).get? k = some v := by simp [get?_insert]

theorem keys_insert [DecidableEq κ] (m : OrderedMap κ ν) (k : κ) (v : ν) :
    (m.insert k v).keys = if k ∈ m.keys then m.keys else m.keys ++ [k] :=
  map_fst_writeEntry m.entries k v

theorem writeEntry_append [DecidableEq κ] {es : List (κ × ν)} {k : κ}
    (h : k ∉ es.map Prod.fst) (fs : List (κ × ν)) (v : ν) :
    writeEntry (es ++ fs) k v = es ++ writeEntry fs k v := by
  induction es with
  | nil => rfl
  | cons e es ih =>
    rw [List.map_cons, List.mem_cons, not_or] at h
    rw [List.cons_append, writeEntry, if_neg (fun q => h.1 q.symm), ih h.2, List.cons_append]

/-- A new key is written at the end. -/
theorem writeEntry_of_not_mem [DecidableEq κ] {es : List (κ × ν)} {k : κ}
    (h : k ∉ es.map Prod.fst) (v : ν) : writeEntry es k v = es ++ [(k, v)] := by
  have ha := writeEntry_append h [] v
  rwa [List.append_nil] at ha

/-- A key that has a value is written in its place. -/
theorem entries_insert_of_split [DecidableEq κ] {m : OrderedMap κ ν}
    {before after : List (κ × ν)} {k : κ} {v : ν} (h : m.entries = before ++ (k, v) :: after)
    (w : ν) : (m.insert k w).entries = before ++ (k, w) :: after := by
  have hn := m.nodup_keys
  rw [h, List.map_append, List.map_cons, List.nodup_append] at hn
  have hnot : k ∉ before.map Prod.fst := fun hm => hn.2.2 k hm k List.mem_cons_self rfl
  show writeEntry m.entries k w = _
  rw [h, writeEntry_append hnot, writeEntry, if_pos rfl]

theorem entries_insert_of_not_mem [DecidableEq κ] {m : OrderedMap κ ν} {k : κ}
    (h : k ∉ m.keys) (v : ν) : (m.insert k v).entries = m.entries ++ [(k, v)] :=
  writeEntry_of_not_mem h v

theorem values_insert_of_not_mem [DecidableEq κ] {m : OrderedMap κ ν} {k : κ}
    (h : k ∉ m.keys) (v : ν) : (m.insert k v).values = m.values ++ [v] := by
  rw [values, entries_insert_of_not_mem h, List.map_append]
  rfl

/-- Writes a list of pairs from left to right. -/
def insertAll [DecidableEq κ] (m : OrderedMap κ ν) (es : List (κ × ν)) : OrderedMap κ ν :=
  es.foldl (fun acc e => acc.insert e.1 e.2) m

/-- The map that a list of pairs stands for. -/
def ofList [DecidableEq κ] (es : List (κ × ν)) : OrderedMap κ ν := empty.insertAll es

@[simp] theorem insertAll_nil [DecidableEq κ] (m : OrderedMap κ ν) : m.insertAll [] = m := rfl

@[simp] theorem insertAll_cons [DecidableEq κ] (m : OrderedMap κ ν) (e : κ × ν)
    (es : List (κ × ν)) : m.insertAll (e :: es) = (m.insert e.1 e.2).insertAll es := rfl

/-- Keys that are not given leave a look-up alone. -/
theorem get?_insertAll_of_notMem [DecidableEq κ] {m : OrderedMap κ ν} {es : List (κ × ν)} {k : κ}
    (h : k ∉ es.map Prod.fst) : (m.insertAll es).get? k = m.get? k := by
  induction es generalizing m with
  | nil => rfl
  | cons e es ih =>
    rw [List.map_cons, List.mem_cons, not_or] at h
    rw [insertAll_cons, ih h.2, get?_insert, if_neg h.1]

/-- A key that is given holds one of the values that are given for it. -/
theorem exists_get?_insertAll [DecidableEq κ] {m : OrderedMap κ ν} {es : List (κ × ν)} {k : κ}
    (hk : k ∈ es.map Prod.fst) : ∃ v, (k, v) ∈ es ∧ (m.insertAll es).get? k = some v := by
  induction es generalizing m with
  | nil => cases hk
  | cons e es ih =>
    rw [insertAll_cons]
    by_cases hrest : k ∈ es.map Prod.fst
    · obtain ⟨v, hv, hget⟩ := ih (m := m.insert e.1 e.2) hrest
      exact ⟨v, List.mem_cons_of_mem e hv, hget⟩
    · rcases List.mem_cons.1 hk with rfl | hk
      · exact ⟨e.2, List.mem_cons_self, by rw [get?_insertAll_of_notMem hrest, get?_insert_self]⟩
      · exact absurd hk hrest

/-- A key that is given, and with one value only, holds this value. -/
theorem get?_insertAll_of_forall [DecidableEq κ] {m : OrderedMap κ ν} {es : List (κ × ν)} {k : κ}
    {v : ν} (hk : k ∈ es.map Prod.fst) (hv : ∀ e ∈ es, e.1 = k → e.2 = v) :
    (m.insertAll es).get? k = some v := by
  obtain ⟨w, hw, hget⟩ := exists_get?_insertAll (m := m) hk
  rw [hget, ← hv _ hw rfl]

/-- The entries after a write are the written one and old ones. -/
theorem mem_writeEntry [DecidableEq κ] {es : List (κ × ν)} {k : κ} {v : ν} {e : κ × ν}
    (h : e ∈ writeEntry es k v) : e = (k, v) ∨ e ∈ es := by
  induction es with
  | nil => exact .inl (by simpa [writeEntry] using h)
  | cons d es ih =>
    simp only [writeEntry] at h
    split at h
    · next hd =>
      rcases List.mem_cons.1 h with rfl | h
      · exact .inl (by rw [hd])
      · exact .inr (List.mem_cons_of_mem d h)
    · rcases List.mem_cons.1 h with rfl | h
      · exact .inr List.mem_cons_self
      · exact (ih h).imp id (List.mem_cons_of_mem d)

theorem writeEntry_ne_nil [DecidableEq κ] (es : List (κ × ν)) (k : κ) (v : ν) :
    writeEntry es k v ≠ [] := by
  cases es with
  | nil => simp [writeEntry]
  | cons e es =>
    simp only [writeEntry]
    split <;> simp

theorem mem_entries_insertAll [DecidableEq κ] {m : OrderedMap κ ν} {es : List (κ × ν)}
    {e : κ × ν} (h : e ∈ (m.insertAll es).entries) : e ∈ m.entries ∨ e ∈ es := by
  induction es generalizing m with
  | nil => exact .inl h
  | cons d es ih =>
    rcases ih h with hm | hs
    · rcases mem_writeEntry hm with rfl | hm
      · exact .inr List.mem_cons_self
      · exact .inl hm
    · exact .inr (List.mem_cons_of_mem d hs)

theorem entries_insertAll_ne_nil [DecidableEq κ] {m : OrderedMap κ ν} (h : m.entries ≠ [])
    (es : List (κ × ν)) : (m.insertAll es).entries ≠ [] := by
  induction es generalizing m with
  | nil => exact h
  | cons e es ih => exact ih (writeEntry_ne_nil m.entries e.1 e.2)

/-- The entries of the map that a list of pairs stands for are among the pairs. -/
theorem mem_of_mem_entries_ofList [DecidableEq κ] {es : List (κ × ν)} {e : κ × ν}
    (h : e ∈ (ofList es).entries) : e ∈ es :=
  (mem_entries_insertAll h).resolve_left List.not_mem_nil

/-- The map that a list of some pairs stands for has entries. -/
theorem entries_ofList_ne_nil [DecidableEq κ] {es : List (κ × ν)} (h : es ≠ []) :
    (ofList es).entries ≠ [] := by
  cases es with
  | nil => exact absurd rfl h
  | cons e es => exact entries_insertAll_ne_nil (writeEntry_ne_nil [] e.1 e.2) es

/-- New keys are written at the end. -/
theorem entries_insertAll_of_nodup [DecidableEq κ] {m : OrderedMap κ ν} {es : List (κ × ν)}
    (h : (m.keys ++ es.map Prod.fst).Nodup) : (m.insertAll es).entries = m.entries ++ es := by
  induction es generalizing m with
  | nil => rw [insertAll_nil, List.append_nil]
  | cons e es ih =>
    have hnew : e.1 ∉ m.keys := by
      intro hm
      exact (List.nodup_append.1 h).2.2 e.1 hm e.1 List.mem_cons_self rfl
    have hkeys : (m.insert e.1 e.2).keys = m.keys ++ [e.1] := by
      rw [keys_insert, if_neg hnew]
    rw [insertAll_cons, ih, entries_insert_of_not_mem hnew, List.append_assoc]
    · rfl
    · rw [hkeys, List.append_assoc]
      exact h

/-! ## Removing and changing values -/

/-- The map without a key. -/
def erase [DecidableEq κ] (m : OrderedMap κ ν) (k : κ) : OrderedMap κ ν :=
  ⟨m.entries.filter (fun e => e.1 ≠ k), m.nodup_keys.sublist (List.filter_sublist.map _)⟩

theorem get?_erase [DecidableEq κ] (m : OrderedMap κ ν) (k k' : κ) :
    (m.erase k).get? k' = if k' = k then none else m.get? k' := by
  refine Option.ext fun v => ?_
  rw [get?_eq_some_iff, erase, List.mem_filter, ← get?_eq_some_iff]
  by_cases h : k' = k <;> simp [h]

/-- A key that has no value need not be removed. -/
theorem erase_of_not_mem [DecidableEq κ] {m : OrderedMap κ ν} {k : κ} (h : k ∉ m.keys) :
    m.erase k = m := by
  have hentries : m.entries.filter (fun e => e.1 ≠ k) = m.entries := by
    refine List.filter_eq_self.2 fun e he => decide_eq_true ?_
    rintro rfl
    exact h (List.mem_map_of_mem he)
  simp only [erase, hentries]

/-- Removing a key undoes a write of it, and any other write may be done before or after. -/
theorem erase_insert [DecidableEq κ] (m : OrderedMap κ ν) (k : κ) (v : ν) (k' : κ) :
    (m.insert k v).erase k' = if k = k' then m.erase k' else (m.erase k').insert k v := by
  have hentries : ∀ es : List (κ × ν), (writeEntry es k v).filter (fun e => e.1 ≠ k') =
      if k = k' then es.filter (fun e => e.1 ≠ k') else
        writeEntry (es.filter fun e => e.1 ≠ k') k v := by
    intro es
    induction es with
    | nil => by_cases h : k = k' <;> simp [writeEntry, h]
    | cons e es ih =>
      by_cases h : k = k'
      · by_cases he : e.1 = k' <;> simp_all [writeEntry]
      · by_cases he : e.1 = k
        · simp [writeEntry, he, h]
        · by_cases he' : e.1 = k' <;> simp_all [writeEntry]
  split
  · next h => simp only [erase, insert, hentries, if_pos h]
  · next h => simp only [erase, insert, hentries, if_neg h]

/-- The map with every value changed; keys and order stay. -/
def mapValues {μ : Type} (f : κ → ν → μ) (m : OrderedMap κ ν) : OrderedMap κ μ :=
  ⟨m.entries.map (fun e => (e.1, f e.1 e.2)), by
    have h : (m.entries.map (fun e => (e.1, f e.1 e.2))).map Prod.fst = m.entries.map Prod.fst := by
      simp [List.map_map, Function.comp_def]
    rw [h]
    exact m.nodup_keys⟩

@[simp] theorem keys_mapValues {μ : Type} (f : κ → ν → μ) (m : OrderedMap κ ν) :
    (m.mapValues f).keys = m.keys := by
  simp [keys, mapValues, List.map_map, Function.comp_def]

theorem values_mapValues {μ : Type} (f : ν → μ) (m : OrderedMap κ ν) :
    (m.mapValues fun _ => f).values = m.values.map f := by
  simp only [values, mapValues, List.map_map]
  rfl

/-- Values may be changed before or after a write. -/
theorem mapValues_insert [DecidableEq κ] {μ : Type} (f : ν → μ) (m : OrderedMap κ ν) (k : κ)
    (v : ν) : (m.insert k v).mapValues (fun _ => f) = (m.mapValues fun _ => f).insert k (f v) := by
  have hentries : ∀ es : List (κ × ν), (writeEntry es k v).map (fun e => (e.1, f e.2)) =
      writeEntry (es.map fun e => (e.1, f e.2)) k (f v) := by
    intro es
    induction es with
    | nil => rfl
    | cons e es ih =>
      simp only [writeEntry, List.map_cons]
      split
      · rfl
      · rw [List.map_cons, ih]
  simp only [mapValues, insert, hentries]

theorem get?_mapValues [DecidableEq κ] {μ : Type} (f : κ → ν → μ) (m : OrderedMap κ ν) (k : κ) :
    (m.mapValues f).get? k = (m.get? k).map (f k) := by
  suffices entries : ∀ es : List (κ × ν),
      (es.map fun e => (e.1, f e.1 e.2)).lookup k = (es.lookup k).map (f k) from entries m.entries
  intro es
  induction es with
  | nil => rfl
  | cons e es ih =>
    rw [List.map_cons, List.lookup_cons, List.lookup_cons, ih]
    by_cases h : k = e.1
    · rw [beq_iff_eq.2 h, h]
      rfl
    · rw [beq_eq_false_iff_ne.2 h]

/-- Whether two maps hold the same keys with related values, whatever their order. -/
def agrees [DecidableEq κ] {μ : Type} (rel : ν → μ → Bool) (m : OrderedMap κ ν)
    (n : OrderedMap κ μ) : Bool :=
  m.size == n.size && m.entries.all fun e => (n.get? e.1).any fun w => rel e.2 w

end OrderedMap

end NestedJoin
