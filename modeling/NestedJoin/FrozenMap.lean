import NestedJoin.Fault
import NestedJoin.Value.Fingerprint
set_option autoImplicit false

/-!
# Frozen maps

A frozen map takes values to values and is never changed; adding to it makes another map.
Keys are scalars and count by what they denote, so `1` and `true` are one key; the key that
was written first is the one that shows.  Two maps are equal if they hold equal values
under the same keys, in any order, and a map whose values are all scalars can itself be
part of a key and has a hash.

Main statements: `get?_put`, which says what a write changes, and `sameHash_of_perm`, the
order of the entries does not show in a hash.
-/

namespace NestedJoin

/-- A map from scalars to values, in the order of the keys' first writing. -/
structure FrozenMap where
  /-- for what a key denotes, the key as it was first written and its value -/
  entries : OrderedMap Atom (Value × Value)

namespace FrozenMap

/-- The map without entries. -/
def empty : FrozenMap := ⟨.empty⟩

instance : Inhabited FrozenMap := ⟨empty⟩

/-! ## Views -/

/-- The entries in order. -/
def pairs (m : FrozenMap) : List (Value × Value) := m.entries.values

/-- The number of entries. -/
def size (m : FrozenMap) : Nat := m.entries.size

/-- What a key denotes; what is no scalar is no key. -/
def keyAtom (k : Value) : Except Fault Atom :=
  match k.atom? with
  | some a => .ok a
  | none => .error .notHashable

/-- The value under a key, if there is one. -/
def get? (m : FrozenMap) (k : Value) : Except Fault (Option Value) :=
  (keyAtom k).map fun a => (m.entries.get? a).map Prod.snd

/-- The value under a key, or the fault of there being none. -/
def get (m : FrozenMap) (k : Value) : Except Fault Value := do
  match ← m.get? k with
  | some v => return v
  | none => throw (.missingKey k)

/-- The value under a key, or another one. -/
def getOr (m : FrozenMap) (k default : Value) : Except Fault Value :=
  (m.get? k).map fun v => v.getD default

/-- Whether a key has a value. -/
def contains (m : FrozenMap) (k : Value) : Except Fault Bool := (m.get? k).map Option.isSome

/-- The written form of a map. -/
def text (m : FrozenMap) : String := "<frozendict " ++ (Value.dict m.pairs).text ++ ">"

/-! ## Making -/

/-- The map with a value under a key; a key that denotes the same stays as it was written. -/
def put (m : FrozenMap) (k v : Value) : Except Fault FrozenMap :=
  (keyAtom k).map fun a =>
    let shown := ((m.entries.get? a).map Prod.fst).getD k
    ⟨m.entries.insert a (shown, v)⟩

/-- The map with pairs written from left to right. -/
def putAll (m : FrozenMap) (es : List (Value × Value)) : Except Fault FrozenMap :=
  es.foldlM (fun acc e => acc.put e.1 e.2) m

/-- The name that a call gives to the map it is about, so that nothing can be passed by it. -/
def receiverName : String := "self"

/-- The map with values passed by name written from left to right. -/
def putNamed (m : FrozenMap) (named : List (String × Value)) : Except Fault FrozenMap :=
  if named.any (·.1 == receiverName) then .error .wrongArguments
  else m.putAll (named.map fun e => (.str e.1, e.2))

/-- The map that a list of pairs stands for. -/
def ofPairs (es : List (Value × Value)) : Except Fault FrozenMap := empty.putAll es

/-- What a write changes. -/
theorem get?_put {m m' : FrozenMap} {k v : Value} {a : Atom} (ha : k.atom? = some a)
    (h : m.put k v = .ok m') {k' : Value} {a' : Atom} (ha' : k'.atom? = some a') :
    m'.get? k' = if a' = a then .ok (some v) else m.get? k' := by
  simp only [put, keyAtom, ha, Except.map, Except.ok.injEq] at h
  subst h
  simp only [get?, keyAtom, ha', Except.map, OrderedMap.get?_insert]
  split <;> simp

/-! ## Comparison -/

/-- Whether two maps hold equal values under the same keys. -/
def same (m n : FrozenMap) : Bool := m.entries.agrees (fun p q => p.2.same q.2) n.entries

/-- Whether a map can be part of a key. -/
def isHashable (m : FrozenMap) : Bool := m.pairs.all fun p => p.2.isScalar

/-- Whether two maps have one hash: it sees no more than the fingerprints of the entries. -/
def sameHash (m n : FrozenMap) : Except Fault Bool :=
  match Value.pairFingerprints? m.pairs, Value.pairFingerprints? n.pairs with
  | some xs, some ys => .ok (Fingerprint.agree xs ys)
  | _, _ => .error .notHashable

/-- The order of the entries does not show in a hash. -/
theorem sameHash_of_perm {m n : FrozenMap} {xs ys : List (Fingerprint × Fingerprint)}
    (hm : Value.pairFingerprints? m.pairs = some xs)
    (hn : Value.pairFingerprints? n.pairs = some ys) (h : xs.Perm ys) :
    m.sameHash n = .ok true := by
  simp [sameHash, hm, hn, Fingerprint.agree_of_perm h]

/-- The different maps among some, of equal ones the first. -/
def distinct (ms : List FrozenMap) : List FrozenMap :=
  ms.foldl (fun acc m => if acc.any m.same then acc else acc ++ [m]) []

/-- How many different maps there are among some, if all can be part of a key. -/
def countDistinct (ms : List FrozenMap) : Except Fault Nat :=
  if ms.all isHashable then .ok (distinct ms).length else .error .notHashable

end FrozenMap

end NestedJoin
