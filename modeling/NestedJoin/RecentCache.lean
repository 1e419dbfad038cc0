set_option autoImplicit false

/-!
# Bounded caches

A cache that holds a limited number of values under keys.  A value that is stored or used
counts as the most recent one; when there is no room, the value whose last use is longest
ago is forgotten.

Main statements: `get?_store_self`, a value just stored is held, and `get?_store`, storing
changes no other value that is still held.
-/

namespace NestedJoin

/-- At most `capacity` values under keys, the most recently used first. -/
structure RecentCache (κ ν : Type) (capacity : Nat) where
  entries : List (κ × ν)
  length_le : entries.length ≤ capacity

namespace RecentCache

variable {κ ν : Type} {capacity : Nat}

/-- A cache that holds nothing. -/
def empty : RecentCache κ ν capacity := ⟨[], Nat.zero_le _⟩

instance : Inhabited (RecentCache κ ν capacity) := ⟨empty⟩

/-- The value held under a key. -/
def get? [DecidableEq κ] (c : RecentCache κ ν capacity) (k : κ) : Option ν := c.entries.lookup k

@[simp] theorem get?_empty [DecidableEq κ] (k : κ) :
    (empty : RecentCache κ ν capacity).get? k = none := rfl

/-- The cache with a value stored under a key as the most recent one. -/
def store [DecidableEq κ] (c : RecentCache κ ν capacity) (k : κ) (v : ν) :
    RecentCache κ ν capacity :=
  ⟨((k, v) :: c.entries.filter fun e => e.1 ≠ k).take capacity, by
    simp only [List.length_take]
    exact Nat.min_le_left _ _⟩

/-- A value just stored is held, if there is room for any. -/
theorem get?_store_self [DecidableEq κ] (c : RecentCache κ ν capacity) (k : κ) (v : ν)
    (h : 0 < capacity) : (c.store k v).get? k = some v := by
  obtain ⟨n, rfl⟩ := Nat.exists_eq_succ_of_ne_zero (Nat.pos_iff_ne_zero.1 h)
  simp [store, get?]

theorem lookup_take {es : List (κ × ν)} [DecidableEq κ] {n : Nat} {k : κ} {v : ν}
    (h : (es.take n).lookup k = some v) : es.lookup k = some v := by
  induction es generalizing n with
  | nil => simp at h
  | cons e es ih =>
    obtain ⟨a, b⟩ := e
    cases n with
    | zero => simp at h
    | succ n =>
      simp only [List.take_succ_cons, List.lookup_cons] at h ⊢
      split at h
      · exact h
      · exact ih h

theorem lookup_filter_ne {es : List (κ × ν)} [DecidableEq κ] {k k' : κ} (h : k' ≠ k) :
    (es.filter fun e => e.1 ≠ k).lookup k' = es.lookup k' := by
  induction es with
  | nil => rfl
  | cons e es ih =>
    obtain ⟨a, b⟩ := e
    by_cases ha : a = k
    · subst ha
      have hb : (k' == a) = false := by simp [h]
      simpa [List.lookup_cons, hb] using ih
    · by_cases hk : k' = a
      · simp [ha, hk]
      · have hb : (k' == a) = false := by simp [hk]
        simpa [ha, List.lookup_cons, hb] using ih

/-- Whatever is held after a value was stored is that value, or was held before. -/
theorem get?_store [DecidableEq κ] {c : RecentCache κ ν capacity} {k k' : κ} {v w : ν}
    (h : (c.store k v).get? k' = some w) : if k' = k then w = v else c.get? k' = some w := by
  have ht := lookup_take h
  split
  · next hk => subst hk; simpa using ht.symm
  · next hk =>
    have hb : (k' == k) = false := by simp [hk]
    simp only [List.lookup_cons, hb] at ht
    rwa [lookup_filter_ne hk] at ht

end RecentCache

end NestedJoin
