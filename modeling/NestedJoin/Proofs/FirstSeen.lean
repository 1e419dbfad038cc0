import Mathlib.Data.List.Nodup
set_option autoImplicit false

/-!
# First-seen order

`List.eraseDups` keeps of every item its first occurrence.  Here are the laws of that order:
how it grows at the end of a list, how it passes through a filter, and when two lists that
repeat their items differently have it in common.

Main statements: `eraseDups_concat`, `eraseDups_filter` and `SameOrder.eraseDups_eq`.
-/

namespace NestedJoin

variable {α : Type} [BEq α]

/-- Induction along the distinct items of a list: an item may be put in front of what is left
of a list without it. -/
theorem filterInduction {motive : List α → Prop} (nil : motive [])
    (cons : ∀ x l, motive (l.filter fun y => !y == x) → motive (x :: l)) (l : List α) :
    motive l := by
  induction hn : l.length using Nat.strongRecOn generalizing l with
  | ind n ih =>
    cases l with
    | nil => exact nil
    | cons x l =>
      refine cons x l (ih _ ?_ _ rfl)
      rw [← hn, List.length_cons]
      exact Nat.lt_succ_of_le (List.length_filter_le _ _)

variable [LawfulBEq α]

theorem nodup_eraseDups (l : List α) : l.eraseDups.Nodup := by
  induction l using filterInduction with
  | nil => exact List.nodup_nil
  | cons x l ih =>
    rw [List.eraseDups_cons, List.nodup_cons]
    refine ⟨?_, ih⟩
    intro hm
    simpa using (List.mem_filter.1 (List.mem_eraseDups.1 hm)).2

/-- An item at the end is seen for the first time there, or it was seen before. -/
theorem eraseDups_concat [DecidableEq α] (l : List α) (x : α) :
    (l ++ [x]).eraseDups = if x ∈ l then l.eraseDups else l.eraseDups ++ [x] := by
  rw [List.eraseDups_append]
  by_cases hx : x ∈ l <;> simp [List.removeAll, hx, List.eraseDups_cons]

/-- What is left out does not change the order of the rest. -/
theorem eraseDups_filter (p : α → Bool) (l : List α) :
    (l.filter p).eraseDups = l.eraseDups.filter p := by
  induction l using filterInduction with
  | nil => rfl
  | cons x l ih =>
    have hswap : (l.filter p).filter (fun z => !z == x) = (l.filter fun z => !z == x).filter p := by
      rw [List.filter_filter, List.filter_filter]
      exact List.filter_congr fun z _ => Bool.and_comm _ _
    by_cases hx : p x = true
    · rw [List.filter_cons_of_pos hx, List.eraseDups_cons, List.eraseDups_cons,
        List.filter_cons_of_pos hx, hswap, ih]
    · have hgone : (l.filter p).filter (fun z => !z == x) = l.filter p := by
        refine List.filter_eq_self.2 fun z hz => ?_
        have hzx : z ≠ x := by
          rintro rfl
          exact hx (List.mem_filter.1 hz).2
        simp [hzx]
      rw [List.filter_cons_of_neg hx, List.eraseDups_cons, List.filter_cons_of_neg hx, ← ih,
        ← hswap, hgone]

/-- A list without repetition is in its own first-seen order. -/
theorem eraseDups_of_nodup {l : List α} (h : l.Nodup) : l.eraseDups = l := by
  induction l with
  | nil => rfl
  | cons x l ih =>
    rw [List.nodup_cons] at h
    have hkeep : (l.filter fun z => !z == x) = l := by
      refine List.filter_eq_self.2 fun z hz => ?_
      have hzx : z ≠ x := by
        rintro rfl
        exact h.1 hz
      simp [hzx]
    rw [List.eraseDups_cons, hkeep, ih h.2]

/-! ## Lists with one order -/

/-- Two lists show their items for the first time in one order: whatever is looked for is found
as the same item first. -/
def SameOrder {β : Type} (l m : List β) : Prop := ∀ p : β → Bool, l.find? p = m.find? p

namespace SameOrder

variable {β γ : Type} {l m n : List β}

theorem refl (l : List β) : SameOrder l l := fun _ => rfl

theorem symm (h : SameOrder l m) : SameOrder m l := fun p => (h p).symm

theorem trans (h : SameOrder l m) (h' : SameOrder m n) : SameOrder l n :=
  fun p => (h p).trans (h' p)

theorem map (h : SameOrder l m) (f : β → γ) : SameOrder (l.map f) (m.map f) := by
  intro p
  rw [List.find?_map, List.find?_map, h]

theorem filter (h : SameOrder l m) (q : β → Bool) : SameOrder (l.filter q) (m.filter q) := by
  intro p
  rw [List.find?_filter, List.find?_filter, h]

theorem mem (h : SameOrder l m) {x : β} (hx : x ∈ l) : x ∈ m := by
  classical
  have hfound : (l.find? fun y => decide (y = x)).isSome = true := by
    rw [List.find?_isSome]
    exact ⟨x, hx, decide_eq_true rfl⟩
  rw [h] at hfound
  obtain ⟨y, hy, hq⟩ := List.find?_isSome.1 hfound
  rwa [← of_decide_eq_true hq]

theorem eq_nil (h : SameOrder l []) : l = [] := by
  cases l with
  | nil => rfl
  | cons x l => exact absurd (h.mem List.mem_cons_self) List.not_mem_nil

/-- The distinct items of both lists are the same. -/
theorem eraseDups_eq {l m : List α} (h : SameOrder l m) : l.eraseDups = m.eraseDups := by
  induction l using filterInduction generalizing m with
  | nil => rw [h.symm.eq_nil]
  | cons x l ih =>
    cases m with
    | nil => exact absurd h.eq_nil (List.cons_ne_nil x l)
    | cons y m =>
      obtain rfl : x = y := Option.some.inj (h fun _ => true)
      have hrest := h.filter fun z => !z == x
      rw [List.filter_cons_of_neg (by simp), List.filter_cons_of_neg (by simp)] at hrest
      rw [List.eraseDups_cons, List.eraseDups_cons, ih hrest]

/-- Items may be repeated in their places. -/
theorem flatMap_const {δ : Type} {f : β → γ} {copies : β → List δ} (h : ∀ x ∈ l, copies x ≠ []) :
    SameOrder (l.flatMap fun x => (copies x).map fun _ => f x) (l.map f) := by
  intro p
  induction l with
  | nil => rfl
  | cons x l ih =>
    have hrest := ih fun y hy => h y (List.mem_cons_of_mem x hy)
    rw [List.flatMap_cons, List.find?_append, List.map_cons, List.find?_cons, hrest]
    cases hp : p (f x) with
    | true =>
      obtain ⟨y, ys, hc⟩ := List.exists_cons_of_ne_nil (h x List.mem_cons_self)
      simp [hc, hp]
    | false =>
      have hnone : ((copies x).map fun _ => f x).find? p = none := by
        simp [hp]
      rw [hnone, Option.none_or]

/-- A whole list may be repeated. -/
theorem flatMap_same {l : List γ} (h : l ≠ []) (m : List β) :
    SameOrder (l.flatMap fun _ => m) m := by
  obtain ⟨x, l, rfl⟩ := List.exists_cons_of_ne_nil h
  intro p
  rw [List.flatMap_cons, List.find?_append]
  cases hm : m.find? p with
  | some y => rfl
  | none =>
    rw [Option.none_or, List.find?_eq_none]
    intro y hy
    obtain ⟨_, -, hy⟩ := List.mem_flatMap.1 hy
    exact List.find?_eq_none.1 hm y hy

end SameOrder

end NestedJoin
