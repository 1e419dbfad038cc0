import Mathlib.Data.List.Induction
import Mathlib.Logic.Basic
import NestedJoin.Registry
import NestedJoin.Proofs.GraphTree
set_option autoImplicit false

/-!
# Installing defaults

A registry is asked for its current set of defaults, initialised and reset, in any order.  A request
for the current set fails if there is no current set and no schema to make one from, but it leaves a
blank set behind as the current one.  A blank set makes every further request fail, also one with a
schema, until the registry is reset or initialised.

Main statements: `isBlocked_ofRequests_iff`, `Shifted.replies` and `failure_traceless_iff`.
-/

namespace NestedJoin

namespace Registry

variable {σ β : Type}

/-! ## Requests -/

/-- What a registry may be asked for. -/
inductive Request (σ β : Type) where
  /-- the current set, and what to make it from if there is none -/
  | get (schema : Option σ) (bind : Option β)
  /-- a current set with a schema and perhaps a connection -/
  | init (schema : σ) (bind : Option β)
  | reset
  /-- whether there is a current set with a schema -/
  | isInitialized
  deriving DecidableEq, Repr

/-- What a registry answers. -/
inductive Reply (σ β : Type) where
  /-- a set with its number, or why there is none -/
  | set (outcome : Except Fault (Nat × Defaults σ β))
  | done
  | truth (value : Bool)

/-- The reply that gives the set of a number. -/
def reading (r : Registry σ β) (answer : Except Fault Nat) : Reply σ β :=
  .set (answer.map fun id => (id, (r.get? id).getD .blank))

/-- The reply to a request, and the registry afterwards. -/
def serve (r : Registry σ β) : Request σ β → Reply σ β × Registry σ β
  | .get schema bind => ((r.get schema bind).2.reading (r.get schema bind).1, (r.get schema bind).2)
  | .init schema bind =>
    ((r.init (some schema) bind).2.reading (r.init (some schema) bind).1,
      (r.init (some schema) bind).2)
  | .reset => (.done, r.reset)
  | .isInitialized => (.truth r.isInitialized, r)

/-- The registry after some requests. -/
def serveAll (r : Registry σ β) (qs : List (Request σ β)) : Registry σ β :=
  qs.foldl (fun r q => (r.serve q).2) r

/-- The registry after requests from the start. -/
def ofRequests (qs : List (Request σ β)) : Registry σ β := empty.serveAll qs

/-- The replies to some requests. -/
def replies (r : Registry σ β) : List (Request σ β) → List (Reply σ β)
  | [] => []
  | q :: qs => (r.serve q).1 :: (r.serve q).2.replies qs

/-- A request is answered with a fault. -/
def Fails (r : Registry σ β) (q : Request σ β) : Prop := ∃ f, (r.serve q).1 = .set (.error f)

/-- Whether a request makes the registry forget a blank set. -/
def Request.renews : Request σ β → Bool
  | .init _ _ => true
  | .reset => true
  | _ => false

/-- A request failed, and the registry was neither reset nor initialised since. -/
def FailedSince (qs : List (Request σ β)) : Prop :=
  ∃ before q after, qs = before ++ q :: after ∧ (ofRequests before).Fails q ∧
    ∀ p ∈ after, p.renews = false

/-- The first request that is more than a question asks for the current set and has a schema. -/
def OffersFirst (qs : List (Request σ β)) : Prop :=
  ∃ questions schema bind rest, qs = questions ++ .get (some schema) bind :: rest ∧
    ∀ q ∈ questions, q = .isInitialized

/-- The current set has no schema. -/
def IsBlocked (r : Registry σ β) : Prop := r.current ≠ none ∧ r.isInitialized = false

/-! ## What a request does -/

/-- The number of the current set. -/
def currentId (r : Registry σ β) : Option Nat := r.current.map Fin.val

section Step

variable {r : Registry σ β}

theorem isInitialized_of_current_eq_none (h : r.current = none) : r.isInitialized = false := by
  simp [isInitialized, defaults?, h]

theorem exists_current_of_isInitialized (h : r.isInitialized = true) : ∃ id, r.current = some id :=
  Option.ne_none_iff_exists'.1 fun hnone => by simp [isInitialized_of_current_eq_none hnone] at h

theorem current_eq_none_of_not (h : r.isInitialized = false) (hb : ¬r.IsBlocked) :
    r.current = none :=
  not_not.1 fun hne => hb ⟨hne, h⟩

@[simp] theorem isInitialized_create (d : Defaults σ β) :
    (r.create d).isInitialized = d.schema.isSome :=
  isInitialized_of_defaults? (defaults?_create r d)

theorem isInitialized_configure {id : Fin r.sets.length} (h : r.current = some id) (s : σ)
    (bind : Option β) : (r.configure id (some s) bind).isInitialized = true :=
  isInitialized_of_defaults? (defaults?_configure h (some s) bind)

@[simp] theorem get?_create (d : Defaults σ β) : (r.create d).get? r.sets.length = some d := by
  simp [get?, create]

theorem isBlocked_create_blank (r : Registry σ β) : (r.create .blank).IsBlocked :=
  ⟨nofun, isInitialized_create _⟩

theorem not_isBlocked_of_isInitialized (h : r.isInitialized = true) : ¬r.IsBlocked :=
  fun hb => Bool.noConfusion (h.symm.trans hb.2)

theorem not_isBlocked_reset (r : Registry σ β) : ¬r.reset.IsBlocked := fun hb => hb.1 rfl

/-- The rules by which requests are answered. -/
inductive Answers (r : Registry σ β) : Request σ β → Reply σ β → Registry σ β → Prop
  | question : Answers r .isInitialized (.truth r.isInitialized) r
  | reset : Answers r .reset .done r.reset
  /-- the current set is given, whatever it is asked for with -/
  | given {id : Fin r.sets.length} (h : r.isInitialized = true) (hc : r.current = some id)
    (schema : Option σ) (bind : Option β) :
    Answers r (.get schema bind) (.set (.ok (id, r.sets.get id))) r
  /-- a blank set is never given -/
  | refused (h : r.IsBlocked) (schema : Option σ) (bind : Option β) :
    Answers r (.get schema bind) (.set (.error .registryEmpty)) r
  /-- there is nothing to give, and a blank set is made -/
  | missing (h : r.current = none) (bind : Option β) :
    Answers r (.get none bind) (.set (.error .registryEmpty)) (r.create .blank)
  /-- a set is made and given -/
  | offered (h : r.current = none) (s : σ) (bind : Option β) :
    Answers r (.get (some s) bind) (.set (.ok (r.sets.length, ⟨some s, bind⟩)))
      (r.create ⟨some s, bind⟩)
  /-- the current set gets new contents -/
  | changed {id : Fin r.sets.length} (h : r.isInitialized = true) (hc : r.current = some id)
    (s : σ) (bind : Option β) :
    Answers r (.init s bind) (.set (.ok (id, ⟨some s, bind⟩))) (r.configure id (some s) bind)
  /-- a set is made, in place of a blank one too -/
  | installed (h : r.isInitialized = false) (s : σ) (bind : Option β) :
    Answers r (.init s bind) (.set (.ok (r.sets.length, ⟨some s, bind⟩)))
      (r.create ⟨some s, bind⟩)

theorem get_of_current_eq_none (h : r.current = none) (schema : Option σ) (bind : Option β) :
    r.get schema bind = ((r.create (.ofArguments schema bind)).currentOrFault,
      r.create (.ofArguments schema bind)) := by
  simp only [get, h]

theorem get_of_current_eq_some {id : Fin r.sets.length} (h : r.current = some id)
    (schema : Option σ) (bind : Option β) : r.get schema bind = (r.currentOrFault, r) := by
  simp only [get, h]

theorem serve_get_some (h : r.current = none) (s : σ) (bind : Option β) :
    r.serve (.get (some s) bind) =
      (.set (.ok (r.sets.length, ⟨some s, bind⟩)), r.create ⟨some s, bind⟩) := by
  rw [serve, get_of_current_eq_none h, Defaults.ofArguments, currentOrFault_create rfl, reading]
  simp only [Except.map, get?_create, Option.getD_some]

theorem answers_get (r : Registry σ β) (schema : Option σ) (bind : Option β) :
    r.Answers (.get schema bind) (r.serve (.get schema bind)).1 (r.serve (.get schema bind)).2 := by
  cases hc : r.current with
  | none =>
    cases schema with
    | none =>
      have hfault : (r.create .blank).currentOrFault = .error .registryEmpty := by
        simp only [currentOrFault, isInitialized_create]
        rfl
      rw [serve, get_of_current_eq_none hc, Defaults.ofArguments, hfault]
      exact .missing hc bind
    | some s =>
      rw [serve_get_some hc]
      exact .offered hc s bind
  | some id =>
    rw [serve, get_of_current_eq_some hc]
    cases hi : r.isInitialized with
    | true =>
      have hreply : r.reading r.currentOrFault = .set (.ok (id.val, r.sets.get id)) := by
        simp [reading, currentOrFault, hc, hi, Except.map, get?]
      rw [hreply]
      exact .given hi hc schema bind
    | false =>
      have hreply : r.reading r.currentOrFault = .set (.error .registryEmpty) := by
        simp [reading, currentOrFault, hc, hi, Except.map]
      rw [hreply]
      exact .refused ⟨by rw [hc]; exact Option.some_ne_none id, hi⟩ schema bind

theorem answers_init (r : Registry σ β) (s : σ) (bind : Option β) :
    r.Answers (.init s bind) (r.serve (.init s bind)).1 (r.serve (.init s bind)).2 := by
  cases hi : r.isInitialized with
  | true =>
    obtain ⟨id, hc⟩ := exists_current_of_isInitialized hi
    have hs : r.serve (.init s bind) =
        (.set (.ok (id.val, ⟨some s, bind⟩)), r.configure id (some s) bind) := by
      simp [serve, init, hc, hi, reading, Except.map, get?, configure]
    rw [hs]
    exact .changed hi hc s bind
  | false =>
    -- a blank set, if there is one, is forgotten before the new one is asked for
    have hreset : r.serve (.init s bind) = r.reset.serve (.get (some s) bind) := by
      cases hc : r.current with
      | none =>
        simp only [serve, init, hc, reset, get]
        rfl
      | some id => simp only [serve, init, hc, hi, Bool.false_eq_true, if_false]
    rw [hreset, serve_get_some rfl]
    exact .installed hi s bind

/-- Every request is answered by one of the rules. -/
theorem answers_of_serve {q : Request σ β} {reply : Reply σ β} {r' : Registry σ β}
    (h : r.serve q = (reply, r')) : r.Answers q reply r' := by
  obtain ⟨rfl, rfl⟩ := Prod.mk.inj h.symm
  cases q with
  | get schema bind => exact answers_get r schema bind
  | init s bind => exact answers_init r s bind
  | reset => exact .reset
  | isInitialized => exact .question

/-- A request fails exactly if it asks for the current set, this is missing or blank, and there is
no schema to make one from or a blank set in the way. -/
theorem serve_eq_fault_iff {q : Request σ β} {f : Fault} :
    (r.serve q).1 = .set (.error f) ↔ f = .registryEmpty ∧ r.isInitialized = false ∧
      ∃ schema bind, q = .get schema bind ∧ (schema = none ∨ r.IsBlocked) := by
  rcases hs : r.serve q with ⟨reply, r'⟩
  cases answers_of_serve hs with
  | question => exact iff_of_false nofun nofun
  | reset => exact iff_of_false nofun nofun
  | given h hc schema bind =>
    exact iff_of_false nofun fun hf => Bool.noConfusion (h.symm.trans hf.2.1)
  | refused h schema bind =>
    refine ⟨?_, ?_⟩
    · rintro ⟨⟩
      exact ⟨rfl, h.2, schema, bind, rfl, Or.inr h⟩
    · rintro ⟨rfl, -⟩
      rfl
  | missing h bind =>
    refine ⟨?_, ?_⟩
    · rintro ⟨⟩
      exact ⟨rfl, isInitialized_of_current_eq_none h, none, bind, rfl, Or.inl rfl⟩
    · rintro ⟨rfl, -⟩
      rfl
  | offered h s bind =>
    refine iff_of_false nofun ?_
    rintro ⟨-, -, schema, bind, hq, rfl | hb⟩
    · cases hq
    · exact hb.1 h
  | changed h hc s bind => exact iff_of_false nofun nofun
  | installed h s bind => exact iff_of_false nofun nofun

/-- A request blocks the registry if it fails, and one that renews nothing leaves it blocked. -/
theorem isBlocked_serve_iff {q : Request σ β} :
    (r.serve q).2.IsBlocked ↔ r.Fails q ∨ q.renews = false ∧ r.IsBlocked := by
  rw [Fails]
  simp only [serve_eq_fault_iff, exists_eq_left]
  rcases hs : r.serve q with ⟨reply, r'⟩
  have hnone : r.current = none → ¬r.IsBlocked := fun hc hb => hb.1 hc
  cases answers_of_serve hs with
  | question => simp [Request.renews]
  | reset => simp [Request.renews, not_isBlocked_reset]
  | given h hc schema bind => simp [not_isBlocked_of_isInitialized h, h]
  | refused h schema bind => simp [h, h.2]
  | missing h bind => simp [isBlocked_create_blank, isInitialized_of_current_eq_none h]
  | offered h s bind => simp [not_isBlocked_of_isInitialized, hnone h]
  | changed h hc s bind =>
    simp [Request.renews, not_isBlocked_of_isInitialized (isInitialized_configure hc s bind)]
  | installed h s bind => simp [Request.renews, not_isBlocked_of_isInitialized]

theorem get_of_currentId {id : Nat} (hi : r.isInitialized = true) (hid : r.currentId = some id)
    (schema : Option σ) (bind : Option β) : r.get schema bind = (.ok id, r) := by
  obtain ⟨id', hc, rfl⟩ := Option.map_eq_some_iff.1 hid
  rw [get_of_current_eq_some hc]
  simp only [currentOrFault, hc, hi, if_true]

/-- The current set keeps its number until a reset, and its contents until something is installed.
-/
theorem current_serve {id : Nat} (hi : r.isInitialized = true) (hid : r.currentId = some id)
    {q : Request σ β} (hq : q ≠ .reset) :
    (r.serve q).2.isInitialized = true ∧ (r.serve q).2.currentId = some id ∧
      ((∀ s bind, q ≠ .init s bind) → (r.serve q).2.get? id = r.get? id) := by
  rcases hs : r.serve q with ⟨reply, r'⟩
  cases answers_of_serve hs with
  | question => exact ⟨hi, hid, fun _ => rfl⟩
  | reset => exact absurd rfl hq
  | given h hc schema bind => exact ⟨hi, hid, fun _ => rfl⟩
  | refused h schema bind => exact absurd h (not_isBlocked_of_isInitialized hi)
  | missing h bind =>
    rw [isInitialized_of_current_eq_none h] at hi
    cases hi
  | offered h s bind =>
    rw [isInitialized_of_current_eq_none h] at hi
    cases hi
  | changed h hc s bind =>
    refine ⟨isInitialized_configure hc s bind, ?_, fun hno => absurd rfl (hno s bind)⟩
    rw [← hid, currentId, currentId]
    simp [configure, hc]
  | installed h s bind =>
    rw [hi] at h
    cases h

end Step

/-! ## Runs -/

theorem serveAll_concat (r : Registry σ β) (qs : List (Request σ β)) (q : Request σ β) :
    r.serveAll (qs ++ [q]) = ((r.serveAll qs).serve q).2 := by
  rw [serveAll, List.foldl_append]
  rfl

theorem failedSince_concat_iff (qs : List (Request σ β)) (q : Request σ β) :
    FailedSince (qs ++ [q]) ↔ (ofRequests qs).Fails q ∨ q.renews = false ∧ FailedSince qs := by
  constructor
  · rintro ⟨before, p, after, hs, hp, hafter⟩
    rcases split_of_concat_eq hs with ⟨rfl, rfl, rfl⟩ | ⟨rest, rfl, rfl⟩
    · exact Or.inl hp
    · exact Or.inr ⟨hafter q (by simp), before, p, rest, rfl, hp,
        fun p' hp' => hafter p' (List.mem_append_left _ hp')⟩
  · rintro (h | ⟨hq, before, p, after, rfl, hp, hafter⟩)
    · exact ⟨qs, q, [], rfl, h, nofun⟩
    · refine ⟨before, p, after ++ [q], by simp, hp, fun p' hp' => ?_⟩
      rcases List.mem_append.1 hp' with hp' | hp'
      · exact hafter p' hp'
      · rw [List.mem_singleton.1 hp']
        exact hq

/-- A registry is blocked exactly if a request failed and nothing renewed the registry since. -/
theorem isBlocked_ofRequests_iff (qs : List (Request σ β)) :
    (ofRequests qs).IsBlocked ↔ FailedSince qs := by
  induction qs using List.reverseRecOn with
  | nil =>
    refine iff_of_false (fun hb => hb.1 rfl) ?_
    rintro ⟨before, q, after, hs, -⟩
    cases before <;> cases hs
  | append_singleton qs q ih =>
    rw [ofRequests, serveAll_concat, isBlocked_serve_iff, failedSince_concat_iff, ← ih]
    rfl

/-- The current set is given until the next reset, with its contents until something is installed.
-/
theorem current_serveAll {r : Registry σ β} {id : Nat} (hi : r.isInitialized = true)
    (hid : r.currentId = some id) {later : List (Request σ β)} (hlater : .reset ∉ later) :
    (r.serveAll later).isInitialized = true ∧ (r.serveAll later).currentId = some id ∧
      ((∀ s bind, .init s bind ∉ later) → (r.serveAll later).get? id = r.get? id) := by
  induction later using List.reverseRecOn with
  | nil => exact ⟨hi, hid, fun _ => rfl⟩
  | append_singleton qs q ih =>
    rw [List.mem_append, List.mem_singleton, not_or] at hlater
    obtain ⟨hi', hid', hsame⟩ := ih hlater.1
    obtain ⟨hi'', hid'', hsame'⟩ := current_serve hi' hid' (q := q) (fun hq => hlater.2 hq.symm)
    rw [serveAll_concat]
    refine ⟨hi'', hid'', fun hno => ?_⟩
    rw [hsame' fun s bind hq => hno s bind (by rw [hq]; simp),
      hsame fun s bind hm => hno s bind (List.mem_append_left _ hm)]

/-! ## Renumbered sets -/

/-- The number of a set after another one was put in at a number. -/
def shift (n i : Nat) : Nat := if i < n then i else i + 1

theorem shift_injective (n : Nat) : Function.Injective (shift n) := by
  intro i j h
  simp only [shift] at h
  split at h <;> split at h <;> omega

theorem shift_of_le {n i : Nat} (h : n ≤ i) : shift n i = i + 1 := if_neg (Nat.not_lt.2 h)

/-- A reply with other numbers of sets. -/
def Reply.renumbered (f : Nat → Nat) : Reply σ β → Reply σ β
  | .set outcome => .set (outcome.map fun p => (f p.1, p.2))
  | .done => .done
  | .truth value => .truth value

theorem Reply.renumbered_id : (Reply.renumbered id : Reply σ β → Reply σ β) = id := by
  funext reply
  cases reply with
  | set outcome => cases outcome <;> rfl
  | done => rfl
  | truth value => rfl

/-- A registry has the sets of another one and one more, which is not current. -/
structure Shifted (n : Nat) (r' r : Registry σ β) : Prop where
  le_length : n ≤ r.sets.length
  length_eq : r'.sets.length = r.sets.length + 1
  get?_eq : ∀ i, r'.get? (shift n i) = r.get? i
  currentId_eq : r'.currentId = r.currentId.map (shift n)

theorem get?_create_eq (r : Registry σ β) (d : Defaults σ β) (i : Nat) :
    (r.create d).get? i = if i = r.sets.length then some d else r.get? i := by
  show (r.sets ++ [d])[i]? = _
  rw [List.getElem?_append]
  split
  · next h => rw [if_neg (Nat.ne_of_lt h)]; rfl
  · next h =>
    split
    · next he => simp [he]
    · next hne =>
      have hlt : r.sets.length < i := by omega
      rw [get?, List.getElem?_eq_none (Nat.le_of_lt hlt), List.getElem?_eq_none (by simp; omega)]

theorem get?_configure (r : Registry σ β) (id : Fin r.sets.length) (s : σ) (bind : Option β)
    (i : Nat) : (r.configure id (some s) bind).get? i =
      if i = id then some ⟨some s, bind⟩ else r.get? i := by
  show (r.sets.set id ⟨some s, bind⟩)[i]? = _
  rw [List.getElem?_set]
  by_cases h : i = id
  · simp [h]
  · rw [if_neg fun h' => h h'.symm, if_neg h]
    rfl

theorem currentId_configure {r : Registry σ β} (id : Fin r.sets.length) (schema : Option σ)
    (bind : Option β) : (r.configure id schema bind).currentId = r.currentId := by
  rw [currentId, currentId]
  cases hc : r.current <;> simp [configure, hc]

/-- What answers by the rules is the answer. -/
theorem serve_of_answers {r r' : Registry σ β} {q : Request σ β} {reply : Reply σ β}
    (h : r.Answers q reply r') : r.serve q = (reply, r') := by
  rcases hs : r.serve q with ⟨reply', r''⟩
  have h' := answers_of_serve hs
  cases h with
  | question => cases h'; rfl
  | reset => cases h'; rfl
  | given hi hc => cases h' <;> simp_all [IsBlocked]
  | refused hb => cases h' <;> simp_all [IsBlocked]
  | missing hc => cases h' <;> simp_all [IsBlocked, isInitialized_of_current_eq_none]
  | offered hc => cases h' <;> simp_all [IsBlocked, isInitialized_of_current_eq_none]
  | changed hi hc => cases h' <;> simp_all
  | installed hi => cases h' <;> simp_all

namespace Shifted

variable {n : Nat} {r r' : Registry σ β}

theorem isInitialized_eq (h : Shifted n r' r) : r'.isInitialized = r.isInitialized := by
  have hview : ∀ r : Registry σ β,
      r.isInitialized = (r.currentId.bind r.get?).any fun d => d.schema.isSome := by
    intro r
    rw [isInitialized, defaults?, currentId]
    cases r.current with
    | none => rfl
    | some id => simp [Registry.get?]
  rw [hview, hview, h.currentId_eq]
  cases r.currentId with
  | none => rfl
  | some id => exact congrArg _ (h.get?_eq id)

theorem current_eq_none_iff (h : Shifted n r' r) : r'.current = none ↔ r.current = none := by
  have hid := h.currentId_eq
  rw [currentId, currentId] at hid
  rw [← Option.map_eq_none_iff, hid, Option.map_eq_none_iff, Option.map_eq_none_iff]

theorem isBlocked_iff (h : Shifted n r' r) : r'.IsBlocked ↔ r.IsBlocked := by
  rw [IsBlocked, IsBlocked, h.isInitialized_eq, ne_eq, h.current_eq_none_iff]

theorem exists_current (h : Shifted n r' r) {id : Fin r.sets.length} (hc : r.current = some id) :
    ∃ id', r'.current = some id' ∧ id'.val = shift n id ∧ r'.sets.get id' = r.sets.get id := by
  have hid := h.currentId_eq
  rw [currentId, currentId, hc] at hid
  obtain ⟨id', hc', hval⟩ := Option.map_eq_some_iff.1 hid
  refine ⟨id', hc', hval, ?_⟩
  have hget := h.get?_eq id
  rw [← hval] at hget
  simpa [Registry.get?] using hget

theorem create (h : Shifted n r' r) (d : Defaults σ β) : Shifted n (r'.create d) (r.create d) where
  le_length := Nat.le_trans h.le_length (by simp [Registry.create])
  length_eq := by simp [Registry.create, h.length_eq]
  get?_eq i := by
    have hlast : shift n i = r'.sets.length ↔ i = r.sets.length := by
      rw [h.length_eq, ← shift_of_le h.le_length]
      exact (shift_injective n).eq_iff
    simp only [get?_create_eq, hlast, h.get?_eq]
  currentId_eq := by
    show some r'.sets.length = some (shift n r.sets.length)
    rw [h.length_eq, shift_of_le h.le_length]

theorem configure (h : Shifted n r' r) {id : Fin r.sets.length} {id' : Fin r'.sets.length}
    (hid : id'.val = shift n id) (s : σ) (bind : Option β) :
    Shifted n (r'.configure id' (some s) bind) (r.configure id (some s) bind) where
  le_length := Nat.le_trans h.le_length (by simp [Registry.configure])
  length_eq := by simp [Registry.configure, h.length_eq]
  get?_eq i := by
    have hsame : shift n i = id' ↔ i = id := by
      rw [hid]
      exact (shift_injective n).eq_iff
    simp only [get?_configure, hsame, h.get?_eq]
  currentId_eq := by rw [currentId_configure, currentId_configure, h.currentId_eq]

/-- A request is answered alike, with other numbers. -/
theorem serve (h : Shifted n r' r) (q : Request σ β) :
    (r'.serve q).1 = (r.serve q).1.renumbered (shift n) ∧
      Shifted n (r'.serve q).2 (r.serve q).2 := by
  rcases hs : r.serve q with ⟨reply, next⟩
  cases answers_of_serve hs with
  | question =>
    refine ⟨?_, h⟩
    show Reply.truth r'.isInitialized = .truth r.isInitialized
    rw [h.isInitialized_eq]
  | reset => exact ⟨rfl, h.le_length, h.length_eq, h.get?_eq, rfl⟩
  | given hi hc schema bind =>
    obtain ⟨id', hc', hid', hset⟩ := h.exists_current hc
    rw [serve_of_answers (.given (h.isInitialized_eq.trans hi) hc' schema bind), hset, hid']
    exact ⟨rfl, h⟩
  | refused hb schema bind =>
    rw [serve_of_answers (.refused (h.isBlocked_iff.2 hb) schema bind)]
    exact ⟨rfl, h⟩
  | missing hc bind =>
    rw [serve_of_answers (.missing (h.current_eq_none_iff.2 hc) bind)]
    exact ⟨rfl, h.create _⟩
  | offered hc s bind =>
    rw [serve_of_answers (.offered (h.current_eq_none_iff.2 hc) s bind), h.length_eq,
      ← shift_of_le h.le_length]
    exact ⟨rfl, h.create _⟩
  | changed hi hc s bind =>
    obtain ⟨id', hc', hid', -⟩ := h.exists_current hc
    rw [serve_of_answers (.changed (h.isInitialized_eq.trans hi) hc' s bind)]
    exact ⟨congrArg (fun k => Reply.set (.ok (k, ⟨some s, bind⟩))) hid', h.configure hid' s bind⟩
  | installed hi s bind =>
    rw [serve_of_answers (.installed (h.isInitialized_eq.trans hi) s bind), h.length_eq,
      ← shift_of_le h.le_length]
    exact ⟨rfl, h.create _⟩

/-- So are any requests. -/
theorem replies (h : Shifted n r' r) (qs : List (Request σ β)) :
    r'.replies qs = (r.replies qs).map (Reply.renumbered (shift n)) := by
  induction qs generalizing r r' with
  | nil => rfl
  | cons q qs ih =>
    obtain ⟨hreply, hnext⟩ := h.serve q
    rw [Registry.replies, Registry.replies, List.map_cons, hreply, ih hnext]

end Shifted

/-! ## Traces of a failure -/

/-- The blank set that a failure leaves behind is forgotten by a reset. -/
theorem shifted_reset_create_blank (r : Registry σ β) :
    Shifted r.sets.length (r.create .blank).reset r.reset where
  le_length := Nat.le_refl _
  length_eq := by simp [create, reset]
  get?_eq i := by
    show (r.create .blank).get? (shift r.sets.length i) = r.get? i
    rw [get?_create_eq, shift]
    split
    · next h => rw [if_neg (Nat.ne_of_lt h)]
    · next h =>
      rw [if_neg (by omega), get?, get?, List.getElem?_eq_none (by omega),
        List.getElem?_eq_none (by omega)]
  currentId_eq := rfl

variable {r : Registry σ β}

theorem OffersFirst.cons_question {qs : List (Request σ β)} (h : OffersFirst qs) :
    OffersFirst (.isInitialized :: qs) := by
  obtain ⟨questions, s, bind, rest, rfl, hquestions⟩ := h
  exact ⟨.isInitialized :: questions, s, bind, rest, rfl,
    List.forall_mem_cons.2 ⟨rfl, hquestions⟩⟩

/-- Unless a schema is offered first, a failure cannot be told from the replies that follow. -/
theorem exists_replies_create_blank (hc : r.current = none) {qs : List (Request σ β)}
    (hqs : ¬OffersFirst qs) : ∃ f, Function.Injective f ∧
      (r.create .blank).replies qs = (r.replies qs).map (Reply.renumbered f) := by
  have hi : r.isInitialized = false := isInitialized_of_current_eq_none hc
  have hshifted := shifted_reset_create_blank r
  induction qs with
  | nil => exact ⟨id, Function.injective_id, rfl⟩
  | cons q qs ih =>
    rcases hs : r.serve q with ⟨reply, next⟩
    rw [replies, replies, hs]
    cases answers_of_serve hs with
    | question =>
      obtain ⟨f, hf, hrest⟩ := ih fun h => hqs h.cons_question
      have htruth : Reply.truth (r.create .blank).isInitialized =
          (Reply.truth r.isInitialized : Reply σ β).renumbered f := by
        rw [isInitialized_create, hi]
        rfl
      exact ⟨f, hf, congrArg₂ List.cons htruth hrest⟩
    | reset =>
      refine ⟨shift r.sets.length, shift_injective _, ?_⟩
      rw [List.map_cons, ← hshifted.replies]
      rfl
    | given h hc' schema bind =>
      rw [hi] at h
      cases h
    | refused h schema bind => exact absurd hc h.1
    | missing h bind =>
      -- here both registries get a blank set, under one number
      refine ⟨id, Function.injective_id, ?_⟩
      rw [serve_of_answers (.refused (isBlocked_create_blank r) none bind), Reply.renumbered_id,
        List.map_id]
    | offered h s bind => exact absurd ⟨[], s, bind, qs, rfl, nofun⟩ hqs
    | changed h hc' s bind =>
      rw [hi] at h
      cases h
    | installed h s bind =>
      have hnext : Shifted r.sets.length ((r.create .blank).create ⟨some s, bind⟩)
          (r.create ⟨some s, bind⟩) := hshifted.create ⟨some s, bind⟩
      have hlen : (r.create .blank).sets.length = shift r.sets.length r.sets.length :=
        hshifted.length_eq.trans (shift_of_le hshifted.le_length).symm
      refine ⟨shift r.sets.length, shift_injective _, ?_⟩
      rw [serve_of_answers (.installed (isBlocked_create_blank r).2 s bind), List.map_cons,
        ← hnext.replies, hlen]
      rfl

/-- If one is offered first, the replies tell. -/
theorem replies_create_blank_ne (hc : r.current = none) {qs : List (Request σ β)}
    (hqs : OffersFirst qs) (f : Nat → Nat) :
    (r.create .blank).replies qs ≠ (r.replies qs).map (Reply.renumbered f) := by
  obtain ⟨questions, s, bind, rest, rfl, hquestions⟩ := hqs
  induction questions with
  | nil =>
    intro h
    rw [List.nil_append, replies, replies, serve_get_some hc,
      serve_of_answers (.refused (isBlocked_create_blank r) (some s) bind)] at h
    cases (List.cons.inj h).1
  | cons q questions ih =>
    obtain ⟨rfl, hrest⟩ := List.forall_mem_cons.1 hquestions
    intro h
    exact ih hrest (List.cons.inj h).2

/-! ## Failures and successes -/

/-- After any requests.  A request fails, and there is no set then, exactly if it asks for the
current set while the registry is not initialised, and it has no schema or an earlier request failed
and nothing renewed the registry since.  A request that fails leaves no trace in the replies to
later ones, up to the numbers of sets, exactly if an earlier one has left its trace already or the
later ones do not start by asking for the current set with a schema.  Unless such a trace is left,
asking a registry that is not initialised with a schema gives a new set with exactly this schema and
connection; it is given again until the next reset, and with these contents until the next
installation. -/
theorem failure_traceless_iff (before : List (Request σ β)) :
    (∀ q fault, ((ofRequests before).serve q).1 = .set (.error fault) ↔
      fault = .registryEmpty ∧ (ofRequests before).isInitialized = false ∧
        ∃ schema bind, q = .get schema bind ∧ (schema = none ∨ FailedSince before)) ∧
    (∀ q, (ofRequests before).Fails q → ∀ later,
      (∃ f, Function.Injective f ∧ ((ofRequests before).serve q).2.replies later =
        ((ofRequests before).replies later).map (Reply.renumbered f)) ↔
      FailedSince before ∨ ¬OffersFirst later) ∧
    ((ofRequests before).isInitialized = false → ¬FailedSince before → ∀ s bind, ∃ id next,
      (ofRequests before).serve (.get (some s) bind) = (.set (.ok (id, ⟨some s, bind⟩)), next) ∧
      (ofRequests before).get? id = none ∧
      ∀ later, .reset ∉ later → ∀ schema' bind',
        (next.serveAll later).get schema' bind' = (.ok id, next.serveAll later) ∧
        ((∀ s' bind'', .init s' bind'' ∉ later) →
          (next.serveAll later).get? id = some ⟨some s, bind⟩)) := by
  rw [← isBlocked_ofRequests_iff]
  generalize (ofRequests before) = r
  refine ⟨fun q fault => serve_eq_fault_iff, fun q hq later => ?_, fun hi hb s bind => ?_⟩
  · obtain ⟨fault, hfault⟩ := hq
    obtain ⟨rfl, hi, schema, bind, rfl, hschema⟩ := serve_eq_fault_iff.1 hfault
    by_cases hb : r.IsBlocked
    · rw [serve_of_answers (.refused hb schema bind)]
      refine iff_of_true ⟨id, Function.injective_id, ?_⟩ (Or.inl hb)
      rw [Reply.renumbered_id, List.map_id]
    · have hc := current_eq_none_of_not hi hb
      obtain rfl := hschema.resolve_right hb
      rw [serve_of_answers (.missing hc bind), or_iff_right hb]
      constructor
      · rintro ⟨f, -, hsame⟩ hoffers
        exact replies_create_blank_ne hc hoffers f hsame
      · exact exists_replies_create_blank hc
  · have hc := current_eq_none_of_not hi hb
    refine ⟨_, _, serve_get_some hc s bind, List.getElem?_eq_none (Nat.le_refl _), ?_⟩
    intro later hlater schema' bind'
    have hcreated : (r.create ⟨some s, bind⟩).currentId = some r.sets.length := rfl
    obtain ⟨hi', hid, hsame⟩ := current_serveAll (isInitialized_create _) hcreated hlater
    refine ⟨get_of_currentId hi' hid schema' bind', fun hno => ?_⟩
    rw [hsame hno, get?_create]

/-- At the start, a request without a schema fails, and the next one with a schema tells; with a
reset between the two nothing tells, and the schema is installed. -/
theorem failure_traceless_iff_start :
    (ofRequests [] : Registry String String).Fails (.get none none) ∧
    (¬∃ f, Function.Injective f ∧
      ((ofRequests [] : Registry String String).serve (.get none none)).2.replies
          [.get (some "s") (some "b")] =
        ((ofRequests []).replies [.get (some "s") (some "b")]).map (Reply.renumbered f)) ∧
    (∃ f, Function.Injective f ∧
      ((ofRequests [] : Registry String String).serve (.get none none)).2.replies
          [.reset, .get (some "s") (some "b")] =
        ((ofRequests []).replies [.reset, .get (some "s") (some "b")]).map (Reply.renumbered f)) ∧
    ∃ id next, (ofRequests [.get none none, .reset] : Registry String String).serve
        (.get (some "s") (some "b")) = (.set (.ok (id, ⟨some "s", some "b"⟩)), next) ∧
      next.get none none = (.ok id, next) := by
  have hfails : (ofRequests [] : Registry String String).Fails (.get none none) :=
    ⟨.registryEmpty, ((failure_traceless_iff []).1 _ _).2 ⟨rfl, rfl, none, none, rfl, .inl rfl⟩⟩
  have hnot : ¬FailedSince ([] : List (Request String String)) := by
    rw [← isBlocked_ofRequests_iff]
    exact fun hb => hb.1 rfl
  have htell := (failure_traceless_iff []).2.1 (.get none none) hfails
  refine ⟨hfails, fun hsame => ?_, ?_, ?_⟩
  · exact ((htell _).1 hsame).elim hnot fun hno => hno ⟨[], "s", some "b", [], rfl, nofun⟩
  · refine (htell _).2 (Or.inr ?_)
    rintro ⟨_ | ⟨q, questions⟩, s, bind, rest, h, hquestions⟩
    · cases h
    · obtain rfl := hquestions q List.mem_cons_self
      cases h
  · have hrenewed : ¬FailedSince ([.get none none, .reset] : List (Request String String)) := by
      rw [← isBlocked_ofRequests_iff]
      exact fun hb => hb.1 rfl
    obtain ⟨id, next, hs, -, hkept⟩ :=
      (failure_traceless_iff [.get none none, .reset]).2.2 rfl hrenewed "s" (some "b")
    exact ⟨id, next, hs, (hkept [] (by simp) none none).1⟩

end Registry

end NestedJoin
