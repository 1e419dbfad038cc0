import NestedJoin.Proofs.Serving
set_option autoImplicit false

/-!
# Families of builders

Builders that were cloned from one another share vertices and edges, and with them the key
chains; all builders of a session share its schema.  None of this can be seen: whatever is asked
of the builders in whatever order, each of them answers as if nothing but its lineage had been
asked, which is what was asked of itself and, before it was cloned, of the builders it comes
from.

The schema must be faithful.  A description that is cached and that the database no longer bears
out is forgotten at a time that depends on what others ask.

Main statement: `Session.serve_lineage`.
-/

namespace NestedJoin

namespace Session

/-! ## Lineages -/

/-- What made the builder of each name what it is. -/
abbrev Histories : Type := OrderedMap String (List Request)

/-- The histories after one more request: it becomes part of the history of its builder, and a
copy starts with that history. -/
def credit (h : Histories) (r : Request) : Histories :=
  match h.get? r.name with
  | none => h
  | some own => h.insertAll (r.names.map fun name => (name, own ++ [r]))

/-- Of some requests to a session, those that made the builder of a name what it is: what was
asked of itself and, before it was cloned, of the builders it comes from. -/
def lineage (s : Session) (rs : List Request) (name : String) : List Request :=
  ((rs.foldl credit (s.builders.mapValues fun _ _ => [])).get? name).getD []

/-! ## Tracking -/

variable {s : Session}

/-- The histories say of each builder how it can be made anew, from the session that the requests
were first put to. -/
structure Tracks (s₀ s : Session) (h : Histories) : Prop where
  settled : s.Settled
  source_eq : s.schema.uncached = s₀.schema.uncached
  known : ∀ name, h.get? name = none ↔ s.builder? name = none
  /-- no builder of the first session is forgotten -/
  first : ∀ name, h.get? name = none → s₀.builder? name = none
  alike : ∀ name own, h.get? name = some own →
    (s.builder? name).map Builder.unnumbered =
      ((s₀.serveAll own).builder? name).map Builder.unnumbered

theorem get?_credit {h : Histories} {r : Request} {own : List Request}
    (ho : h.get? r.name = some own) (name : String) :
    (credit h r).get? name = if name ∈ r.names then some (own ++ [r]) else h.get? name := by
  have hkeys : (r.names.map fun name => (name, own ++ [r])).map Prod.fst = r.names := by
    rw [List.map_map]
    exact List.map_id _
  unfold credit
  rw [ho]
  dsimp only
  split
  · next hn =>
    refine OrderedMap.get?_insertAll_of_forall (by rwa [hkeys]) fun e he _ => ?_
    obtain ⟨_, -, rfl⟩ := List.mem_map.1 he
    rfl
  · next hn => exact OrderedMap.get?_insertAll_of_notMem (by rwa [hkeys])

namespace Tracks

variable {s₀ : Session} {h : Histories}

theorem start (hs : s.Settled) : s.Tracks s (s.builders.mapValues fun _ _ => []) where
  settled := hs
  source_eq := rfl
  known := fun name => by
    rw [OrderedMap.get?_mapValues, Option.map_eq_none_iff]
    rfl
  first := fun name hn => by
    rw [OrderedMap.get?_mapValues, Option.map_eq_none_iff] at hn
    exact hn
  alike := fun name own ho => by
    rw [OrderedMap.get?_mapValues, Option.map_eq_some_iff] at ho
    obtain ⟨_, -, rfl⟩ := ho
    rfl

/-- A request does to a builder in the company of others what it does to it when only its history
was served. -/
theorem serve (h₀ : s₀.Settled) (ht : s₀.Tracks s h) (r : Request) :
    s₀.Tracks (s.serve r).2 (credit h r) := by
  cases ho : h.get? r.name with
  | none =>
    simp only [serve_of_none ((ht.known r.name).1 ho), credit, ho]
    exact ht
  | some own =>
    have hb : s.builder? r.name ≠ none := by
      intro hn
      rw [(ht.known r.name).2 hn] at ho
      cases ho
    obtain ⟨b, hb⟩ := Option.ne_none_iff_exists'.1 hb
    have halike := ht.alike r.name own ho
    rw [hb, Option.map_some] at halike
    obtain ⟨b', hb', hsame⟩ := Option.map_eq_some_iff.1 halike.symm
    obtain ⟨halone, hsource⟩ := h₀.serveAll own
    obtain ⟨hsettled, hkept⟩ := ht.settled.serve r
    have hserve := ht.settled.builder?_serve hb
    have hserve' := halone.builder?_serve hb'
    refine ⟨hsettled, hkept.trans ht.source_eq, fun name => ?_, fun name hnone => ?_,
      fun name own' ho' => ?_⟩
    · have hname := hserve name
      rw [get?_credit ho]
      split
      · next hn =>
        rw [if_pos hn] at hname
        constructor
        · intro hsome
          cases hsome
        · intro hnone
          rw [hnone] at hname
          cases hname
      · next hn =>
        rw [if_neg hn] at hname
        rw [ht.known, ← Option.map_eq_none_iff, ← hname, Option.map_eq_none_iff]
    · rw [get?_credit ho] at hnone
      split at hnone
      · cases hnone
      · exact ht.first name hnone
    · rw [get?_credit ho] at ho'
      rw [hserve name]
      split at ho'
      · next hn =>
        cases ho'
        have hconcat : s₀.serveAll (own ++ [r]) = ((s₀.serveAll own).serve r).2 :=
          List.foldl_concat _ _ _ _
        rw [if_pos hn, hconcat, hserve' name, if_pos hn, hsame,
          Demand.leaves_congr (ht.source_eq.trans hsource.symm)]
      · next hn =>
        rw [if_neg hn]
        exact ht.alike name own' ho'

theorem serveAll (h₀ : s₀.Settled) (ht : s₀.Tracks s h) (rs : List Request) :
    s₀.Tracks (s.serveAll rs) (rs.foldl credit h) := by
  induction rs generalizing s h with
  | nil => exact ht
  | cons r rs ih => exact ih (ht.serve h₀ r)

end Tracks

/-- Whatever calls made the builders, and whatever is asked of them after that, in any order and
whether it fails or not: every answer of a builder is the one that it gives if nothing but its
lineage was asked. -/
theorem serve_lineage (schema : Schema) (hs : schema.Faithful) (cs : List Command)
    (rs : List Request) (r : Request) :
    let s := (ofSchema schema).obeyAll cs
    ((s.serveAll rs).serve r).1 = ((s.serveAll (s.lineage rs r.name)).serve r).1 := by
  intro s
  have hsettled : s.Settled := Settled.obeyAll ⟨Grown.ofSchema schema, hs⟩ cs
  have htracks := (Tracks.start hsettled).serveAll hsettled rs
  unfold lineage
  cases ho : (rs.foldl credit (s.builders.mapValues fun _ _ => [])).get? r.name with
  | none =>
    rw [serve_of_none ((htracks.known r.name).1 ho)]
    exact (congrArg Prod.fst (serve_of_none (htracks.first r.name ho))).symm
  | some own =>
    obtain ⟨hown, hsource⟩ := hsettled.serveAll own
    exact htracks.settled.serve_fst_eq hown (htracks.source_eq.trans hsource.symm)
      (htracks.alike r.name own ho)

/-! ### A builder and its copy -/

/-- Persons and their pets in a live database. -/
def petSchema : Schema :=
  .ofSource (.inspected (.ofNamespace none) (.ofList
    [((none, "person"), ⟨["id", "name"], some ["id"]⟩),
     ((none, "pet"), ⟨["id", "person_id"], some ["id"]⟩)]))

def petSession : Session := (ofSchema petSchema).obeyAll [.select "m" (.named "person") "p" false]

/-- Asks a builder to join the pets under an alias. -/
def joinPets (name aliasName : String) : Request :=
  ⟨name, .join true (.named "pet") (some "pets") aliasName "p"
    { kind := .ok .multiple, on := [(.str "person_id", .str "id")] }⟩

/-- Asks a builder for the entities of a row. -/
def foldPets (name : String) : Request :=
  ⟨name, .materialize [.ofList [("p_id", .int 1), ("a_id", .int 2), ("b_id", .int 3)]]⟩

/-- A builder is copied between two joins, and the copy is joined to pets too. -/
def petRequests : List Request :=
  [joinPets "m" "a", ⟨"m", .clone "c"⟩, joinPets "m" "b", foldPets "m", joinPets "c" "a",
    joinPets "c" "d"]

/-- The copy answers as if its source had not been used after it was copied. -/
theorem serve_lineage_pets : petSchema.Faithful ∧
    petSession.lineage petRequests "c" =
      [joinPets "m" "a", ⟨"m", .clone "c"⟩, joinPets "c" "a", joinPets "c" "d"] ∧
    ((petSession.serveAll (petSession.lineage petRequests "c")).serve (foldPets "c")).1 =
      some (.folded [] (.ok [.dict [(.str "id", .int 1),
        (.str "pets", .list [.dict [(.str "id", .int 2)]])]])) ∧
    ((petSession.serveAll petRequests).serve (foldPets "c")).1 =
      ((petSession.serveAll (petSession.lineage petRequests "c")).serve (foldPets "c")).1 := by
  have hs : petSchema.Faithful := by
    intro i db hsource
    cases hsource
    exact Inspector.faithful_clear (.ofNamespace none) _
  exact ⟨hs, rfl, rfl, serve_lineage petSchema hs [.select "m" (.named "person") "p" false]
    petRequests (foldPets "c")⟩

end Session

end NestedJoin
