import NestedJoin.Sql.Placeholder
import Mathlib.Data.List.Basic
set_option autoImplicit false

/-!
# Parts of raw texts

A raw text is divided into placeholders and single characters.  A placeholder is a colon and a name
that ends neither at a colon nor at a dollar sign; the character in front of it is no colon, no
backslash, no dollar sign and no character of a name.  When the text is printed every placeholder is
replaced, every other character is copied as the dialect wants it, and the backslashes that escape a
colon are dropped.  What is printed for a placeholder does not touch what is printed around it.

Main statements: `Divides.placeholderAt_iff`, which says what the placeholders are,
`Divides.replaceFrom_eq`, and `Divides.unescape_shown`, what is printed for one of them.
-/

namespace NestedJoin.Sql

open NestedJoin.Text

/-! ## Runs of characters -/

section Runs

variable {p : Char → Bool} {run post : List Char}

/-- A run of characters of a class that no further one follows is all that is taken. -/
theorem takeWhile_run (hrun : ∀ c ∈ run, p c = true) (hpost : ∀ c ∈ post.head?, p c = false) :
    (run ++ post).takeWhile p = run := by
  rw [List.takeWhile_append_of_pos hrun]
  cases post with
  | nil => simp
  | cons c post => simp [hpost c rfl]

theorem dropWhile_run (hrun : ∀ c ∈ run, p c = true) (hpost : ∀ c ∈ post.head?, p c = false) :
    (run ++ post).dropWhile p = post := by
  rw [List.dropWhile_append_of_pos hrun]
  cases post with
  | nil => rfl
  | cons c post => simp [hpost c rfl]

end Runs

/-- A character that is not in the first part of a text stands in the second one. -/
theorem exists_of_append_eq_append_cons {c : Char} {cs ds pre post : List Char} (hc : c ∉ cs)
    (h : cs ++ ds = pre ++ c :: post) : ∃ pre', pre = cs ++ pre' ∧ ds = pre' ++ c :: post := by
  rcases List.append_eq_append_iff.1 h with ⟨pre', hpre, hds⟩ | ⟨more, hmore, hrest⟩
  · exact ⟨pre', hpre, hds⟩
  · cases more with
    | nil => exact ⟨[], by simpa using hmore.symm, by simpa using hrest.symm⟩
    | cons d more =>
      obtain ⟨rfl, -⟩ := List.cons.inj hrest
      exact absurd (hmore ▸ List.mem_append_right pre List.mem_cons_self) hc

/-- The last character of a text, or the one in front of it. -/
def lastOr (before : Char) (cs : List Char) : Char := cs.getLast?.getD before

@[simp] theorem lastOr_nil (before : Char) : lastOr before [] = before := rfl

@[simp] theorem lastOr_cons (before c : Char) (cs : List Char) :
    lastOr before (c :: cs) = lastOr c cs := by
  cases cs with
  | nil => rfl
  | cons d cs => simp [lastOr, List.getLast?_cons]

theorem lastOr_append (before : Char) (cs ds : List Char) :
    lastOr before (cs ++ ds) = lastOr (lastOr before cs) ds := by
  induction cs generalizing before with
  | nil => rfl
  | cons c cs ih => rw [List.cons_append, lastOr_cons, lastOr_cons, ih]

/-- A run is known, ends before a character that continues none, and no colon follows it. -/
theorem runAfter?_eq_some_iff {known : List (List Char)} {run post : List Char} :
    runAfter? known (run ++ post) = some run ↔ run ≠ [] ∧ (∀ c ∈ run, isRunChar c = true) ∧
      (∀ c ∈ post.head?, isRunChar c = false ∧ c ≠ ':') ∧ run ∈ known := by
  constructor
  · intro h
    simp only [runAfter?] at h
    split at h
    · next hrun =>
      have htake : (run ++ post).takeWhile isRunChar = run := Option.some.inj h
      have hchars : ∀ c ∈ run, isRunChar c = true := by
        intro c hc
        rw [← htake] at hc
        exact List.all_eq_true.1 List.all_takeWhile c hc
      have hpost : post.takeWhile isRunChar = [] := by
        rw [List.takeWhile_append_of_pos hchars] at htake
        exact List.append_right_eq_self.1 htake
      rw [htake] at hrun
      obtain ⟨hne, hcolon, hknown⟩ := hrun
      refine ⟨hne, hchars, fun c hc => ?_, by simpa using hknown⟩
      cases post with
      | nil => cases hc
      | cons d post =>
        obtain rfl : d = c := Option.some.inj hc
        have hd : isRunChar d = false := by
          refine eq_false_of_ne_true fun hd => ?_
          rw [List.takeWhile_cons_of_pos hd] at hpost
          cases hpost
        refine ⟨hd, ?_⟩
        rintro rfl
        apply hcolon
        rw [List.dropWhile_append_of_pos hchars, List.dropWhile_cons_of_neg (by rw [hd]; decide)]
        rfl
    · cases h
  · rintro ⟨hne, hchars, hpost, hknown⟩
    have hstop : ∀ c ∈ post.head?, isRunChar c = false := fun c hc => (hpost c hc).1
    simp only [runAfter?, takeWhile_run hchars hstop, dropWhile_run hchars hstop]
    refine if_pos ⟨hne, fun hc => (hpost ':' hc).2 rfl, ?_⟩
    simpa using hknown

theorem exists_of_runAfter? {known : List (List Char)} {rest run : List Char}
    (h : runAfter? known rest = some run) : ∃ post, rest = run ++ post := by
  simp only [runAfter?] at h
  split at h
  · obtain rfl := Option.some.inj h
    exact ⟨rest.dropWhile isRunChar, (List.takeWhile_append_dropWhile).symm⟩
  · cases h

/-! ## Dividing a text -/

/-- A part of a raw text. -/
inductive RawPart where
  /-- a character that is copied -/
  | copied (c : Char)
  /-- a colon and a name -/
  | placeholder (name : List Char)
  deriving DecidableEq, Repr

namespace RawPart

/-- A part as it stands in the text. -/
def text : RawPart → List Char
  | copied c => [c]
  | placeholder n => ':' :: n

/-- A part with a placeholder replaced. -/
def shown (dialect : Dialect) (f : List Char → List Char) : RawPart → List Char
  | copied c => dialect.copied c
  | placeholder n => f n

end RawPart

/-- The parts of a text after some character, from left to right. -/
inductive Divides (known : List (List Char)) : Char → List Char → List RawPart → Prop
  | nil (before : Char) : Divides known before [] []
  | placeholder {before : Char} {run post : List Char} {ps : List RawPart}
    (hopens : opensRun before = true) (hrun : runAfter? known (run ++ post) = some run)
    (h : Divides known (lastOr ':' run) post ps) :
    Divides known before (':' :: (run ++ post)) (.placeholder run :: ps)
  | copied {before c : Char} {rest : List Char} {ps : List RawPart}
    (hnone : c = ':' → opensRun before = true → runAfter? known rest = none)
    (h : Divides known c rest ps) : Divides known before (c :: rest) (.copied c :: ps)

theorem exists_divides (known : List (List Char)) (before : Char) (cs : List Char) :
    ∃ ps, Divides known before cs ps := by
  -- a placeholder is passed over as a whole, so the induction is on the length
  induction hn : cs.length using Nat.strongRecOn generalizing before cs with
  | ind n ih =>
    subst hn
    cases cs with
    | nil => exact ⟨[], .nil before⟩
    | cons c rest =>
      by_cases hnone : c = ':' → opensRun before = true → runAfter? known rest = none
      · obtain ⟨ps, h⟩ := ih rest.length (by simp) c rest rfl
        exact ⟨_, .copied hnone h⟩
      · simp only [Classical.not_imp] at hnone
        obtain ⟨rfl, hopens, hsome⟩ := hnone
        obtain ⟨run, hrun⟩ := Option.ne_none_iff_exists'.1 hsome
        obtain ⟨post, rfl⟩ := exists_of_runAfter? hrun
        obtain ⟨ps, h⟩ := ih post.length
          (by simp only [List.length_cons, List.length_append]; omega) (lastOr ':' run) post rfl
        exact ⟨_, .placeholder hopens hrun h⟩

namespace Divides

variable {known : List (List Char)} {before : Char} {cs : List Char} {ps : List RawPart}

/-- Nothing of the text is lost. -/
theorem text_eq (h : Divides known before cs ps) : ps.flatMap RawPart.text = cs := by
  induction h with
  | nil => rfl
  | placeholder _ _ _ ih => rw [List.flatMap_cons, ih, RawPart.text, List.cons_append]
  | copied _ _ ih => rw [List.flatMap_cons, ih, RawPart.text, List.singleton_append]

/-- A placeholder stands where a run may start, and is one. -/
theorem of_placeholder {l r : List RawPart} {n : List Char}
    (h : Divides known before cs (l ++ .placeholder n :: r)) :
    opensRun (lastOr before (l.flatMap RawPart.text)) = true ∧
      runAfter? known (n ++ r.flatMap RawPart.text) = some n := by
  induction l generalizing before cs with
  | nil =>
    cases h with
    | placeholder hopens hrun h =>
      rw [h.text_eq]
      exact ⟨hopens, hrun⟩
  | cons p l ih =>
    rw [List.flatMap_cons, lastOr_append]
    cases h with
    | placeholder _ _ h =>
      rw [RawPart.text, lastOr_cons]
      exact ih h
    | copied _ h => exact ih h

/-- A run that may start where it stands is a placeholder. -/
theorem exists_placeholder (h : Divides known before cs ps) {pre n post : List Char}
    (hcs : cs = pre ++ ':' :: (n ++ post)) (hopens : opensRun (lastOr before pre) = true)
    (hrun : runAfter? known (n ++ post) = some n) :
    ∃ l r, ps = l ++ .placeholder n :: r ∧ l.flatMap RawPart.text = pre ∧
      r.flatMap RawPart.text = post := by
  induction h generalizing pre with
  | nil => exact absurd hcs.symm (by simp)
  | @placeholder before run post' ps hopens' hrun' h ih =>
    cases pre with
    | nil =>
      obtain ⟨-, hrest⟩ := List.cons.inj hcs
      rw [hrest, hrun] at hrun'
      obtain rfl := Option.some.inj hrun'
      obtain rfl := List.append_cancel_left hrest
      exact ⟨[], ps, rfl, rfl, h.text_eq⟩
    | cons c pre =>
      obtain ⟨rfl, hrest⟩ := List.cons.inj hcs
      obtain ⟨-, hchars, -⟩ := runAfter?_eq_some_iff.1 hrun'
      have hcolon : ':' ∉ run := fun hc => absurd (hchars ':' hc) (by decide)
      obtain ⟨pre', rfl, hpost'⟩ := exists_of_append_eq_append_cons hcolon hrest
      rw [lastOr_cons, lastOr_append] at hopens
      obtain ⟨l, r, rfl, hl, hr⟩ := ih hpost' hopens
      refine ⟨.placeholder run :: l, r, rfl, ?_, hr⟩
      rw [List.flatMap_cons, hl, RawPart.text, List.cons_append]
  | @copied before c rest ps hnone h ih =>
    cases pre with
    | nil =>
      obtain ⟨rfl, rfl⟩ := List.cons.inj hcs
      rw [hnone rfl hopens] at hrun
      cases hrun
    | cons d pre =>
      obtain ⟨rfl, hrest⟩ := List.cons.inj hcs
      rw [lastOr_cons] at hopens
      obtain ⟨l, r, rfl, hl, hr⟩ := ih hrest hopens
      refine ⟨.copied c :: l, r, rfl, ?_, hr⟩
      rw [List.flatMap_cons, hl, RawPart.text, List.singleton_append]

/-- The placeholders among the parts of a text are the known runs that may start where they
stand. -/
theorem placeholder_iff (h : Divides known before cs ps) {pre n post : List Char} :
    (∃ l r, ps = l ++ .placeholder n :: r ∧ l.flatMap RawPart.text = pre ∧
      r.flatMap RawPart.text = post) ↔
    cs = pre ++ ':' :: (n ++ post) ∧ opensRun (lastOr before pre) = true ∧
      runAfter? known (n ++ post) = some n := by
  constructor
  · rintro ⟨l, r, rfl, rfl, rfl⟩
    have htext := h.text_eq
    rw [List.flatMap_append, List.flatMap_cons, RawPart.text, List.cons_append] at htext
    exact ⟨htext.symm, h.of_placeholder⟩
  · rintro ⟨hcs, hopens, hrun⟩
    exact h.exists_placeholder hcs hopens hrun

end Divides

/-! ## Names -/

theorem namesFrom_subset (before : Char) (cs rest : List Char) :
    namesFrom (lastOr before cs) rest ⊆ namesFrom before (cs ++ rest) := by
  induction cs generalizing before with
  | nil => exact fun n hn => hn
  | cons c cs ih =>
    intro n hn
    rw [lastOr_cons] at hn
    have hrest := ih c hn
    rw [List.cons_append, namesFrom]
    split
    · exact List.mem_cons_of_mem _ hrest
    · exact hrest

/-- Names consist of word characters. -/
theorem isWord_of_mem_namesFrom {before : Char} {cs n : List Char} (hn : n ∈ namesFrom before cs) :
    ∀ c ∈ n, isWord c = true := by
  have hafter : ∀ rest, ∀ c ∈ nameAfter rest, isWord c = true := by
    intro rest c hc
    have hrun : c ∈ rest.takeWhile isWord := by
      unfold nameAfter at hc
      dsimp only at hc
      split at hc
      · exact List.dropLast_subset _ hc
      · exact hc
    exact List.all_eq_true.1 List.all_takeWhile c hrun
  induction cs generalizing before with
  | nil => cases hn
  | cons c rest ih =>
    rw [namesFrom] at hn
    split at hn
    · rcases List.mem_cons.1 hn with rfl | hn
      · exact hafter rest
      · exact ih hn
    · exact ih hn

/-- A name stands as a placeholder between two parts of a text. -/
structure PlaceholderAt (cs pre n post : List Char) : Prop where
  text_eq : cs = pre ++ ':' :: (n ++ post)
  ne_nil : n ≠ []
  word : ∀ c ∈ n, isWord c = true
  before : ∀ c ∈ pre.getLast?, isWord c = false ∧ c ≠ ':' ∧ c ≠ '\\' ∧ c ≠ '$'
  after : ∀ c ∈ post.head?, isWord c = false ∧ c ≠ ':' ∧ c ≠ '$'

theorem opensRun_eq_true_iff {c : Char} :
    opensRun c = true ↔ isWord c = false ∧ c ≠ ':' ∧ c ≠ '\\' ∧ c ≠ '$' := by
  simp only [opensRun, opensName, Bool.and_eq_true, Bool.not_eq_true', Bool.or_eq_false_iff,
    beq_eq_false_iff_ne, bne_iff_ne]
  exact ⟨fun ⟨⟨⟨hcolon, hword⟩, hbackslash⟩, hdollar⟩ => ⟨hword, hcolon, hbackslash, hdollar⟩,
    fun ⟨hword, hcolon, hbackslash, hdollar⟩ => ⟨⟨⟨hcolon, hword⟩, hbackslash⟩, hdollar⟩⟩

theorem isRunChar_eq_false_iff {c : Char} :
    isRunChar c = false ↔ isWord c = false ∧ c ≠ '$' := by
  simp only [isRunChar, Bool.or_eq_false_iff, beq_eq_false_iff_ne]

theorem opensRun_lastOr_iff {pre : List Char} : opensRun (lastOr textStart pre) = true ↔
    ∀ c ∈ pre.getLast?, isWord c = false ∧ c ≠ ':' ∧ c ≠ '\\' ∧ c ≠ '$' := by
  unfold lastOr
  cases pre.getLast? with
  | none => exact iff_of_true (by decide) nofun
  | some c =>
    rw [Option.getD_some, opensRun_eq_true_iff]
    exact ⟨fun h d hd => Option.some.inj hd ▸ h, fun h => h c rfl⟩

/-- With the names that the text itself has, placeholders are told by the characters around them. -/
theorem placeholderAt_iff {cs pre n post : List Char} : PlaceholderAt cs pre n post ↔
    cs = pre ++ ':' :: (n ++ post) ∧ opensRun (lastOr textStart pre) = true ∧
      runAfter? (names cs) (n ++ post) = some n := by
  rw [opensRun_lastOr_iff, runAfter?_eq_some_iff]
  constructor
  · intro h
    have hpost : ∀ c ∈ post.head?, isRunChar c = false ∧ c ≠ ':' := by
      intro c hc
      obtain ⟨hword, hcolon, hdollar⟩ := h.after c hc
      exact ⟨isRunChar_eq_false_iff.2 ⟨hword, hdollar⟩, hcolon⟩
    refine ⟨h.text_eq, h.before, h.ne_nil, fun c hc => ?_, hpost, ?_⟩
    · rw [isRunChar, h.word c hc, Bool.true_or]
    · have hname : nameAfter (n ++ post) = n := by
        have hstop : ∀ c ∈ post.head?, isWord c = false := fun c hc => (h.after c hc).1
        rw [nameAfter, takeWhile_run h.word hstop, dropWhile_run h.word hstop]
        exact if_neg fun hc => (h.after ':' hc).2.1 rfl
      have hopens : opensName (lastOr textStart pre) = true := by
        have hrun := opensRun_lastOr_iff.2 h.before
        exact (Bool.and_eq_true_iff.1 hrun).1
      rw [h.text_eq, names]
      refine namesFrom_subset textStart pre _ ?_
      rw [namesFrom, hname, if_pos ⟨rfl, hopens, h.ne_nil⟩]
      exact List.mem_cons_self
  · rintro ⟨htext, hbefore, hne, -, hpost, hknown⟩
    refine ⟨htext, hne, isWord_of_mem_namesFrom hknown, hbefore, fun c hc => ?_⟩
    obtain ⟨hrun, hcolon⟩ := hpost c hc
    obtain ⟨hword, hdollar⟩ := isRunChar_eq_false_iff.1 hrun
    exact ⟨hword, hcolon, hdollar⟩

instance (cs pre n post : List Char) : Decidable (PlaceholderAt cs pre n post) :=
  decidable_of_iff _ placeholderAt_iff.symm

/-- A list of placeholders has those of the text. -/
theorem mem_placeholdersFrom_iff {known : List (List Char)} {before : Char} {cs n : List Char} :
    n ∈ placeholdersFrom known before cs ↔ ∃ pre post, cs = pre ++ ':' :: (n ++ post) ∧
      opensRun (lastOr before pre) = true ∧ runAfter? known (n ++ post) = some n := by
  induction cs generalizing before with
  | nil =>
    refine iff_of_false List.not_mem_nil ?_
    rintro ⟨pre, post, h, -⟩
    exact absurd h.symm (by simp)
  | cons c rest ih =>
    -- a placeholder starts with the first character or stands in the rest
    have hsplit : (∃ pre post, c :: rest = pre ++ ':' :: (n ++ post) ∧
        opensRun (lastOr before pre) = true ∧ runAfter? known (n ++ post) = some n) ↔
        (c = ':' ∧ opensRun before = true ∧ runAfter? known rest = some n) ∨
          n ∈ placeholdersFrom known c rest := by
      rw [ih]
      constructor
      · rintro ⟨pre, post, heq, hopens, hrun⟩
        cases pre with
        | nil =>
          obtain ⟨rfl, rfl⟩ := List.cons.inj heq
          exact Or.inl ⟨rfl, hopens, hrun⟩
        | cons d pre =>
          obtain ⟨rfl, hrest⟩ := List.cons.inj heq
          rw [lastOr_cons] at hopens
          exact Or.inr ⟨pre, post, hrest, hopens, hrun⟩
      · rintro (⟨rfl, hopens, hrun⟩ | ⟨pre, post, rfl, hopens, hrun⟩)
        · obtain ⟨post, rfl⟩ := exists_of_runAfter? hrun
          exact ⟨[], post, rfl, hopens, hrun⟩
        · exact ⟨c :: pre, post, rfl, by rwa [lastOr_cons], hrun⟩
    rw [hsplit, placeholdersFrom]
    split
    · next hcolon =>
      cases hrun : runAfter? known rest with
      | none =>
        refine (or_iff_right ?_).symm
        rintro ⟨-, -, h⟩
        cases h
      | some run =>
        rw [List.mem_cons, Option.some.injEq, eq_comm (a := n), and_iff_right hcolon.1,
          and_iff_right hcolon.2]
    · next hcolon => exact (or_iff_right fun h => hcolon ⟨h.1, h.2.1⟩).symm

theorem mem_placeholders_iff {cs n : List Char} :
    n ∈ placeholders cs ↔ ∃ pre post, PlaceholderAt cs pre n post := by
  rw [placeholders, mem_placeholdersFrom_iff]
  exact exists_congr fun pre => exists_congr fun post => placeholderAt_iff.symm

/-- The parts of a text hold its placeholders, each in its place. -/
theorem Divides.placeholderAt_iff {cs : List Char} {ps : List RawPart}
    (h : Divides (names cs) textStart cs ps) {pre n post : List Char} :
    PlaceholderAt cs pre n post ↔ ∃ l r, ps = l ++ .placeholder n :: r ∧
      l.flatMap RawPart.text = pre ∧ r.flatMap RawPart.text = post := by
  rw [Sql.placeholderAt_iff, h.placeholder_iff]

/-! ## Printing -/

section Replacing

variable {dialect : Dialect} {known : List (List Char)} {f : List Char → List Char}
  {before : Char}

/-- A replaced run is passed over. -/
theorem replaceFrom_run (run post : List Char) :
    replaceFrom dialect known f before run.length (run ++ post) =
      replaceFrom dialect known f (lastOr before run) 0 post := by
  induction run generalizing before with
  | nil => rfl
  | cons c run ih => rw [List.length_cons, List.cons_append, replaceFrom, ih, lastOr_cons]

/-- A text is printed part by part. -/
theorem Divides.replaceFrom_eq {cs : List Char} {ps : List RawPart}
    (h : Divides known before cs ps) :
    replaceFrom dialect known f before 0 cs = ps.flatMap (RawPart.shown dialect f) := by
  induction h with
  | nil => rfl
  | @placeholder before run post ps hopens hrun _ ih =>
    rw [replaceFrom, if_pos ⟨rfl, hopens⟩, hrun, List.flatMap_cons, ← ih]
    exact congrArg _ (replaceFrom_run run post)
  | @copied before c rest ps hnone _ ih =>
    rw [replaceFrom, List.flatMap_cons, ← ih]
    split
    · next hcolon =>
      rw [hnone hcolon.1 hcolon.2]
      rfl
    · rfl

/-- Placeholders that stand for themselves leave the text as it is. -/
theorem replaceFrom_self (cs : List Char) :
    replaceFrom .standard known (':' :: ·) before 0 cs = cs := by
  obtain ⟨ps, h⟩ := exists_divides known before cs
  have hshown : RawPart.shown .standard (':' :: ·) = RawPart.text := by
    funext p
    cases p <;> rfl
  rw [h.replaceFrom_eq, hshown, h.text_eq]

end Replacing

/-! ## Escaped colons -/

section Unescaping

variable {c : Char} {cs ds : List Char}

theorem unescape_cons_of_ne (h : c ≠ '\\') : unescape (c :: cs) = c :: unescape cs := by
  rw [unescape]
  exact fun _ hc _ => h hc

theorem unescape_backslash_of_ne (h : cs.head? ≠ some ':') :
    unescape ('\\' :: cs) = '\\' :: unescape cs := by
  rw [unescape]
  intro after _ hcs
  exact h (by rw [hcs]; rfl)

theorem unescape_backslash_colon (cs : List Char) : unescape ('\\' :: ':' :: cs) =
    if (cs.dropWhile isRunChar).head? = some ':' then '\\' :: unescape (':' :: cs)
    else unescape (':' :: cs) := by
  rw [unescape]

/-- Whether a run ends at a colon is settled where it ends. -/
theorem head?_dropWhile_append (h : ∀ d ∈ ds.head?, isRunChar d = false ∧ d ≠ ':') :
    ((cs ++ ds).dropWhile isRunChar).head? = some ':' ↔
      (cs.dropWhile isRunChar).head? = some ':' := by
  induction cs with
  | nil =>
    cases ds with
    | nil => rfl
    | cons d ds =>
      obtain ⟨hrun, hcolon⟩ := h d rfl
      rw [List.nil_append, List.dropWhile_cons_of_neg (by rw [hrun]; decide)]
      exact iff_of_false (fun hd => hcolon (Option.some.inj hd)) nofun
  | cons c cs ih =>
    cases hc : isRunChar c with
    | true =>
      rw [List.cons_append, List.dropWhile_cons_of_pos hc, List.dropWhile_cons_of_pos hc, ih]
    | false =>
      have hnot : ¬isRunChar c = true := by rw [hc]; decide
      rw [List.cons_append, List.dropWhile_cons_of_neg hnot, List.dropWhile_cons_of_neg hnot]
      rfl

/-- A text that starts with neither a colon nor a character of a run can be set apart. -/
theorem unescape_append (h : ∀ d ∈ ds.head?, isRunChar d = false ∧ d ≠ ':') :
    unescape (cs ++ ds) = unescape cs ++ unescape ds := by
  induction cs with
  | nil => rfl
  | cons c cs ih =>
    rw [List.cons_append]
    by_cases hc : c = '\\'
    · subst hc
      cases cs with
      | nil =>
        rw [List.nil_append, unescape_backslash_of_ne fun hd => (h ':' hd).2 rfl]
        rfl
      | cons d cs =>
        by_cases hd : d = ':'
        · subst hd
          rw [List.cons_append] at ih ⊢
          rw [unescape_backslash_colon, unescape_backslash_colon, ih]
          simp only [head?_dropWhile_append h]
          split <;> rfl
        · have hne : ∀ es : List Char, (d :: es).head? ≠ some ':' := fun es he =>
            hd (Option.some.inj he)
          rw [List.cons_append] at ih ⊢
          rw [unescape_backslash_of_ne (hne _), unescape_backslash_of_ne (hne _), ih,
            List.cons_append]
    · rw [unescape_cons_of_ne hc, unescape_cons_of_ne hc, ih, List.cons_append]

/-- A character that is no backslash is left as it is copied. -/
theorem unescape_copied_append (dialect : Dialect) (h : c ≠ '\\') :
    unescape (dialect.copied c ++ cs) = dialect.copied c ++ unescape cs := by
  rcases dialect.copied_cases c with hc | hc <;>
    simp only [hc, List.cons_append, List.nil_append, unescape_cons_of_ne h]

theorem unescape_copied (dialect : Dialect) (h : c ≠ '\\') :
    unescape (dialect.copied c) = dialect.copied c := by
  rcases dialect.copied_cases c with hc | hc <;>
    simp only [hc, unescape_cons_of_ne h, unescape]

theorem length_unescape_le (cs : List Char) : (unescape cs).length ≤ cs.length := by
  induction cs with
  | nil => exact Nat.le_refl 0
  | cons c cs ih =>
    have hcopied : (c :: unescape cs).length ≤ (c :: cs).length := Nat.succ_le_succ ih
    by_cases hc : c = '\\'
    · subst hc
      by_cases hcolon : cs.head? = some ':'
      · obtain ⟨after, rfl⟩ := List.head?_eq_some_iff.1 hcolon
        rw [unescape_backslash_colon]
        split
        · exact hcopied
        · exact Nat.le_succ_of_le ih
      · rw [unescape_backslash_of_ne hcolon]
        exact hcopied
    · rw [unescape_cons_of_ne hc]
      exact hcopied

/-- A text without escaped colons stays as it is. -/
theorem unescape_eq_self (h : ¬['\\', ':'] <:+: cs) : unescape cs = cs := by
  induction cs with
  | nil => rfl
  | cons c cs ih =>
    have hrest : unescape cs = cs := ih fun hin => h (hin.trans (List.suffix_cons c cs).isInfix)
    by_cases hc : c = '\\'
    · subst hc
      rw [unescape_backslash_of_ne, hrest]
      intro hcolon
      obtain ⟨rest, rfl⟩ := List.head?_eq_some_iff.1 hcolon
      exact h ⟨[], rest, rfl⟩
    · rw [unescape_cons_of_ne hc, hrest]

end Unescaping

namespace Divides

variable {known : List (List Char)} {before : Char} {cs : List Char} {l r : List RawPart}
  {n : List Char}

/-- In front of a placeholder there is nothing or a character that is copied. -/
theorem eq_nil_or_copied (h : Divides known before cs (l ++ .placeholder n :: r)) :
    l = [] ∨ ∃ l' c, l = l' ++ [.copied c] ∧ opensRun c = true := by
  refine (List.eq_nil_or_concat' l).imp_right ?_
  rintro ⟨l', p, rfl⟩
  obtain ⟨hopens, -⟩ := h.of_placeholder
  rw [List.flatMap_append, lastOr_append, List.flatMap_singleton] at hopens
  cases p with
  | copied c => exact ⟨l', c, rfl, hopens⟩
  | placeholder m =>
    -- the last character of a name opens no run
    rw [List.append_assoc] at h
    obtain ⟨hne, hchars, -⟩ := runAfter?_eq_some_iff.1 h.of_placeholder.2
    obtain ⟨m, c, rfl⟩ := (List.eq_nil_or_concat' m).resolve_left hne
    have hlast : lastOr (lastOr before (l'.flatMap RawPart.text)) (':' :: (m ++ [c])) = c := by
      rw [lastOr_cons, lastOr_append]
      rfl
    rw [RawPart.text, hlast] at hopens
    obtain ⟨hword, -, -, hdollar⟩ := opensRun_eq_true_iff.1 hopens
    have hc := hchars c (List.mem_append_right _ List.mem_cons_self)
    rw [isRunChar_eq_false_iff.2 ⟨hword, hdollar⟩] at hc
    cases hc

/-- What is printed after a placeholder starts like what stands there. -/
theorem head?_shown (h : Divides known before cs (l ++ .placeholder n :: r)) (dialect : Dialect)
    (f : List Char → List Char) :
    ∀ c ∈ (r.flatMap (RawPart.shown dialect f)).head?, isRunChar c = false ∧ c ≠ ':' := by
  obtain ⟨-, -, hpost, -⟩ := runAfter?_eq_some_iff.1 h.of_placeholder.2
  cases r with
  | nil => exact nofun
  | cons p r =>
    cases p with
    | copied c =>
      rw [List.flatMap_cons, RawPart.shown, dialect.head?_copied_append]
      exact hpost
    | placeholder m => exact absurd rfl (hpost ':' rfl).2

/-- What is printed for a placeholder stands between what is printed before and after it. -/
theorem unescape_shown (h : Divides known before cs (l ++ .placeholder n :: r)) (dialect : Dialect)
    (f : List Char → List Char) :
    unescape ((l ++ .placeholder n :: r).flatMap (RawPart.shown dialect f)) =
      unescape (l.flatMap (RawPart.shown dialect f)) ++ unescape (f n) ++
        unescape (r.flatMap (RawPart.shown dialect f)) := by
  have hright := h.head?_shown dialect f
  rw [List.flatMap_append, List.flatMap_cons, RawPart.shown]
  rcases h.eq_nil_or_copied with rfl | ⟨l, c, rfl, hopens⟩
  · rw [List.flatMap_nil, List.nil_append, unescape_append hright]
    rfl
  · obtain ⟨hword, hcolon, hbackslash, hdollar⟩ := opensRun_eq_true_iff.1 hopens
    have hleft : ∀ rest : List Char, ∀ d ∈ (dialect.copied c ++ rest).head?,
        isRunChar d = false ∧ d ≠ ':' := by
      intro rest d hd
      rw [dialect.head?_copied_append] at hd
      obtain rfl := Option.some.inj hd
      exact ⟨isRunChar_eq_false_iff.2 ⟨hword, hdollar⟩, hcolon⟩
    have hlast := hleft []
    rw [List.append_nil] at hlast
    rw [List.flatMap_append, List.flatMap_singleton, RawPart.shown, List.append_assoc,
      unescape_append (hleft _), unescape_copied_append dialect hbackslash, unescape_append hright,
      unescape_append hlast, unescape_copied dialect hbackslash]
    simp only [List.append_assoc]

end Divides

/-! ## Texts without colons -/

section Colonless

variable {cs ds : List Char}

theorem namesFrom_append (h : ':' ∉ cs) (before : Char) :
    namesFrom before (cs ++ ds) = namesFrom (lastOr before cs) ds := by
  induction cs generalizing before with
  | nil => rfl
  | cons c cs ih =>
    obtain ⟨hc, hcs⟩ := not_or.1 (mt List.mem_cons.2 h)
    rw [List.cons_append, namesFrom, if_neg fun hname => hc hname.1.symm, ih hcs, lastOr_cons]

theorem replaceFrom_append (h : ':' ∉ cs) (dialect : Dialect) (known : List (List Char))
    (f : List Char → List Char) (before : Char) : replaceFrom dialect known f before 0 (cs ++ ds) =
      cs.flatMap dialect.copied ++ replaceFrom dialect known f (lastOr before cs) 0 ds := by
  induction cs generalizing before with
  | nil => rfl
  | cons c cs ih =>
    obtain ⟨hc, hcs⟩ := not_or.1 (mt List.mem_cons.2 h)
    rw [List.cons_append, replaceFrom, if_neg fun hname => hc hname.1.symm, ih hcs, lastOr_cons,
      List.flatMap_cons, List.append_assoc]

/-- In front of a sign a text without colons adds no names. -/
theorem names_append_sign {c : Char} (h : ':' ∉ cs) (hc : c ≠ ':') :
    names (cs ++ c :: ds) = names (c :: ds) := by
  have hsign : ∀ before, namesFrom before (c :: ds) = namesFrom c ds := fun before => by
    rw [namesFrom, if_neg fun hname => hc hname.1]
  rw [names, namesFrom_append h, hsign, names, hsign]

/-- It is copied, and changes nothing of what is printed for the rest. -/
theorem printRaw_append_sign {c : Char} (h : ':' ∉ cs) (hc : isRunChar c = false ∧ c ≠ ':')
    (dialect : Dialect) (f : List Char → List Char) : printRaw dialect f (cs ++ c :: ds) =
      cs.flatMap dialect.copied ++ printRaw dialect f (c :: ds) := by
  have hsign : ∀ before, replaceFrom dialect (names (c :: ds)) f before 0 (c :: ds) =
      dialect.copied c ++ replaceFrom dialect (names (c :: ds)) f c 0 ds := fun before => by
    rw [replaceFrom, if_neg fun hname => hc.2 hname.1]
  have hself : unescape (cs.flatMap dialect.copied) = cs.flatMap dialect.copied :=
    unescape_eq_self fun hin => h (Dialect.mem_of_mem_flatMap_copied (hin.subset (by simp)))
  rw [printRaw, names_append_sign h hc.2, replaceFrom_append h, hsign, unescape_append, hself,
    printRaw, hsign]
  intro d hd
  rw [dialect.head?_copied_append] at hd
  obtain rfl := Option.some.inj hd
  exact hc

end Colonless

end NestedJoin.Sql
