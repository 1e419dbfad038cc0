import NestedJoin.Sql.Identifier
import NestedJoin.Sql.Placeholder
import NestedJoin.Text.Blank
set_option autoImplicit false

/-!
# Reading conditions

What a condition says is told by its words.  A text is cut into words, quoted texts and single
signs, without blanks and comments.  Outside of brackets the word OR stands between the
alternatives of a condition, and the word AND between the operands of one alternative, unless it
belongs to a BETWEEN.  What the operands say about a row is left open: each is true, false or
unknown there, and the condition is so accordingly.

Main statements: `Reading.agrees_iff`, what it takes for a condition with operands in front of its
first alternative to be the conjunction of these operands and the condition, and
`reading_intercalate`, what is written before a condition with AND becomes such operands.
-/

namespace NestedJoin.Sql

/-! ## Truth -/

/-- What a condition is of a row. -/
inductive Truth where
  | no
  | unknown
  | yes
  deriving DecidableEq, Repr

namespace Truth

/-- The conjunction of two conditions. -/
def and : Truth → Truth → Truth
  | .yes, t => t
  | .no, _ => .no
  | .unknown, .no => .no
  | .unknown, _ => .unknown

/-- The disjunction of two conditions. -/
def or : Truth → Truth → Truth
  | .no, t => t
  | .yes, _ => .yes
  | .unknown, .yes => .yes
  | .unknown, _ => .unknown

variable (t u w : Truth)

@[simp] theorem and_yes : t.and .yes = t := by cases t <;> rfl

@[simp] theorem or_no : t.or .no = t := by cases t <;> rfl

@[simp] theorem and_no : t.and .no = .no := by cases t <;> rfl

theorem and_assoc : (t.and u).and w = t.and (u.and w) := by cases t <;> cases u <;> cases w <;> rfl

theorem and_left_comm : t.and (u.and w) = u.and (t.and w) := by
  cases t <;> cases u <;> cases w <;> rfl

theorem and_and_self : t.and (t.and u) = t.and u := by cases t <;> cases u <;> rfl

theorem and_or : t.and (u.or w) = (t.and u).or (t.and w) := by
  cases t <;> cases u <;> cases w <;> rfl

variable {t u}

theorem and_eq_yes_iff : t.and u = .yes ↔ t = .yes ∧ u = .yes := by cases t <;> cases u <;> decide

theorem or_eq_yes_iff : t.or u = .yes ↔ t = .yes ∨ u = .yes := by cases t <;> cases u <;> decide

section Lists

variable {α : Type} (val : α → Truth)

/-- The conjunction of some conditions. -/
def all (xs : List α) : Truth := xs.foldr (fun x t => (val x).and t) .yes

/-- The disjunction of some conditions. -/
def any (xs : List α) : Truth := xs.foldr (fun x t => (val x).or t) .no

variable {val} {x : α} {xs ys : List α}

theorem all_append : all val (xs ++ ys) = (all val xs).and (all val ys) := by
  induction xs with
  | nil => rfl
  | cons x xs ih =>
    show (val x).and (all val (xs ++ ys)) = ((val x).and (all val xs)).and (all val ys)
    rw [ih, and_assoc]

theorem all_eq_yes_iff : all val xs = .yes ↔ ∀ x ∈ xs, val x = .yes := by
  induction xs with
  | nil => exact iff_of_true rfl nofun
  | cons x xs ih =>
    rw [List.forall_mem_cons, ← ih]
    exact and_eq_yes_iff

theorem any_eq_yes_iff : any val xs = .yes ↔ ∃ x ∈ xs, val x = .yes := by
  induction xs with
  | nil => exact iff_of_false nofun nofun
  | cons x xs ih =>
    simp only [List.mem_cons, or_and_right, exists_or, exists_eq_left, ← ih]
    exact or_eq_yes_iff

/-- A conjunction says nothing new with one of its members before it. -/
theorem and_all_of_mem (h : x ∈ xs) : (val x).and (all val xs) = all val xs := by
  induction xs with
  | nil => cases h
  | cons y ys ih =>
    show (val x).and ((val y).and (all val ys)) = (val y).and (all val ys)
    rcases List.mem_cons.1 h with rfl | h
    · exact and_and_self _ _
    · rw [and_left_comm, ih h]

/-- A conjunction says nothing new with some of its members before it. -/
theorem all_and_all_of_subset (h : xs ⊆ ys) : (all val xs).and (all val ys) = all val ys := by
  induction xs with
  | nil => rfl
  | cons x xs ih =>
    show ((val x).and (all val xs)).and (all val ys) = all val ys
    obtain ⟨hx, hxs⟩ := List.cons_subset.1 h
    rw [and_assoc, ih hxs, and_all_of_mem hx]

/-- What goes without saying for each alternative does so for all of them. -/
theorem and_any_of_forall {t : Truth} (h : ∀ x ∈ xs, t.and (val x) = val x) :
    t.and (any val xs) = any val xs := by
  induction xs with
  | nil => exact and_no t
  | cons x xs ih =>
    obtain ⟨hx, hxs⟩ := List.forall_mem_cons.1 h
    show t.and ((val x).or (any val xs)) = (val x).or (any val xs)
    rw [and_or, hx, ih hxs]

end Lists

end Truth

/-! ## Words, quoted texts and signs -/

/-- A part of a condition that is not taken apart. -/
inductive Token where
  | word (cs : List Char)
  | quoted (mark : Char) (cs : List Char)
  | sign (c : Char)
  deriving DecidableEq, Repr

/-- Where in a text its reader is; a quoted text at its end may go on with a doubled mark, and a
sign may start a comment. -/
inductive Mode where
  | gap
  | word (cs : List Char)
  | quoted (mark : Char) (cs : List Char)
  | closing (mark : Char) (cs : List Char)
  | opening (c : Char)
  | lineComment
  | comment
  | commentStar
  deriving DecidableEq, Repr

namespace Mode

/-- What has been read of a part that ends here. -/
def pending : Mode → List Token
  | .word cs => [.word cs]
  | .quoted m cs => [.quoted m cs]
  | .closing m cs => [.quoted m cs]
  | .opening c => [.sign c]
  | _ => []

/-- What a character is that continues nothing, and where the reader is after it. -/
def start (c : Char) : List Token × Mode :=
  if isRunChar c then ([], .word [c])
  else if c = '\x27' ∨ c = '\x22' then ([], .quoted c [])
  else if c = '-' ∨ c = '/' then ([], .opening c)
  else if Text.isBlank c then ([], .gap)
  else ([.sign c], .gap)

/-- The part that a character ends, followed by what the character is by itself. -/
def restart (m : Mode) (c : Char) : List Token × Mode := (m.pending ++ (start c).1, (start c).2)

/-- What is complete after one more character, and where the reader is then. -/
def step : Mode → Char → List Token × Mode
  | .gap, c => start c
  | .word cs, c => if isRunChar c then ([], .word (cs ++ [c])) else restart (.word cs) c
  | .quoted m cs, c => if c = m then ([], .closing m cs) else ([], .quoted m (cs ++ [c]))
  | .closing m cs, c => if c = m then ([], .quoted m (cs ++ [c])) else restart (.closing m cs) c
  | .opening d, c =>
    if d = '-' ∧ c = '-' then ([], .lineComment)
    else if d = '/' ∧ c = '*' then ([], .comment)
    else restart (.opening d) c
  | .lineComment, c => if c = '\n' then ([], .gap) else ([], .lineComment)
  | .comment, c => if c = '*' then ([], .commentStar) else ([], .comment)
  | .commentStar, c =>
    if c = '/' then ([], .gap) else if c = '*' then ([], .commentStar) else ([], .comment)

end Mode

/-- The parts of the rest of a text. -/
def tokensFrom : Mode → List Char → List Token
  | m, [] => m.pending
  | m, c :: cs => (m.step c).1 ++ tokensFrom (m.step c).2 cs

/-- The parts of a text. -/
def tokens (t : String) : List Token := tokensFrom .gap t.toList

namespace Token

/-- A word in any letter case. -/
def isKeyword (w : String) : Token → Bool
  | .word cs => cs.map Char.toLower == w.toList
  | _ => false

/-- How much deeper inside brackets a text is after a part of it. -/
def nesting (t : Token) : Int :=
  if t = .sign '(' ∨ t = .sign '[' ∨ t.isKeyword "case" then 1
  else if t = .sign ')' ∨ t = .sign ']' ∨ t.isKeyword "end" then -1
  else 0

end Token

/-! ## Alternatives and their operands -/

/-- A condition is a disjunction of conjunctions of operands: the first operand, the others of the
first alternative, and the other alternatives. -/
structure Reading where
  operand : List Token
  others : List (List Token)
  later : List (List (List Token))
  deriving DecidableEq, Repr

/-- How deep inside brackets a part of a condition stands, and whether the AND of a BETWEEN outside
of brackets is still to come. -/
structure Place where
  depth : Int := 0
  inBetween : Bool := false
  deriving DecidableEq, Repr

namespace Place

/-- The place after a part that belongs to an operand. -/
def after (p : Place) (t : Token) : Place where
  depth := p.depth + t.nesting
  inBetween := if p.depth = 0 then t.isKeyword "between" || (p.inBetween && !t.isKeyword "and")
    else p.inBetween

end Place

namespace Reading

/-- The reading of a condition with one more part at the start. -/
def push (t : Token) (r : Reading) : Reading := { r with operand := t :: r.operand }

/-- The operands of the first alternative. -/
def first (r : Reading) : List (List Token) := r.operand :: r.others

/-- The reading of a condition from some place on. -/
def ofTokens (p : Place) : List Token → Reading
  | [] => ⟨[], [], []⟩
  | t :: ts =>
    if p.depth = 0 ∧ t.isKeyword "or" = true then
      let r := ofTokens {} ts
      ⟨[], [], r.first :: r.later⟩
    else if p = {} ∧ t.isKeyword "and" = true then
      let r := ofTokens {} ts
      ⟨[], r.first, r.later⟩
    else (ofTokens (p.after t) ts).push t

/-- What a condition is of a row of which its operands are something. -/
def truth (val : List Token → Truth) (r : Reading) : Truth :=
  (Truth.all val r.first).or (Truth.any (Truth.all val) r.later)

end Reading

/-- A condition as it is read. -/
def reading (t : String) : Reading := .ofTokens {} (tokens t)

example : reading "a = 1 or b BETWEEN 2 AND 3 AND (c OR d)" =
    { operand := [.word ['a'], .sign '=', .word ['1']]
      others := []
      later := [
        [[.word ['b'], .word "BETWEEN".toList, .word ['2'], .word "AND".toList, .word ['3']],
          [.sign '(', .word ['c'], .word ['O', 'R'], .word ['d'], .sign ')']]] } := by
  decide +kernel

namespace Reading

/-! ## Operands in front of a condition -/

/-- A condition with more operands in its first alternative. -/
def precede (ps : List (List Token)) (r : Reading) : Reading :=
  match ps with
  | [] => r
  | p :: ps => ⟨p, ps ++ r.first, r.later⟩

variable {ps : List (List Token)} {r : Reading}

theorem first_precede : (precede ps r).first = ps ++ r.first := by
  cases ps with
  | nil => rfl
  | cons p ps => rfl

theorem later_precede : (precede ps r).later = r.later := by
  cases ps with
  | nil => rfl
  | cons p ps => rfl

/-- Operands in front of a condition restrict its first alternative only. -/
theorem truth_precede (val : List Token → Truth) : (precede ps r).truth val =
    ((Truth.all val ps).and (Truth.all val r.first)).or (Truth.any (Truth.all val) r.later) := by
  rw [truth, first_precede, later_precede, Truth.all_append]

/-- Each later alternative has some operands among its own. -/
def Repeats (ps : List (List Token)) (r : Reading) : Prop := ∀ ops ∈ r.later, ps ⊆ ops

instance : Decidable (Repeats ps r) :=
  inferInstanceAs (Decidable (∀ ops ∈ r.later, ∀ p ∈ ps, p ∈ ops))

/-- If each later alternative has the operands in front of the condition among its own, they
restrict all of it. -/
theorem Repeats.truth_precede_eq (h : Repeats ps r) (val : List Token → Truth) :
    (precede ps r).truth val = (Truth.all val ps).and (r.truth val) := by
  have hlater : (Truth.all val ps).and (Truth.any (Truth.all val) r.later) =
      Truth.any (Truth.all val) r.later :=
    Truth.and_any_of_forall fun ops hops => Truth.all_and_all_of_subset (h ops hops)
  rw [truth_precede, truth, Truth.and_or, hlater]

/-- If the operands in front of a condition hold wherever the whole does, then each later
alternative has them among its own. -/
theorem repeats_of_forall
    (h : ∀ val, (precede ps r).truth val = .yes → Truth.all val ps = .yes) : Repeats ps r := by
  intro ops hops p hp
  -- exactly the operands of this alternative are true
  let val : List Token → Truth := fun o => if o ∈ ops then .yes else .no
  have hops' : Truth.all val ops = .yes := Truth.all_eq_yes_iff.2 fun o ho => if_pos ho
  have hwhole : (precede ps r).truth val = .yes := by
    rw [truth_precede]
    exact Truth.or_eq_yes_iff.2 (Or.inr (Truth.any_eq_yes_iff.2 ⟨ops, hops, hops'⟩))
  have hval : val p = .yes := Truth.all_eq_yes_iff.1 (h val hwhole) p hp
  by_cases hmem : p ∈ ops
  · exact hmem
  · rw [show val p = .no from if_neg hmem] at hval
    cases hval

/-- A condition with operands in front is the conjunction of these operands and the condition, and
lets them hold wherever it does, exactly if each later alternative repeats them. -/
theorem agrees_iff :
    ((∀ val, (precede ps r).truth val = (Truth.all val ps).and (r.truth val)) ↔ Repeats ps r) ∧
      ((∀ val, (precede ps r).truth val = .yes → ∀ p ∈ ps, val p = .yes) ↔ Repeats ps r) := by
  refine ⟨⟨fun h => repeats_of_forall fun val hyes => ?_, Repeats.truth_precede_eq⟩,
    ⟨fun h => repeats_of_forall fun val hyes => Truth.all_eq_yes_iff.2 (h val hyes), ?_⟩⟩
  · rw [h val] at hyes
    exact (Truth.and_eq_yes_iff.1 hyes).1
  · intro h val hyes
    rw [h.truth_precede_eq] at hyes
    exact Truth.all_eq_yes_iff.1 (Truth.and_eq_yes_iff.1 hyes).1

end Reading

/-! ## Reading a text piece by piece -/

section Pieces

variable {w cs ds : List Char} {m : Char} {ts us : List Token}

/-- A part that the next character does not continue is complete. -/
theorem tokensFrom_of_restart {mode : Mode} (h : ∀ d ∈ ds.head?, mode.step d = mode.restart d) :
    tokensFrom mode ds = mode.pending ++ tokensFrom .gap ds := by
  cases ds with
  | nil => exact (List.append_nil _).symm
  | cons d ds =>
    rw [tokensFrom, h d rfl, Mode.restart, List.append_assoc]
    rfl

theorem tokensFrom_word_append (h : ∀ c ∈ cs, isRunChar c = true) :
    tokensFrom (.word w) (cs ++ ds) = tokensFrom (.word (w ++ cs)) ds := by
  induction cs generalizing w with
  | nil => rw [List.append_nil, List.nil_append]
  | cons c cs ih =>
    obtain ⟨hc, hcs⟩ := List.forall_mem_cons.1 h
    rw [List.cons_append, tokensFrom, Mode.step, if_pos hc, List.nil_append, ih hcs,
      List.append_assoc, List.singleton_append]

/-- Inside of quotes a doubled mark is the mark itself. -/
theorem tokensFrom_quoted_append :
    tokensFrom (.quoted m w) ((cs.flatMap fun c => if c = m then [c, c] else [c]) ++ ds) =
      tokensFrom (.quoted m (w ++ cs)) ds := by
  induction cs generalizing w with
  | nil => rw [List.append_nil, List.flatMap_nil, List.nil_append]
  | cons c cs ih =>
    rw [List.flatMap_cons, List.append_assoc]
    by_cases hc : c = m
    · subst hc
      simp only [if_pos, List.cons_append, List.nil_append, tokensFrom, Mode.step, ih,
        List.append_assoc]
    · simp only [if_neg hc, List.cons_append, List.nil_append, tokensFrom, Mode.step, ih,
        List.append_assoc]

/-- What may follow a name in a condition. -/
def FollowsName (ds : List Char) : Prop := ∀ d ∈ ds.head?, d = ' ' ∨ d = '.'

theorem followsName_nil : FollowsName [] := by
  intro d hd
  cases hd

theorem followsName_blank : FollowsName (' ' :: cs) :=
  fun _ hd => Or.inl (Option.some.inj hd).symm

theorem followsName_point : FollowsName ('.' :: cs) :=
  fun _ hd => Or.inr (Option.some.inj hd).symm

/-- A text is read as some parts wherever it may end like a name. -/
def ReadsAs (cs : List Char) (ts : List Token) : Prop :=
  ∀ ds, FollowsName ds → tokensFrom .gap (cs ++ ds) = ts ++ tokensFrom .gap ds

/-- A text is read as some parts, whatever follows. -/
def ReadsAlone (cs : List Char) (ts : List Token) : Prop :=
  ∀ ds, tokensFrom .gap (cs ++ ds) = ts ++ tokensFrom .gap ds

theorem ReadsAs.append (h : ReadsAs cs ts) (h' : ReadsAlone ds us) (hfollows : FollowsName ds)
    (hne : ds ≠ []) : ReadsAlone (cs ++ ds) (ts ++ us) := by
  intro rest
  obtain ⟨d, ds, rfl⟩ := List.exists_cons_of_ne_nil hne
  have hrest : FollowsName (d :: ds ++ rest) := hfollows
  rw [List.append_assoc, h _ hrest, h' rest, List.append_assoc]

theorem ReadsAlone.append (h : ReadsAlone cs ts) (h' : ReadsAs ds us) :
    ReadsAs (cs ++ ds) (ts ++ us) := by
  intro rest hrest
  rw [List.append_assoc, h, h' rest hrest, List.append_assoc]

end Pieces

/-! ## Names -/

/-- A name as it is read. -/
def nameToken (dialect : Dialect) (n : String) : Token :=
  if needsQuotes dialect n then .quoted '\x22' (n.toList.flatMap dialect.copied)
  else .word (dropFinalBreak n.toList)

/-- A name is no reserved word with a line break at its end, which would go unnoticed. -/
def IsClear (dialect : Dialect) (n : String) : Prop := ∀ w ∈ dialect.reservedWords, n ≠ w ++ "\n"

instance (dialect : Dialect) (n : String) : Decidable (IsClear dialect n) :=
  inferInstanceAs (Decidable (∀ w ∈ dialect.reservedWords, n ≠ w ++ "\n"))

/-- The characters of plain names belong to runs and are no capital letters. -/
theorem of_isPlainChar {c : Char} (h : isPlainChar c = true) :
    isRunChar c = true ∧ c.toLower = c := by
  simp only [isPlainChar, Bool.or_eq_true, beq_iff_eq] at h
  have hword : c.toNat < 0x80 → c.isAlphanum = true → isRunChar c = true := fun hc ha =>
    Bool.or_eq_true_iff.2 (Or.inl (Text.isWord_of_isAlphanum hc ha))
  rcases h with ((((h | h) | rfl) | rfl) | h) | h
  · obtain ⟨hlow, hhigh⟩ := Bool.and_eq_true_iff.1 h
    have habove : 0x61 ≤ c.toNat := of_decide_eq_true hlow
    have hbelow : c.toNat ≤ 0x7a := of_decide_eq_true hhigh
    have hletter : c.isAlpha = true := Bool.or_eq_true_iff.2 (Or.inr h)
    refine ⟨hword (by omega) (Bool.or_eq_true_iff.2 (Or.inl hletter)), dif_neg ?_⟩
    rintro ⟨-, hcapital⟩
    have : c.toNat ≤ 0x5a := hcapital
    omega
  · obtain ⟨hlow, hhigh⟩ := Bool.and_eq_true_iff.1 h
    have hbelow : c.toNat ≤ 0x39 := of_decide_eq_true hhigh
    refine ⟨hword (by omega) (Bool.or_eq_true_iff.2 (Or.inr h)), dif_neg ?_⟩
    rintro ⟨hcapital, -⟩
    have : 0x41 ≤ c.toNat := hcapital
    omega
  · exact ⟨rfl, rfl⟩
  · exact ⟨rfl, rfl⟩
  · rw [show c = Char.ofNat 0x131 from Char.ext (UInt32.toNat_inj.1 h)]
    decide
  · rw [show c = Char.ofNat 0x17f from Char.ext (UInt32.toNat_inj.1 h)]
    decide

/-- Only a line break may be lost at the end of a text. -/
theorem eq_dropFinalBreak_append (cs : List Char) :
    cs = dropFinalBreak cs ∨ cs = dropFinalBreak cs ++ ['\n'] := by
  unfold dropFinalBreak
  split
  · next h =>
    obtain ⟨body, rfl⟩ := List.getLast?_eq_some_iff.1 h
    exact Or.inr (by rw [List.dropLast_concat])
  · exact Or.inl rfl

/-- The characters of a name that needs no quotes. -/
theorem of_needsQuotes_eq_false {dialect : Dialect} {n : String}
    (h : needsQuotes dialect n = false) :
    n ∉ dialect.reservedWords ∧ dropFinalBreak n.toList ≠ [] ∧
      ∀ c ∈ dropFinalBreak n.toList, isPlainChar c = true := by
  simp only [needsQuotes, Bool.or_eq_false_iff, Bool.not_eq_false', List.all_eq_true,
    List.isEmpty_eq_false_iff] at h
  obtain ⟨⟨⟨hreserved, hne⟩, hplain⟩, -⟩ := h
  refine ⟨fun hm => ?_, hne, hplain⟩
  rw [List.contains_iff_mem.2 hm] at hreserved
  cases hreserved

/-- A name is read as one part. -/
theorem readsAs_identifier (dialect : Dialect) (n : String) :
    ReadsAs (identifier dialect n).toList [nameToken dialect n] := by
  intro ds hds
  unfold identifier nameToken
  cases hquotes : needsQuotes dialect n with
  | true =>
    rw [if_pos rfl, if_pos rfl, String.toList_ofList]
    generalize n.toList.flatMap dialect.copied = cs
    have hclosing : ∀ d ∈ ds.head?, (Mode.closing '\x22' cs).step d =
        (Mode.closing '\x22' cs).restart d := by
      intro d hd
      rcases hds d hd with rfl | rfl <;> rfl
    generalize hbody : (cs.flatMap fun c => if c = '\x22' then [c, c] else [c]) = body
    calc tokensFrom .gap (('\x22' :: body ++ ['\x22']) ++ ds)
        = tokensFrom (.quoted '\x22' []) (body ++ '\x22' :: ds) := by
          simp only [List.cons_append, List.append_assoc, List.nil_append]
          rfl
      _ = tokensFrom (.closing '\x22' cs) ds := by
          rw [← hbody, tokensFrom_quoted_append]
          rfl
      _ = [.quoted '\x22' cs] ++ tokensFrom .gap ds := tokensFrom_of_restart hclosing
  | false =>
    rw [if_neg Bool.false_ne_true, if_neg Bool.false_ne_true]
    obtain ⟨-, hne, hplain⟩ := of_needsQuotes_eq_false hquotes
    obtain ⟨c, cs, hbody⟩ := List.exists_cons_of_ne_nil hne
    rw [hbody] at hplain ⊢
    obtain ⟨hc, hcs⟩ := List.forall_mem_cons.1 hplain
    have hword : ∀ rest, (∀ d ∈ rest.head?, isRunChar d = false) →
        tokensFrom .gap (c :: cs ++ rest) = [.word (c :: cs)] ++ tokensFrom .gap rest := by
      intro rest hrest
      rw [List.cons_append, tokensFrom, Mode.step, Mode.start,
        if_pos (of_isPlainChar hc).1, List.nil_append,
        tokensFrom_word_append fun c' hc' => (of_isPlainChar (hcs c' hc')).1]
      refine tokensFrom_of_restart fun d hd => ?_
      rw [Mode.step, hrest d hd, if_neg Bool.false_ne_true]
    have hends : ∀ d ∈ ds.head?, isRunChar d = false := by
      intro d hd
      rcases hds d hd with rfl | rfl <;> rfl
    rcases eq_dropFinalBreak_append n.toList with hn | hn
    · rw [hn, hbody]
      exact hword ds hends
    · have hbreak : ∀ d ∈ ('\n' :: ds).head?, isRunChar d = false := by
        intro d hd
        cases hd
        rfl
      rw [hn, hbody, List.append_assoc]
      exact hword ('\n' :: ds) hbreak

/-! ## Operands without words of their own -/

/-- A part that neither stands for a connective nor opens or closes a bracket. -/
structure Token.IsInert (t : Token) : Prop where
  nesting : t.nesting = 0
  keyword : ∀ w ∈ ["and", "or", "between"], t.isKeyword w = false

/-- A name without a hidden reserved word is inert. -/
theorem isInert_nameToken {dialect : Dialect} {n : String} (h : IsClear dialect n) :
    (nameToken dialect n).IsInert := by
  have hkeyword : ∀ w ∈ dialect.reservedWords, (nameToken dialect n).isKeyword w = false := by
    intro w hw
    unfold nameToken
    split
    · rfl
    · next hquotes =>
      obtain ⟨hreserved, -, hplain⟩ := of_needsQuotes_eq_false (eq_false_of_ne_true hquotes)
      have hlower : (dropFinalBreak n.toList).map Char.toLower = dropFinalBreak n.toList := by
        rw [List.map_congr_left fun c hc => (of_isPlainChar (hplain c hc)).2, List.map_id']
      rw [Token.isKeyword, hlower]
      refine beq_false_of_ne fun heq => ?_
      rcases eq_dropFinalBreak_append n.toList with hn | hn
      · rw [heq, String.toList_inj] at hn
        exact hreserved (hn ▸ hw)
      · refine h w hw (String.toList_inj.1 ?_)
        rw [hn, heq, String.toList_append]
        rfl
  have hword : ∀ c, nameToken dialect n ≠ .sign c := by
    intro c
    unfold nameToken
    split <;> nofun
  constructor
  · rw [Token.nesting, if_neg, if_neg]
    · rw [hkeyword "end" (dialect.mem_reservedWords _ (by decide))]
      simp [hword]
    · rw [hkeyword "case" (dialect.mem_reservedWords _ (by decide))]
      simp [hword]
  · intro w hw
    exact hkeyword w (dialect.mem_reservedWords w (by revert w; decide))

namespace Reading

variable {ops ts : List Token}

theorem ofTokens_cons_of_isInert {t : Token} (h : t.IsInert) :
    ofTokens {} (t :: ts) = (ofTokens {} ts).push t := by
  have hafter : Place.after {} t = {} := by
    rw [Place.after, h.nesting, h.keyword "between" (by decide)]
    rfl
  rw [ofTokens, h.keyword "or" (by decide), h.keyword "and" (by decide), hafter, if_neg, if_neg]
  · exact fun hand => Bool.false_ne_true hand.2
  · exact fun hor => Bool.false_ne_true hor.2

/-- Inert parts are one operand. -/
theorem ofTokens_of_isInert (h : ∀ t ∈ ops, t.IsInert) : ofTokens {} ops = ⟨ops, [], []⟩ := by
  induction ops with
  | nil => rfl
  | cons t ts ih =>
    obtain ⟨ht, hts⟩ := List.forall_mem_cons.1 h
    rw [ofTokens_cons_of_isInert ht, ih hts]
    rfl

/-- Inert parts before an AND are the first operand. -/
theorem ofTokens_append_and (h : ∀ t ∈ ops, t.IsInert) :
    ofTokens {} (ops ++ .word "AND".toList :: ts) = precede [ops] (ofTokens {} ts) := by
  induction ops with
  | nil => rfl
  | cons t ts' ih =>
    obtain ⟨ht, hts⟩ := List.forall_mem_cons.1 h
    rw [List.cons_append, ofTokens_cons_of_isInert ht, ih hts]
    rfl

theorem precede_precede (p : List Token) (ps : List (List Token)) (r : Reading) :
    precede [p] (precede ps r) = precede (p :: ps) r := by
  rw [precede, first_precede, later_precede]
  rfl

end Reading

/-- An inert text is one operand. -/
theorem reading_of_readsAs {t : String} {ts : List Token} (h : ReadsAs t.toList ts)
    (hinert : ∀ t ∈ ts, t.IsInert) : reading t = ⟨ts, [], []⟩ := by
  have htokens := h [] followsName_nil
  rw [List.append_nil] at htokens
  rw [reading, tokens, htokens]
  exact (congrArg _ (List.append_nil ts)).trans (Reading.ofTokens_of_isInert hinert)

/-- Inert texts before a condition, AND-ed, are operands of its first alternative. -/
theorem reading_intercalate {α : Type} {write : α → String} {read : α → List Token} {xs : List α}
    (h : ∀ x ∈ xs, ReadsAs (write x).toList (read x) ∧ ∀ t ∈ read x, t.IsInert) (t : String) :
    reading (" AND ".intercalate (xs.map write ++ [t])) = .precede (xs.map read) (reading t) := by
  induction xs with
  | nil => rfl
  | cons x xs ih =>
    obtain ⟨⟨hreads, hinert⟩, hxs⟩ := List.forall_mem_cons.1 h
    have hand : ReadsAlone " AND ".toList [.word "AND".toList] := fun _ => rfl
    have hstart := hreads.append hand followsName_blank (by decide)
    obtain ⟨u, us, hrest⟩ := List.exists_cons_of_ne_nil
      (List.append_ne_nil_of_right_ne_nil (xs.map write) (List.cons_ne_nil t []))
    calc reading (" AND ".intercalate ((x :: xs).map write ++ [t]))
        = reading (write x ++ " AND " ++ " AND ".intercalate (xs.map write ++ [t])) := by
          rw [List.map_cons, List.cons_append, hrest, String.intercalate_cons_cons]
      _ = .ofTokens {} (read x ++ .word "AND".toList ::
            tokens (" AND ".intercalate (xs.map write ++ [t]))) := by
          rw [reading, tokens, String.toList_append, String.toList_append, hstart,
            List.append_assoc, List.singleton_append]
          rfl
      _ = .precede [read x] (reading (" AND ".intercalate (xs.map write ++ [t]))) :=
          Reading.ofTokens_append_and hinert
      _ = .precede ((x :: xs).map read) (reading t) := by
          rw [ih hxs, Reading.precede_precede, List.map_cons]

end NestedJoin.Sql
