import Mathlib.Algebra.Group.Nat.Even
import Express.Proofs.Heads
import Express.Proofs.Passage
import Express.Proofs.ReadBack

/-!
# Where blocks end

A block ends at the first whole word `END_…` of its kind, without regard to string literals. So that word stands outside
of all literals exactly if no literal that opens in the block holds it (`even_quotes_iff`). Statements end with a
semicolon outside of literals.
-/

namespace Express.Reader

open Text Reader.Parser

/-! ### Words and marks -/

theorem wordAt_mark {mark : Char} (outside : Name.isPart mark = false) (x y : List Char) :
    wordAt (x ++ mark :: y) = wordAt x := by
  rw [wordAt, leadingWord, takeWhile_front outside]
  rfl

section

variable {word : String} (identifier : Name.isIdentifier word = true)
include identifier

section

variable {mark : Char} (outside : Name.isPart mark = false)
include outside

theorem keyword_mark (x y : List Char) :
    keyword word (x ++ mark :: y) = (keyword word x).map fun found => (found.1, found.2 ++ mark :: y) := by
  have parts := Name.parts_of_isIdentifier identifier
  have leads : leadingWord (x ++ mark :: y) = leadingWord x := takeWhile_front outside x y
  rw [keyword_eq parts, keyword_eq parts, leads, dropWhile_front outside]
  split <;> rfl

/-- The word is found at the front of the text, or the search goes on behind its first character. -/
theorem splitWord_cases (inName : Bool) (c : Char) (x : List Char) :
    (∃ rest, splitWord word.toList inName (c :: x) = some ([], rest) ∧
      ∀ y, splitWord word.toList inName (c :: x ++ mark :: y) = some ([], rest ++ mark :: y)) ∨
    (splitWord word.toList inName (c :: x) =
        (splitWord word.toList (Name.isPart c) x).map (fun (front, rest) => (c :: front, rest)) ∧
      ∀ y, splitWord word.toList inName (c :: x ++ mark :: y) =
        (splitWord word.toList (Name.isPart c) (x ++ mark :: y)).map fun (front, rest) => (c :: front, rest)) := by
  by_cases found : inName = false ∧ (keyword word (c :: x)).isSome = true
  · obtain ⟨rfl, found⟩ := found
    obtain ⟨⟨⟨⟩, rest⟩, found⟩ := Option.isSome_iff_exists.mp found
    refine .inl ⟨rest, splitWord_found found, fun y => ?_⟩
    have alike := keyword_mark identifier outside (c :: x) y
    rw [found] at alike
    exact splitWord_found alike
  · have missed (free : inName = false) : keyword word (c :: x) = none := by
      cases tried : keyword word (c :: x) with
      | none => rfl
      | some pair => exact absurd ⟨free, by rw [tried]; rfl⟩ found
    refine .inr ⟨splitWord_missed missed, fun y => splitWord_missed fun free => ?_⟩
    have alike := keyword_mark identifier outside (c :: x) y
    rw [missed free] at alike
    exact alike

variable {inName : Bool} {x : List Char}

theorem splitWord_mark_of_some {front x' : List Char} (found : splitWord word.toList inName x = some (front, x'))
    (y : List Char) : splitWord word.toList inName (x ++ mark :: y) = some (front, x' ++ mark :: y) := by
  induction x generalizing inName front with
  | nil => cases found
  | cons c x ih =>
    rcases splitWord_cases identifier outside inName c x with ⟨rest, here, alike⟩ | ⟨later, alike⟩
    · rw [here] at found
      cases found
      exact alike y
    · rw [later] at found
      obtain ⟨⟨inner, after⟩, inside, same⟩ := Option.map_eq_some_iff.mp found
      cases same
      rw [alike y, ih inside]
      rfl

/-- Behind a text without the word and a mark, the search begins anew. -/
theorem splitWord_mark_of_none (absent : splitWord word.toList inName x = none) (y : List Char) :
    splitWord word.toList inName (x ++ mark :: y) =
      (splitWord word.toList false y).map fun (front, rest) => (x ++ mark :: front, rest) := by
  induction x generalizing inName with
  | nil =>
    rw [List.nil_append, splitWord_missed fun _ => ?_, outside]
    · rfl
    · rw [keyword_eq (Name.parts_of_isIdentifier identifier), leadingWord, List.takeWhile_cons_of_neg (by simp [outside]),
        if_neg]
      exact fun same => Name.toList_ne_nil identifier same.symm
  | cons c x ih =>
    rcases splitWord_cases identifier outside inName c x with ⟨rest, here, alike⟩ | ⟨later, alike⟩
    · rw [here] at absent
      cases absent
    · rw [later] at absent
      rw [alike y, ih (Option.map_eq_none_iff.mp absent), Option.map_map]
      rfl

end

variable {inName : Bool}

/-- The identifier that a text starts with is the word exactly if the word is taken there. -/
theorem keyword_eq_none (c : Char) (cs : List Char) : keyword word (c :: cs) = none ↔
    ∀ other ∈ (if Name.isPart c then [leadingWord (c :: cs)] else []), upper other ≠ word.toList := by
  have filled : upper [] ≠ word.toList := fun same => Name.toList_ne_nil identifier same.symm
  have taken : keyword word (c :: cs) = none ↔ upper (leadingWord (c :: cs)) ≠ word.toList := by
    rw [keyword_eq (Name.parts_of_isIdentifier identifier)]
    split <;> simp_all
  rw [taken]
  cases part : Name.isPart c with
  | true => simp
  | false =>
    rw [leadingWord, List.takeWhile_cons_of_neg (by simp [part])]
    exact ⟨fun _ other member => absurd member List.not_mem_nil, fun _ => filled⟩

theorem splitWord_eq_none (cs : List Char) : splitWord word.toList inName cs = none ↔
    ∀ other ∈ identifiersFrom inName cs, upper other ≠ word.toList := by
  induction cs generalizing inName with
  | nil =>
    have none : identifiersFrom inName [] = [] := by cases inName <;> rfl
    rw [none]
    exact ⟨fun _ other member => absurd member List.not_mem_nil, fun _ => rfl⟩
  | cons c cs ih =>
    rw [identifiersFrom_cons, List.forall_mem_append]
    cases inName with
    | true =>
      rw [splitWord_missed fun free => absurd free (by decide), Option.map_eq_none_iff, ih]
      exact ⟨fun later => ⟨fun other member => absurd member List.not_mem_nil, later⟩, And.right⟩
    | false =>
      rw [Bool.not_false, Bool.true_and, ← keyword_eq_none identifier, ← ih]
      cases first : keyword word (c :: cs) with
      | none =>
        rw [splitWord_missed fun _ => first, Option.map_eq_none_iff]
        exact ⟨fun later => ⟨rfl, later⟩, And.right⟩
      | some pair =>
        rw [splitWord_found first]
        constructor
        · intro none
          cases none
        · rintro ⟨none, -⟩
          cases none

/-- The search fails exactly if no identifier of the text is the word. -/
theorem splitWord_eq_none_iff (cs : List Char) : splitWord word.toList false cs = none ↔ avoids [word] cs = true := by
  rw [splitWord_eq_none identifier, avoids, List.all_eq_true]
  refine forall₂_congr fun other _ => ?_
  rw [decide_eq_true_iff, List.mem_singleton, ← String.toList_inj, String.toList_ofList]

theorem splitWord_free : Free (splitWord word.toList inName) := by
  have shrinks {inName : Bool} : Shrinks (splitWord word.toList inName) := by
    intro cs front rest found
    obtain ⟨spelled, rfl, -⟩ := splitWord_eq found
    exact List.suffix_append _ rest
  refine ⟨shrinks, fun x => ?_⟩
  cases found : splitWord word.toList inName x with
  | some pair => exact .inl ⟨pair.1, pair.2, splitWord_mark_of_some identifier (by decide) found⟩
  | none =>
    refine .inr fun y front r taken => ?_
    rw [splitWord_mark_of_none identifier (by decide) found] at taken
    obtain ⟨⟨inner, after⟩, inside, same⟩ := Option.map_eq_some_iff.mp taken
    exact Grammar.rests_past (shrinks y inner after inside) (Prod.mk.inj same).2

end

/-! ### Statements and blocks -/

theorem splitStatement_isScan : Grammar.IsScan splitStatement where
  ends := by
    intro quoted front rest found
    cases found
  step := by
    intro quoted c
    by_cases ends : c = ';' ∧ !quoted
    · refine .inl ⟨?_, false, fun cs => ?_⟩
      · rw [ends.1]
        decide
      · rw [splitStatement, if_pos ends]
        rfl
    · refine .inr ⟨if c = '\'' then !quoted else quoted, fun cs => ?_⟩
      rw [splitStatement, if_neg ends]

theorem splitStatement_free (quoted : Bool) : Free (splitStatement quoted) :=
  splitStatement_isScan.free quoted

theorem endKeyword_isIdentifier (kind : BlockKind) : Name.isIdentifier kind.endKeyword = true :=
  (endWords_spelled _ (endKeyword_mem kind)).1

theorem cut?_iff {kind : BlockKind} {cs : List Char} {piece : Cut} : cut? kind cs = some piece ↔
    ∃ behind, splitWord kind.endKeyword.toList false cs = some (piece.body, behind) ∧
      splitStatement false behind = some (piece.gap, piece.rest) := by
  unfold cut?
  cases word : splitWord kind.endKeyword.toList false cs with
  | none =>
    constructor
    · intro none
      cases none
    · rintro ⟨behind, none, -⟩
      cases none
  | some pieces =>
    obtain ⟨body, behind⟩ := pieces
    dsimp only
    constructor
    · intro found
      cases statement : splitStatement false behind with
      | none => rw [statement] at found; cases found
      | some pieces =>
        rw [statement] at found
        cases found
        exact ⟨behind, rfl, statement⟩
    · rintro ⟨other, same, statement⟩
      cases same
      rw [statement]

/-- A block that ends in front of a quote ends there whatever stands behind the quote. -/
theorem cut?_quote {kind : BlockKind} {x y r : List Char} {piece : Cut} (found : cut? kind (x ++ '\'' :: y) = some piece)
    (ends : piece.rest = r ++ '\'' :: y) (z : List Char) :
    cut? kind (x ++ '\'' :: z) = some { piece with rest := r ++ '\'' :: z } := by
  obtain ⟨behind, word, statement⟩ := cut?_iff.mp found
  rw [ends] at statement
  obtain ⟨m, rfl⟩ := exists_front ((splitStatement_free false).shrinks behind _ _ statement)
  have wordAlike := Free.takes (splitWord_free (endKeyword_isIdentifier kind)) word
  have statementAlike := Free.takes (splitStatement_free false) statement
  exact cut?_iff.mpr ⟨m ++ '\'' :: z, wordAlike z, statementAlike z⟩

/-! ### String literals -/

/-- A string literal with contents `inner` opens behind `before` and goes on up to the next quote or the end of the
text. -/
def IsLiteral (cs before inner : List Char) : Prop :=
  ∃ after, cs = before ++ '\'' :: (inner ++ after) ∧ Even (before.count '\'') ∧ '\'' ∉ inner ∧
    (after = [] ∨ after.head? = some '\'')

/-- A word that is found behind a quote is found in the text behind that quote. -/
theorem splitWord_behind {word : String} (identifier : Name.isIdentifier word = true) {before t body behind : List Char}
    (found : splitWord word.toList false (before ++ '\'' :: t) = some (body, behind))
    (inside : before.length < body.length) :
    splitWord word.toList false before = none ∧
      ∃ front, body = before ++ '\'' :: front ∧ splitWord word.toList false t = some (front, behind) := by
  cases first : splitWord word.toList false before with
  | some pieces =>
    obtain ⟨front, x'⟩ := pieces
    rw [splitWord_mark_of_some identifier (by decide) first t] at found
    cases found
    obtain ⟨spelled, rfl, -⟩ := splitWord_eq first
    rw [List.length_append, List.length_append] at inside
    omega
  | none =>
    rw [splitWord_mark_of_none identifier (by decide) first] at found
    obtain ⟨⟨front, after⟩, later, same⟩ := Option.map_eq_some_iff.mp found
    cases same
    exact ⟨rfl, front, rfl, later⟩

/-- A block ends at the same word whatever a literal in it holds, but for that word. -/
theorem cut?_literal {kind : BlockKind} {x a b back behind : List Char} {piece : Cut}
    (found : cut? kind (x ++ '\'' :: (a ++ '\'' :: back)) = some piece)
    (held : piece.body = x ++ '\'' :: (a ++ '\'' :: behind)) (free : avoids [kind.endKeyword] b = true) :
    cut? kind (x ++ '\'' :: (b ++ '\'' :: back)) = some { piece with body := x ++ '\'' :: (b ++ '\'' :: behind) } := by
  have identifier := endKeyword_isIdentifier kind
  obtain ⟨after, word, statement⟩ := cut?_iff.mp found
  obtain ⟨outside, front, body, word⟩ := splitWord_behind identifier word (by simp [held])
  obtain rfl : a ++ '\'' :: behind = front := (List.cons.inj (List.append_cancel_left (held.symm.trans body))).2
  obtain ⟨-, front, body, word⟩ := splitWord_behind identifier word (by simp)
  obtain rfl : behind = front := (List.cons.inj (List.append_cancel_left body)).2
  rw [← splitWord_eq_none_iff identifier] at free
  refine cut?_iff.mpr ⟨after, ?_, statement⟩
  rw [splitWord_mark_of_none identifier (by decide) outside, splitWord_mark_of_none identifier (by decide) free, word]
  rfl

/-- The search comes to the same within a literal. -/
theorem splitWord_literal {word : String} (identifier : Name.isIdentifier word = true) {inner after front behind : List Char}
    (closes : after = [] ∨ after.head? = some '\'')
    (found : splitWord word.toList false (inner ++ after) = some (front, behind)) :
    (splitWord word.toList false inner = none ∧ inner.length < front.length) ∨
      ∃ rest, splitWord word.toList false inner = some (front, rest) := by
  rcases closes with rfl | quote
  · rw [List.append_nil] at found
    exact .inr ⟨behind, found⟩
  · obtain ⟨after, rfl⟩ := List.head?_eq_some_iff.mp quote
    cases first : splitWord word.toList false inner with
    | none =>
      rw [splitWord_mark_of_none identifier (by decide) first] at found
      obtain ⟨⟨later, rest⟩, -, same⟩ := Option.map_eq_some_iff.mp found
      cases same
      refine .inl ⟨rfl, ?_⟩
      rw [List.length_append, List.length_cons]
      omega
    | some pieces =>
      rw [splitWord_mark_of_some identifier (by decide) first after] at found
      cases found
      exact .inr ⟨pieces.2, rfl⟩

/-- The last quote of a text with an odd number of them. -/
theorem exists_last_quote {cs : List Char} (odd : ¬ Even (cs.count '\'')) :
    ∃ before t, cs = before ++ '\'' :: t ∧ '\'' ∉ t ∧ Even (before.count '\'') := by
  have quoted : '\'' ∈ cs.reverse := by
    rw [List.mem_reverse]
    by_contra unquoted
    rw [List.count_eq_zero.mpr unquoted] at odd
    exact odd ⟨0, rfl⟩
  obtain ⟨t, before, shape, unquoted⟩ := List.eq_append_cons_of_mem quoted
  have whole : cs = before.reverse ++ '\'' :: t.reverse := by
    rw [← List.reverse_reverse cs, shape, List.reverse_append, List.reverse_cons, List.append_assoc, List.singleton_append]
  have unquoted : '\'' ∉ t.reverse := fun member => unquoted (List.mem_reverse.mp member)
  refine ⟨before.reverse, t.reverse, whole, unquoted, ?_⟩
  rw [whole, List.count_append, List.count_cons_self, List.count_eq_zero.mpr unquoted, Nat.zero_add, Nat.even_add_one,
    not_not] at odd
  exact odd

/-- A text up to its first quote. -/
theorem exists_next_quote (cs : List Char) :
    ∃ front after, cs = front ++ after ∧ '\'' ∉ front ∧ (after = [] ∨ after.head? = some '\'') := by
  by_cases quoted : '\'' ∈ cs
  · obtain ⟨front, after, shape, unquoted⟩ := List.eq_append_cons_of_mem quoted
    exact ⟨front, '\'' :: after, shape, unquoted, .inr rfl⟩
  · exact ⟨cs, [], (List.append_nil cs).symm, quoted, .inl rfl⟩

theorem unquoted_endKeyword {kind : BlockKind} {spelled : List Char} (same : upper spelled = kind.endKeyword.toList) :
    '\'' ∉ spelled := by
  intro member
  have quote : '\'' ∈ kind.endKeyword.toList := same ▸ List.mem_map_of_mem member
  cases kind <;> exact absurd quote (by decide)

section

variable {kind : BlockKind} {start : List Char} {piece : Cut} (found : cut? kind start = some piece)
include found

/-- A literal that opens in a block and holds the word is where the block ends. -/
theorem avoids_of_even_quotes (even : Even (piece.body.count '\'')) {before inner : List Char}
    (literal : IsLiteral start before inner) (inside : before.length < piece.body.length) :
    avoids [kind.endKeyword] inner = true := by
  have identifier := endKeyword_isIdentifier kind
  obtain ⟨behind, word, -⟩ := cut?_iff.mp found
  obtain ⟨after, rfl, evenBefore, unquoted, closes⟩ := literal
  rw [← splitWord_eq_none_iff identifier]
  obtain ⟨-, front, body, later⟩ := splitWord_behind identifier word inside
  rcases splitWord_literal identifier closes later with ⟨absent, -⟩ | ⟨rest, held⟩
  · exact absent
  · obtain ⟨spelled, rfl, -⟩ := splitWord_eq held
    have clean : '\'' ∉ front := fun member =>
      unquoted (List.mem_append_left rest (List.mem_append_left spelled member))
    rw [body, List.count_append, List.count_cons_self, List.count_eq_zero.mpr clean, Nat.zero_add,
      Nat.even_add_one] at even
    exact absurd evenBefore even

/-- Where a block ends in a literal, that literal opens in the block and holds the word. -/
theorem exists_literal_of_odd_quotes (odd : ¬ Even (piece.body.count '\'')) :
    ∃ before inner, IsLiteral start before inner ∧ before.length < piece.body.length ∧
      avoids [kind.endKeyword] inner ≠ true := by
  have identifier := endKeyword_isIdentifier kind
  obtain ⟨behind, word, -⟩ := cut?_iff.mp found
  obtain ⟨before, t, body, unquoted, evenBefore⟩ := exists_last_quote odd
  obtain ⟨spelled, shape, same⟩ := splitWord_eq word
  -- The literal that the last quote in front of the word opens.
  obtain ⟨further, after, rfl, unquoted', closes⟩ := exists_next_quote behind
  have opened : start = before ++ '\'' :: ((t ++ spelled ++ further) ++ after) := by
    rw [shape, body]
    simp only [List.append_assoc, List.cons_append]
  have inside : before.length < piece.body.length := by
    rw [body, List.length_append, List.length_cons]
    omega
  have clean : '\'' ∉ t ++ spelled ++ further := by
    rw [List.mem_append, List.mem_append, not_or, not_or]
    exact ⟨⟨unquoted, unquoted_endKeyword same⟩, unquoted'⟩
  refine ⟨before, _, ⟨after, opened, evenBefore, clean, closes⟩, inside, fun absent => ?_⟩
  rw [← splitWord_eq_none_iff identifier] at absent
  rw [opened] at word
  obtain ⟨-, front, body', later⟩ := splitWord_behind identifier word inside
  rw [body] at body'
  obtain rfl : t = front := (List.cons.inj (List.append_cancel_left body')).2
  rcases splitWord_literal identifier closes later with ⟨-, longer⟩ | ⟨rest, held⟩
  · rw [List.length_append, List.length_append] at longer
    omega
  · rw [absent] at held
    cases held

/-- The word at which a block ends stands outside of all literals exactly if no literal that opens in the block holds
it. -/
theorem even_quotes_iff : Even (piece.body.count '\'') ↔ ∀ before inner, IsLiteral start before inner →
    before.length < piece.body.length → avoids [kind.endKeyword] inner = true := by
  constructor
  · intro even before inner literal inside
    exact avoids_of_even_quotes found even literal inside
  · intro free
    by_contra odd
    obtain ⟨before, inner, literal, inside, held⟩ := exists_literal_of_odd_quotes found odd
    exact held (free before inner literal inside)

end

end Express.Reader
