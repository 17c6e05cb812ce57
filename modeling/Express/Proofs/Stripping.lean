import Mathlib.Algebra.Ring.Parity
import Express.Proofs.Remarks

/-!
# Texts without remarks

What a scan keeps is settled: a second scan reads each of its characters alone, keeps it, and is in a string literal
exactly where the first one was (`settled_strip`). The blank or line end that a remark leaves is what holds the characters
around it apart. So no remark is left outside of literals, the literals are the same, and nothing more is taken out
(`strip_complete`).
-/

namespace Express.Reader

/-! ### Settled texts -/

/-- The mode in which a second scan is, where the first is in the given one. -/
def Mode.settled : Mode → Mode
  | .quoted => .quoted
  | _ => .plain

theorem Mode.settled_eq_quoted {mode : Mode} : mode.settled = .quoted ↔ mode = .quoted := by
  cases mode <;> simp [settled]

/-- A scan reads each character alone and keeps it. -/
def Settled : Mode → List Char → Prop
  | _, [] => True
  | mode, c :: cs => ∃ next, stride mode c cs.head? = ⟨false, some c, next⟩ ∧ Settled next cs

theorem Settled.strip_eq {mode : Mode} {cs : List Char} (settled : Settled mode cs) : strip mode cs = cs := by
  induction cs generalizing mode with
  | nil => exact strip_nil mode
  | cons c cs ih =>
    obtain ⟨next, step, later⟩ := settled
    rw [strip_stride, step]
    exact congrArg (c :: ·) (ih later)

/-! ### What is kept is settled -/

theorem head?_strip_tail {cs : List Char} {d : Char} (found : (strip .tail cs).head? = some d) : d = '\n' := by
  induction cs with
  | nil => cases found
  | cons c cs ih =>
    rw [strip] at found
    by_cases line : c = '\n'
    · rw [if_pos line] at found
      cases found
      rfl
    · rw [if_neg line] at found
      exact ih found

/-- In plain text, a character is read alone and kept unless it is the first of an opening mark. -/
theorem stride_plain_cases (c : Char) (second : Option Char) :
    (c = '(' ∧ second = some '*' ∧ stride .plain c second = ⟨true, some ' ', .remark 0⟩) ∨
    (c = '-' ∧ second = some '-' ∧ stride .plain c second = ⟨true, none, .tail⟩) ∨
    stride .plain c second = ⟨false, some c, if c = '\'' then .quoted else .plain⟩ := by
  generalize plain : Mode.plain = mode
  fun_cases stride mode c second with
  | case8 => exact .inl ⟨rfl, rfl, rfl⟩
  | case9 => exact .inr (.inl ⟨rfl, rfl, rfl⟩)
  | case10 c second opens tails => exact .inr (.inr rfl)
  | _ => cases plain

/-- Where a scan of plain text keeps a character of a mark first, the text starts with it. -/
theorem head?_strip_plain {cs : List Char} {d : Char} (found : (strip .plain cs).head? = some d) :
    d = ' ' ∨ d = '\n' ∨ cs.head? = some d := by
  cases cs with
  | nil => cases found
  | cons c cs =>
    rw [strip_stride] at found
    rcases stride_plain_cases c cs.head? with ⟨-, -, step⟩ | ⟨-, -, step⟩ | step
    · rw [step] at found
      cases found
      exact .inl rfl
    · rw [step] at found
      exact .inr (.inl (head?_strip_tail found))
    · rw [step] at found
      exact .inr (.inr found)

section

variable {mode : Mode} {c : Char} {cs : List Char}

/-- A dropped character leaves a second scan where it is. -/
theorem settled_next_of_dropped {second : Option Char} (dropped : (stride mode c second).kept = none) :
    (stride mode c second).next.settled = mode.settled := by
  revert dropped
  fun_cases stride mode c second with
  | case7 c => intro dropped; cases dropped
  | case10 c second opens tails => intro dropped; cases dropped
  | _ => intro _; rfl

/-- A kept character is read alone and kept by a second scan, which then is where the first one is. -/
theorem stride_again {d : Char} (kept : (stride mode c cs.head?).kept = some d) :
    stride mode.settled d (strip (stride mode c cs.head?).next ((stride mode c cs.head?).rest cs)).head? =
      ⟨false, some d, (stride mode c cs.head?).next.settled⟩ := by
  revert kept
  generalize behind : cs.head? = second
  fun_cases stride mode c second with
  | case1 => intro kept; cases kept; rfl
  | case6 outer c second opens closes leaves =>
    intro kept
    by_cases line : c = '\n'
    · rw [if_pos line] at kept
      cases kept
      rw [line]
      rfl
    · rw [if_neg line] at kept
      cases kept
  | case7 c =>
    intro kept
    cases kept
    have same : (if c = '\'' then Mode.plain else .quoted).settled = if c = '\'' then .plain else .quoted := by
      split <;> rfl
    rw [same]
    rfl
  | case8 => intro kept; cases kept; rfl
  | case10 c second opens tails =>
    intro kept
    cases kept
    by_cases quote : c = '\''
    · rw [if_pos quote, quote]
      rfl
    · rw [if_neg quote]
      change stride .plain c (strip .plain cs).head? = ⟨false, some c, .plain⟩
      -- The character that is kept next is a blank, a line end or the one that stood behind `c`.
      rcases stride_plain_cases c (strip .plain cs).head? with ⟨first, star, -⟩ | ⟨first, dash, -⟩ | step
      · rcases head?_strip_plain star with blank | line | same
        · cases blank
        · cases line
        · exact (opens first (behind.symm.trans same)).elim
      · rcases head?_strip_plain dash with blank | line | same
        · cases blank
        · cases line
        · exact (tails first (behind.symm.trans same)).elim
      · rwa [if_neg quote] at step
  | _ => intro kept; cases kept

end

theorem settled_strip (mode : Mode) (cs : List Char) : Settled mode.settled (strip mode cs) := by
  -- Stride by stride of the first scan: one that keeps a character is one of the second scan, any other is none.
  fun_induction modeAfter mode cs with
  | case1 mode =>
    rw [strip_nil]
    trivial
  | case2 mode c cs ih =>
    rw [strip_stride]
    cases kept : (stride mode c cs.head?).kept with
    | none =>
      rw [← settled_next_of_dropped kept]
      exact ih
    | some d => exact ⟨_, stride_again kept, ih⟩

/-! ### Remarks that are left -/

/-- The marks that open remarks. -/
def opensRemark (first second : Char) : Bool :=
  first == '(' && second == '*' || first == '-' && second == '-'

theorem quoted_of_opensRemark {mode next : Mode} {c d : Char} (opens : opensRemark c d = true)
    (step : stride mode c (some d) = ⟨false, some c, next⟩) : mode = .quoted := by
  simp only [opensRemark, Bool.or_eq_true, Bool.and_eq_true, beq_iff_eq] at opens
  rcases opens with ⟨rfl, rfl⟩ | ⟨rfl, rfl⟩
  · cases mode with
    | quoted => rfl
    | _ => cases step
  · cases mode with
    | quoted => rfl
    | _ => cases step

/-- Quotes, and nothing else, lead into and out of literals. -/
theorem next_eq_quoted_iff {mode next : Mode} {c : Char} {second : Option Char}
    (step : stride mode c second = ⟨false, some c, next⟩) : next = .quoted ↔ (mode = .quoted ↔ c ≠ '\'') := by
  revert step
  fun_cases stride mode c second with
  | case1 => intro step; cases step; simp
  | case6 outer c second opens closes leaves =>
    intro step
    by_cases line : c = '\n'
    · rw [if_pos line] at step
      cases step
      simp [line]
    · rw [if_neg line] at step
      cases step
  | case7 c =>
    intro step
    cases step
    by_cases quote : c = '\'' <;> simp [quote]
  | case10 c second opens tails =>
    intro step
    cases step
    by_cases quote : c = '\'' <;> simp [quote]
  | _ => intro step; cases step

/-- In a settled text, a mark that opens remarks stands inside a literal. -/
theorem Settled.even_quotes_iff {mode : Mode} {front back : List Char} {c d : Char}
    (settled : Settled mode (front ++ c :: d :: back)) (opens : opensRemark c d = true) :
    Even (front.count '\'') ↔ mode = .quoted := by
  -- From any mode, as the text in front of the mark is passed: at the mark itself, the scan has to be in a literal.
  induction front generalizing mode with
  | nil =>
    obtain ⟨next, step, -⟩ := settled
    exact iff_of_true (by decide) (quoted_of_opensRemark opens step)
  | cons e front ih =>
    obtain ⟨next, step, later⟩ := settled
    have inner := (ih later).trans (next_eq_quoted_iff step)
    by_cases quote : e = '\''
    · rw [quote, List.count_cons_self, Nat.even_add_one, inner]
      simp [quote]
    · rw [List.count_cons_of_ne quote, inner]
      simp [quote]

/-! ### Literals -/

/-- The literals from a character on, where those behind it are given. A literal ends with the quote that is read in it,
and every character that leads into it or goes on in it is put in front of the rest of it. -/
def addLiteral (mode next : Mode) (c : Char) (others : List (List Char)) : List (List Char) :=
  if mode = .quoted ∧ c = '\'' then [c] :: others
  else if next = .quoted then others.modifyHead (c :: ·)
  else others

/-- The string literals outside remarks in order, with their quotes; one that is not closed goes on to the end of the
text. Where the text starts in a literal, the first is the rest of that one. -/
def literals (mode : Mode) : List Char → List (List Char)
  | [] => if mode = .quoted then [[]] else []
  | c :: cs =>
    let step := stride mode c cs.head?
    addLiteral mode step.next c (literals step.next (step.rest cs))
termination_by cs => cs.length
decreasing_by exact Nat.lt_succ_of_le (Stride.length_rest_le _ _)

section

variable {mode : Mode} {c : Char} {second : Option Char}

/-- All characters of a literal are kept. -/
theorem kept_of_quoted (quoted : mode = .quoted ∨ (stride mode c second).next = .quoted) :
    (stride mode c second).kept = some c := by
  revert quoted
  fun_cases stride mode c second with
  | case1 => intro _; rfl
  | case7 c => intro _; rfl
  | case10 c second opens tails => intro _; rfl
  | _ => simp

theorem addLiteral_outside {next : Mode} (outside : ¬(mode = .quoted ∨ next = .quoted)) (others : List (List Char)) :
    addLiteral mode next c others = others := by
  rw [not_or] at outside
  rw [addLiteral, if_neg fun closing => outside.1 closing.1, if_neg outside.2]

theorem addLiteral_dropped (dropped : (stride mode c second).kept = none) (others : List (List Char)) :
    addLiteral mode (stride mode c second).next c others = others := by
  apply addLiteral_outside
  intro quoted
  rw [kept_of_quoted quoted] at dropped
  cases dropped

theorem addLiteral_kept {d : Char} (kept : (stride mode c second).kept = some d) (others : List (List Char)) :
    addLiteral mode.settled (stride mode c second).next.settled d others =
      addLiteral mode (stride mode c second).next c others := by
  by_cases quoted : mode = .quoted ∨ (stride mode c second).next = .quoted
  · rw [kept_of_quoted quoted] at kept
    cases kept
    simp only [addLiteral, Mode.settled_eq_quoted]
  · rw [addLiteral_outside quoted]
    apply addLiteral_outside
    simpa only [Mode.settled_eq_quoted] using quoted

end

theorem literals_strip (mode : Mode) (cs : List Char) : literals mode.settled (strip mode cs) = literals mode cs := by
  fun_induction modeAfter mode cs with
  | case1 mode =>
    rw [strip_nil, literals, literals]
    simp only [Mode.settled_eq_quoted]
  | case2 mode c cs ih =>
    rw [strip_stride]
    conv_rhs => rw [literals]
    cases kept : (stride mode c cs.head?).kept with
    | none =>
      rw [addLiteral_dropped kept, ← settled_next_of_dropped kept]
      exact ih
    | some d =>
      change literals mode.settled (d :: strip (stride mode c cs.head?).next ((stride mode c cs.head?).rest cs)) = _
      rw [literals, stride_again kept, ← addLiteral_kept kept, ← ih]
      rfl

/-- A stripped text holds no mark that opens a remark outside of its literals. The literals outside remarks are left as
they are, each between what is left of the text in front of it and behind it, and there are no others. Nothing is taken
out of a stripped text. -/
theorem strip_complete (text : List Char) :
    (∀ front c d back, strip .plain text = front ++ c :: d :: back → opensRemark c d = true → Odd (front.count '\'')) ∧
    (∀ front inner back, text = front ++ '\'' :: (inner ++ '\'' :: back) → modeAfter .plain front = .plain →
      '\'' ∉ inner → strip .plain text = strip .plain front ++ '\'' :: (inner ++ '\'' :: strip .plain back)) ∧
    literals .plain (strip .plain text) = literals .plain text ∧
    strip .plain (strip .plain text) = strip .plain text := by
  have settled := settled_strip .plain text
  refine ⟨?_, ?_, literals_strip .plain text, settled.strip_eq⟩
  · intro front c d back shape opens
    rw [shape] at settled
    rw [← Nat.not_even_iff_odd, settled.even_quotes_iff opens]
    intro quoted
    cases quoted
  · rintro front inner back rfl plain unquoted
    exact strip_literal plain unquoted back

/-- Marks in literals, quotes in remarks, remarks between dashes, and a literal that is not closed. -/
def jotting : List Char :=
  "a 'b--' (* it's *) -(*\n*)- --'c'\n'(*'('d".toList

theorem jotting_stripped :
    strip .plain jotting = strip .plain "a ".toList ++ '\'' :: ("b--".toList ++ '\'' ::
      strip .plain " (* it's *) -(*\n*)- --'c'\n'(*'('d".toList) ∧
    strip .plain jotting = "a 'b".toList ++ '-' :: '-' :: "'   - \n- \n'(*'('d".toList ∧
    Odd ("a 'b".toList.count '\'') ∧
    literals .plain (strip .plain jotting) = ["'b--'".toList, "'(*'".toList, "'d".toList] ∧
    strip .plain (strip .plain jotting) = strip .plain jotting := by
  obtain ⟨complete, unchanged, same, again⟩ := strip_complete jotting
  have listed : literals .plain jotting = ["'b--'".toList, "'(*'".toList, "'d".toList] := by decide +kernel
  have stripped : strip .plain jotting = "a 'b".toList ++ '-' :: '-' :: "'   - \n- \n'(*'('d".toList := by decide +kernel
  have placed := unchanged "a ".toList "b--".toList " (* it's *) -(*\n*)- --'c'\n'(*'('d".toList (by decide +kernel)
    (by decide +kernel) (by decide +kernel)
  exact ⟨placed, stripped, complete _ _ _ _ stripped rfl, same.trans listed, again⟩

end Express.Reader
