import Express.Reader

/-!
# Remarks as blanks

A text is scanned stride by stride: one character or the two of a mark are read, at most one is kept, and the scan goes
on in some mode (`strip_stride`). A scan over two texts in a row is a scan over each, unless a mark is cut in two
(`strip_append`). So a literal between them stays as it is (`strip_literal`), while a remark leaves one blank or nothing
there, whatever it holds, and the text reads the same with it (`read_remarks`).
-/

namespace Express

namespace Reader

/-! ### Strides -/

/-- The marks of two characters that open and close remarks. -/
def isMark (first second : Char) : Bool :=
  (first, second) ∈ [('(', '*'), ('*', ')'), ('-', '-')]

/-- What a scan does at the front of a text. -/
structure Stride where
  /-- Whether the second character is read together with the first. -/
  isPair : Bool
  kept : Option Char
  next : Mode

/-- The stride at a character with the given one behind it. -/
def stride : Mode → Char → Option Char → Stride
  | .tail, c, _ => if c = '\n' then ⟨false, some c, .plain⟩ else ⟨false, none, .tail⟩
  | .remark outer, '(', some '*' => ⟨true, none, .remark (outer + 1)⟩
  | .remark 0, '*', some ')' => ⟨true, none, .plain⟩
  | .remark (outer + 1), '*', some ')' => ⟨true, none, .remark outer⟩
  | .remark outer, c, _ => ⟨false, if c = '\n' then some c else none, .remark outer⟩
  | .quoted, c, _ => ⟨false, some c, if c = '\'' then .plain else .quoted⟩
  | .plain, '(', some '*' => ⟨true, some ' ', .remark 0⟩
  | .plain, '-', some '-' => ⟨true, none, .tail⟩
  | .plain, c, _ => ⟨false, some c, if c = '\'' then .quoted else .plain⟩

/-- The text that the scan goes on with. -/
def Stride.rest (step : Stride) (cs : List Char) : List Char :=
  if step.isPair then cs.tail else cs

theorem Stride.length_rest_le (step : Stride) (cs : List Char) : (step.rest cs).length ≤ cs.length := by
  unfold rest
  split
  · rw [List.length_tail]
    omega
  · exact Nat.le_refl _

theorem strip_nil (mode : Mode) : strip mode [] = [] := by
  rw [strip]

theorem strip_stride (mode : Mode) (c : Char) (cs : List Char) :
    strip mode (c :: cs) =
      (stride mode c cs.head?).kept.toList ++
        strip (stride mode c cs.head?).next ((stride mode c cs.head?).rest cs) := by
  generalize behind : cs.head? = second
  have starts {d : Char} (found : cs.head? = some d) : ∃ tail, cs = d :: tail := List.head?_eq_some_iff.mp found
  have unmarked {first d : Char} (other : ∀ same : c = first, second = some d → False) :
      ∀ tail, c = first → cs = d :: tail → False := by
    rintro tail same rfl
    exact other same behind.symm
  fun_cases stride mode c second with
  | case1 => rw [strip, if_pos rfl]; rfl
  | case2 c second other => rw [strip, if_neg other]; rfl
  | case3 outer => obtain ⟨tail, rfl⟩ := starts behind; rw [strip]; rfl
  | case4 => obtain ⟨tail, rfl⟩ := starts behind; rw [strip]; rfl
  | case5 outer => obtain ⟨tail, rfl⟩ := starts behind; rw [strip]; rfl
  | case6 outer c second opens closes leaves =>
    rw [strip]
    · by_cases line : c = '\n'
      · rw [if_pos line, if_pos line, line]
        rfl
      · rw [if_neg line, if_neg line]
        rfl
    · exact unmarked opens
    · exact fun tail outermost => unmarked (fun same found => closes same found outermost) tail
    · exact fun further tail deeper => unmarked (fun same found => leaves further same found deeper) tail
  | case7 c => rw [strip]; rfl
  | case8 => obtain ⟨tail, rfl⟩ := starts behind; rw [strip]; rfl
  | case9 => obtain ⟨tail, rfl⟩ := starts behind; rw [strip]; rfl
  | case10 c second opens tails =>
    rw [strip]
    · rfl
    · exact unmarked opens
    · exact unmarked tails

/-- Two characters are read together only if they are a mark, and nothing is kept then, or a blank for the remark that
is opened. A character that is read alone is kept, or it is dropped and no line end. -/
theorem stride_cases (mode : Mode) (c : Char) (second : Option Char) :
    (∃ d kept next, second = some d ∧ isMark c d = true ∧ stride mode c second = ⟨true, kept, next⟩ ∧
      (kept = none ∨ (kept = some ' ' ∧ c = '(' ∧ d = '*'))) ∨
    ∃ kept next, stride mode c second = ⟨false, kept, next⟩ ∧ (kept = some c ∨ (kept = none ∧ c ≠ '\n')) := by
  fun_cases stride mode c second with
  | case1 => exact .inr ⟨_, _, rfl, .inl rfl⟩
  | case2 c second other => exact .inr ⟨_, _, rfl, .inr ⟨rfl, other⟩⟩
  | case3 outer => exact .inl ⟨_, _, _, rfl, rfl, rfl, .inl rfl⟩
  | case4 => exact .inl ⟨_, _, _, rfl, rfl, rfl, .inl rfl⟩
  | case5 outer => exact .inl ⟨_, _, _, rfl, rfl, rfl, .inl rfl⟩
  | case6 outer c second opens closes leaves =>
    by_cases line : c = '\n'
    · exact .inr ⟨_, _, rfl, .inl (if_pos line)⟩
    · exact .inr ⟨_, _, rfl, .inr ⟨if_neg line, line⟩⟩
  | case7 c => exact .inr ⟨_, _, rfl, .inl rfl⟩
  | case8 => exact .inl ⟨_, _, _, rfl, rfl, rfl, .inr ⟨rfl, rfl, rfl⟩⟩
  | case9 => exact .inl ⟨_, _, _, rfl, rfl, rfl, .inl rfl⟩
  | case10 c second opens tails => exact .inr ⟨_, _, rfl, .inl rfl⟩

/-- A character that is read alone is read as if nothing were behind it. -/
theorem stride_single {mode : Mode} {c : Char} {second : Option Char} (single : (stride mode c second).isPair = false) :
    stride mode c second = stride mode c none := by
  revert single
  fun_cases stride mode c second with
  | case1 => intro _; rfl
  | case2 c second other => intro _; exact (if_neg other).symm
  | case3 outer => intro single; cases single
  | case4 => intro single; cases single
  | case5 outer => intro single; cases single
  | case6 outer c second opens closes leaves =>
    intro _
    rw [stride]
    · intro _ found; cases found
    · intro _ found; cases found
    · intro _ _ found; cases found
  | case7 c => intro _; rfl
  | case8 => intro single; cases single
  | case9 => intro single; cases single
  | case10 c second opens tails =>
    intro _
    rw [stride]
    · intro _ found; cases found
    · intro _ found; cases found

theorem exists_mark_of_isPair {mode : Mode} {c : Char} {second : Option Char} (pair : (stride mode c second).isPair = true) :
    ∃ d, second = some d ∧ isMark c d = true := by
  rcases stride_cases mode c second with ⟨d, _, _, found, mark, _⟩ | ⟨_, _, same, _⟩
  · exact ⟨d, found, mark⟩
  · rw [same] at pair
    cases pair

/-! ### Scans in a row -/

/-- The mode that a scan is in behind a text. -/
def modeAfter (mode : Mode) : List Char → Mode
  | [] => mode
  | c :: cs => modeAfter (stride mode c cs.head?).next ((stride mode c cs.head?).rest cs)
termination_by cs => cs.length
decreasing_by exact Nat.lt_succ_of_le (Stride.length_rest_le _ _)

example : modeAfter .plain "a (* b (* 'c *) -- *) 'd' -- e\n".toList = .plain := by decide +kernel

/-- No mark has its first character at the end of `front` and its second one at the start of `back`. -/
def Parted (front back : List Char) : Prop :=
  ∀ c d, front.getLast? = some c → back.head? = some d → isMark c d = false

theorem parted_of_head {front back : List Char} (c : Char) (outside : c ∉ ['*', ')', '-']) : Parted front (c :: back) := by
  intro last d _ behind
  cases behind
  simp only [List.mem_cons, List.not_mem_nil, or_false, not_or] at outside
  simp [isMark, outside]

theorem Parted.of_cons {c : Char} {front back : List Char} (parted : Parted (c :: front) back) : Parted front back := by
  intro last d found behind
  refine parted last d ?_ behind
  rw [List.getLast?_cons, found]
  rfl

/-- What is read at the front of a text does not change with the text behind it, unless the two of a mark are joined. -/
theorem stride_front {mode : Mode} {c : Char} {cs back : List Char}
    (single : cs = [] → (stride mode c back.head?).isPair = false) :
    stride mode c (cs ++ back).head? = stride mode c cs.head? ∧
      (stride mode c cs.head?).rest (cs ++ back) = (stride mode c cs.head?).rest cs ++ back := by
  cases cs with
  | nil =>
    have alone := stride_single (single rfl)
    have single := single rfl
    rw [alone] at single
    rw [List.nil_append, List.head?_nil]
    unfold Stride.rest
    rw [single]
    exact ⟨alone, rfl⟩
  | cons d tail =>
    unfold Stride.rest
    refine ⟨rfl, ?_⟩
    split <;> rfl

theorem stride_append {mode : Mode} {c : Char} {cs back : List Char} (parted : Parted (c :: cs) back) :
    stride mode c (cs ++ back).head? = stride mode c cs.head? ∧
      (stride mode c cs.head?).rest (cs ++ back) = (stride mode c cs.head?).rest cs ++ back ∧
      Parted ((stride mode c cs.head?).rest cs) back := by
  have single : cs = [] → (stride mode c back.head?).isPair = false := by
    rintro rfl
    cases pair : (stride mode c back.head?).isPair with
    | false => rfl
    | true =>
      obtain ⟨d, found, mark⟩ := exists_mark_of_isPair pair
      rw [parted c d rfl found] at mark
      cases mark
  obtain ⟨same, behind⟩ := stride_front single
  refine ⟨same, behind, ?_⟩
  unfold Stride.rest
  split
  · cases cs with
    | nil => exact parted.of_cons
    | cons d tail => exact parted.of_cons.of_cons
  · exact parted.of_cons

theorem strip_append {mode : Mode} {front back : List Char} (parted : Parted front back) :
    strip mode (front ++ back) = strip mode front ++ strip (modeAfter mode front) back := by
  fun_induction modeAfter mode front with
  | case1 mode => rw [strip_nil, List.nil_append, List.nil_append]
  | case2 mode c cs ih =>
    obtain ⟨same, behind, parted⟩ := stride_append parted
    rw [List.cons_append, strip_stride, strip_stride mode c cs, same, behind, ih parted, List.append_assoc]

/-! ### String literals -/

theorem strip_quoted {inner : List Char} (unquoted : '\'' ∉ inner) (back : List Char) :
    strip .quoted (inner ++ '\'' :: back) = inner ++ '\'' :: strip .plain back := by
  induction inner with
  | nil => rw [List.nil_append, strip, if_pos rfl, List.nil_append]
  | cons c inner ih =>
    have other : c ≠ '\'' := fun same => unquoted (same ▸ List.mem_cons_self)
    rw [List.cons_append, strip, if_neg other, ih fun member => unquoted (List.mem_cons_of_mem c member), List.cons_append]

theorem strip_quote (cs : List Char) : strip .plain ('\'' :: cs) = '\'' :: strip .quoted cs := by
  rw [strip_stride]
  rfl

/-- Nothing is taken out of a string literal. -/
theorem strip_literal {front inner : List Char} (plain : modeAfter .plain front = .plain) (unquoted : '\'' ∉ inner)
    (back : List Char) : strip .plain (front ++ '\'' :: (inner ++ '\'' :: back)) =
      strip .plain front ++ '\'' :: (inner ++ '\'' :: strip .plain back) := by
  rw [strip_append (parted_of_head '\'' (by decide)), plain, strip_quote, strip_quoted unquoted]

/-! ### Remarks -/

/-- Whether the remarks around a text are all closed exactly at its end, where `depth` of them are open at its start. -/
def closesAtEnd : Nat → List Char → Bool
  | 0, cs => cs.isEmpty
  | _ + 1, [] => false
  | depth + 1, '(' :: '*' :: cs => closesAtEnd (depth + 2) cs
  | depth + 1, '*' :: ')' :: cs => closesAtEnd depth cs
  | depth + 1, _ :: cs => closesAtEnd (depth + 1) cs

/-- Up to the end of its outermost remark, a text on one line leaves nothing. -/
theorem strip_closed {depth : Nat} {inner : List Char} (closed : closesAtEnd (depth + 1) inner = true)
    (oneLine : '\n' ∉ inner) (back : List Char) : strip (.remark depth) (inner ++ back) = strip .plain back := by
  generalize opened : depth + 1 = count at closed
  fun_induction closesAtEnd count inner generalizing depth with
  | case1 cs => cases opened
  | case2 count => cases closed
  | case3 count cs ih =>
    rw [List.mem_cons, List.mem_cons, not_or, not_or] at oneLine
    rw [List.cons_append, List.cons_append, strip]
    exact ih oneLine.2.2 (by omega) closed
  | case4 count cs ih =>
    rw [List.mem_cons, List.mem_cons, not_or, not_or] at oneLine
    cases opened
    cases count with
    | zero =>
      rw [closesAtEnd, List.isEmpty_iff] at closed
      rw [closed, List.cons_append, List.cons_append, strip, List.nil_append]
    | succ depth =>
      rw [List.cons_append, List.cons_append, strip]
      exact ih oneLine.2.2 rfl closed
  | case5 count c cs opens closes ih =>
    rw [List.mem_cons, not_or] at oneLine
    cases cs with
    | nil => cases closed
    | cons d tail =>
      have unmarked {first second : Char} (other : ∀ rest, c = first → d :: tail = second :: rest → False) :
          ∀ rest, c = first → d :: tail ++ back = second :: rest → False := by
        intro rest same behind
        exact other tail same (by rw [(List.cons.inj behind).1])
      rw [List.cons_append, strip, if_neg (Ne.symm oneLine.1)]
      · exact ih oneLine.2 opened closed
      · exact unmarked opens
      · exact fun rest _ => unmarked closes rest
      · exact fun _ rest _ => unmarked closes rest

theorem strip_tail {inner : List Char} (oneLine : '\n' ∉ inner) (back : List Char) :
    strip .tail (inner ++ '\n' :: back) = '\n' :: strip .plain back := by
  induction inner with
  | nil => rw [List.nil_append, strip, if_pos rfl]
  | cons c inner ih =>
    rw [List.mem_cons, not_or] at oneLine
    rw [List.cons_append, strip, if_neg (Ne.symm oneLine.1), ih oneLine.2]

section

variable {front : List Char} (plain : modeAfter .plain front = .plain)
include plain

theorem strip_blank {c : Char} (blank : Text.isBlank c = true) (back : List Char) :
    strip .plain (front ++ c :: back) = strip .plain front ++ c :: strip .plain back := by
  have other (mark : Char) (filled : Text.isBlank mark = false) : c ≠ mark := Text.ne_of_isBlank blank filled
  have outside : c ∉ ['*', ')', '-'] := by
    simp [other '*' rfl, other ')' rfl, other '-' rfl]
  rw [strip_append (parted_of_head c outside), plain, strip, if_neg (other '\'' rfl)]
  · exact fun rest same => absurd same (other '(' rfl)
  · exact fun rest same => absurd same (other '-' rfl)

/-- A remark leaves one blank. -/
theorem strip_remark {inner : List Char} (closed : closesAtEnd 1 (inner ++ ['*', ')']) = true) (oneLine : '\n' ∉ inner)
    (back : List Char) :
    strip .plain (front ++ '(' :: '*' :: (inner ++ '*' :: ')' :: back)) = strip .plain (front ++ ' ' :: back) := by
  have oneLine : '\n' ∉ inner ++ ['*', ')'] := by simp [oneLine]
  have closing : inner ++ '*' :: ')' :: back = inner ++ ['*', ')'] ++ back := by simp
  rw [strip_append (parted_of_head '(' (by decide)), plain, strip, closing, strip_closed closed oneLine,
    strip_blank plain rfl]

/-- A tail remark leaves nothing but the end of its line. -/
theorem strip_tailRemark (undashed : front.getLast? ≠ some '-') {inner : List Char} (oneLine : '\n' ∉ inner)
    (back : List Char) :
    strip .plain (front ++ '-' :: '-' :: (inner ++ '\n' :: back)) = strip .plain (front ++ '\n' :: back) := by
  have parted : Parted front ('-' :: '-' :: (inner ++ '\n' :: back)) := by
    intro last d found behind
    cases behind
    have other : last ≠ '-' := fun same => undashed (same ▸ found)
    simp [isMark, other]
  rw [strip_append parted, plain, strip, strip_tail oneLine, strip_blank plain rfl]

end

end Reader

/-- A remark on one line reads as a blank, and a tail remark as the end of its line, wherever a text is outside literals
and remarks. -/
theorem Schema.read_remarks (front inner back : String) (plain : Reader.modeAfter .plain front.toList = .plain)
    (oneLine : '\n' ∉ inner.toList) :
    (Reader.closesAtEnd 1 (inner.toList ++ ['*', ')']) = true →
      Schema.read (front ++ "(*" ++ inner ++ "*)" ++ back) = Schema.read (front ++ " " ++ back)) ∧
    (front.toList.getLast? ≠ some '-' →
      Schema.read (front ++ "--" ++ inner ++ "\n" ++ back) = Schema.read (front ++ "\n" ++ back)) := by
  constructor
  · intro closed
    have stripped := Reader.strip_remark plain closed oneLine back.toList
    rw [Schema.read, Schema.read]
    simp only [String.toList_append, List.append_assoc]
    exact congrArg Reader.readPlain stripped
  · intro undashed
    have stripped := Reader.strip_tailRemark plain undashed oneLine back.toList
    rw [Schema.read, Schema.read]
    simp only [String.toList_append, List.append_assoc]
    exact congrArg Reader.readPlain stripped

/-- The remarks hold quotes, words that end blocks and further remarks. -/
theorem Schema.read_remarked_pier :
    Schema.read "SCHEMA pier; TYPE(* it's (* END_SCHEMA; *) -- *)berth = INTEGER; END_TYPE; END_SCHEMA;" =
      Schema.read "SCHEMA pier; TYPE berth = INTEGER; END_TYPE; END_SCHEMA;" ∧
    Schema.read "SCHEMA pier; TYPE berth-- don't (* END_TYPE;\n = INTEGER; END_TYPE; END_SCHEMA;" =
      Schema.read "SCHEMA pier; TYPE berth\n = INTEGER; END_TYPE; END_SCHEMA;" ∧
    (Schema.read "SCHEMA pier; TYPE berth = INTEGER; END_TYPE; END_SCHEMA;").toOption =
      some { name := "pier", declarations := [.type { name := "berth", body := .simple .integer }] } := by
  have remark := (Schema.read_remarks "SCHEMA pier; TYPE" " it's (* END_SCHEMA; *) -- "
    "berth = INTEGER; END_TYPE; END_SCHEMA;" (by decide +kernel) (by decide +kernel)).1 (by decide +kernel)
  have tail := (Schema.read_remarks "SCHEMA pier; TYPE berth" " don't (* END_TYPE;"
    " = INTEGER; END_TYPE; END_SCHEMA;" (by decide +kernel) (by decide +kernel)).2 (by decide +kernel)
  exact ⟨remark, tail, by decide +kernel⟩

end Express
