/-!
# White space

Two classes of blank characters. `isBlank` is the Unicode property `White_Space`; it separates words and is
trimmed from texts. `isLayout` is the part of it that may stand between the tokens of a declaration.
-/

namespace Express.Text

/-- The characters with the Unicode property `White_Space`. -/
def isBlank (c : Char) : Bool :=
  let n := c.toNat
  (0x09 ≤ n && n ≤ 0x0D) || n == 0x20 || n == 0x85 || n == 0xA0 || n == 0x1680 ||
    (0x2000 ≤ n && n ≤ 0x200A) || n == 0x2028 || n == 0x2029 || n == 0x202F || n == 0x205F || n == 0x3000

/-- Space, tab, carriage return and line feed. -/
def isLayout (c : Char) : Bool :=
  c == ' ' || c == '\t' || c == '\r' || c == '\n'

theorem isBlank_of_isLayout {c : Char} (h : isLayout c = true) : isBlank c = true := by
  simp only [isLayout, Bool.or_eq_true, beq_iff_eq] at h
  rcases h with ((rfl | rfl) | rfl) | rfl <;> decide

theorem ne_of_isBlank {c d : Char} (blank : isBlank c = true) (filled : isBlank d = false) : c ≠ d := by
  rintro rfl
  rw [blank] at filled
  cases filled

def trimRight (cs : List Char) : List Char :=
  (cs.reverse.dropWhile isBlank).reverse

def trim (cs : List Char) : List Char :=
  trimRight (cs.dropWhile isBlank)

/-- The word that `cs` starts in the middle of, and the words after it. -/
def splitWords : List Char → List Char × List (List Char)
  | [] => ([], [])
  | c :: cs =>
    let (word, others) := splitWords cs
    if isBlank c then ([], if word.isEmpty then others else word :: others) else (c :: word, others)

/-- The maximal stretches without blanks. -/
def words (cs : List Char) : List (List Char) :=
  let (word, others) := splitWords cs
  if word.isEmpty then others else word :: others

/-- The words of `cs` with one space between neighbours. -/
def singleSpaced (cs : List Char) : List Char :=
  [' '].intercalate (words cs)

/-- How many line ends `cs` holds. -/
def lineEnds (cs : List Char) : Nat :=
  cs.count '\n'

def upper (cs : List Char) : List Char :=
  cs.map Char.toUpper

end Express.Text
