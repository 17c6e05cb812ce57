import Express.Name
import Express.Text.Blank
import Express.Reader.Parser

/-!
# Blocks

The body of a schema as a sequence of declaration blocks. A block runs from its keyword to the first whole word
`END_…` with that keyword, and is followed by a semicolon. `split` never fails: it gives the blocks in front of the
place where the sequence ends, and how it ends there.
-/

namespace Express.Reader

/-! ### Statements and words -/

/-- The text in front of the next semicolon outside string literals, and the text behind it. -/
def splitStatement (quoted : Bool) : List Char → Option (List Char × List Char)
  | [] => none
  | c :: cs =>
    if c = ';' ∧ !quoted then some ([], cs)
    else (splitStatement (if c = '\'' then !quoted else quoted) cs).map fun (front, rest) => (c :: front, rest)

theorem splitStatement_length {quoted : Bool} {cs front rest : List Char}
    (h : splitStatement quoted cs = some (front, rest)) : rest.length < cs.length := by
  induction cs generalizing quoted front with
  | nil => simp [splitStatement] at h
  | cons c cs ih =>
    rw [splitStatement] at h
    split at h
    · obtain ⟨rfl, rfl⟩ := Prod.mk.inj (Option.some.inj h)
      simp
    · obtain ⟨⟨inner, after⟩, found, same⟩ := Option.map_eq_some_iff.mp h
      obtain ⟨rfl, rfl⟩ := Prod.mk.inj same
      have := ih found
      simp only [List.length_cons]
      omega

/-- The text in front of the first whole occurrence of an upper-case word in any case, and the text behind it. -/
def splitWord (word : List Char) (inName : Bool) : List Char → Option (List Char × List Char)
  | [] => none
  | c :: cs =>
    match if inName then none else Parser.dropWord? word (c :: cs) with
    | some rest =>
      if Parser.atWordEnd rest then some ([], rest)
      else (splitWord word (Name.isPart c) cs).map fun (front, rest) => (c :: front, rest)
    | none => (splitWord word (Name.isPart c) cs).map fun (front, rest) => (c :: front, rest)

theorem dropWord?_length {word cs rest : List Char} (h : Parser.dropWord? word cs = some rest) :
    rest.length ≤ cs.length := by
  induction word generalizing cs with
  | nil => rw [Parser.dropWord?] at h; cases h; exact Nat.le_refl _
  | cons w word ih =>
    cases cs with
    | nil => simp [Parser.dropWord?] at h
    | cons c cs =>
      rw [Parser.dropWord?] at h
      split at h
      · have := ih h
        simp only [List.length_cons]
        omega
      · cases h

theorem splitWord_length {word cs front rest : List Char} {inName : Bool}
    (h : splitWord word inName cs = some (front, rest)) : rest.length ≤ cs.length := by
  induction cs generalizing inName front with
  | nil => simp [splitWord] at h
  | cons c cs ih =>
    have later {found : Option (List Char × List Char)}
        (h : found.map (fun (front, rest) => (c :: front, rest)) = some (front, rest))
        (same : found = splitWord word (Name.isPart c) cs) : rest.length ≤ (c :: cs).length := by
      obtain ⟨⟨inner, after⟩, found, pair⟩ := Option.map_eq_some_iff.mp h
      obtain ⟨rfl, rfl⟩ := Prod.mk.inj pair
      have := ih (same ▸ found)
      simp only [List.length_cons]
      omega
    rw [splitWord] at h
    split at h
    · rename_i after dropped
      split at h
      · obtain ⟨rfl, rfl⟩ := Prod.mk.inj (Option.some.inj h)
        cases inName with
        | true => cases dropped
        | false => exact dropWord?_length dropped
      · exact later h rfl
    · exact later h rfl

/-! ### Blocks -/

inductive BlockKind where
  | type
  | entity
  | function
  | rule
  | procedure
  | constant
  | subtypeConstraint
  deriving DecidableEq, Repr

namespace BlockKind

def all : List BlockKind :=
  [.type, .entity, .function, .rule, .procedure, .constant, .subtypeConstraint]

def keyword : BlockKind → String
  | .type => "TYPE"
  | .entity => "ENTITY"
  | .function => "FUNCTION"
  | .rule => "RULE"
  | .procedure => "PROCEDURE"
  | .constant => "CONSTANT"
  | .subtypeConstraint => "SUBTYPE_CONSTRAINT"

def endKeyword (kind : BlockKind) : String :=
  "END_" ++ kind.keyword

def ofKeyword? (word : String) : Option BlockKind :=
  all.find? (·.keyword == word)

end BlockKind

/-- A declaration's text from its keyword up to its `END_…`, trimmed, and the line it starts on. -/
structure Block where
  kind : BlockKind
  line : Nat
  text : List Char
  deriving DecidableEq, Repr

/-- What the sequence of blocks ends with. -/
inductive Ending where
  | endOfSchema
  | endOfText
  | unterminatedClause (line : Nat) (word : String)
  | unterminatedBlock (line : Nat) (kind : BlockKind)
  | unexpectedCharacter (line : Nat) (found : Char)
  | unrecognized (line : Nat) (word : String)
  deriving DecidableEq, Repr

/-- The identifier at the front of a text. -/
def leadingWord (cs : List Char) : List Char :=
  cs.takeWhile Name.isPart

/-- A block's text and the text behind its semicolon. -/
structure Cut where
  body : List Char
  gap : List Char
  rest : List Char

/-- Cuts a block off the front of a text. -/
def cut? (kind : BlockKind) (cs : List Char) : Option Cut :=
  match splitWord kind.endKeyword.toList false cs with
  | none => none
  | some (body, behind) =>
    match splitStatement false behind with
    | none => none
    | some (gap, rest) => some { body, gap, rest }

theorem cut?_length {kind : BlockKind} {cs : List Char} {piece : Cut} (h : cut? kind cs = some piece) :
    piece.rest.length < cs.length := by
  unfold cut? at h
  split at h
  · cases h
  · rename_i body behind word
    split at h
    · cases h
    · rename_i gap rest statement
      cases h
      exact Nat.lt_of_lt_of_le (splitStatement_length statement) (splitWord_length word)

/-- The blocks of a text that starts on the given line. -/
def split (line : Nat) (cs : List Char) : List Block × Ending :=
  let start := cs.dropWhile Text.isBlank
  have : start.length ≤ cs.length := (List.dropWhile_sublist _).length_le
  let line := line + Text.lineEnds (cs.takeWhile Text.isBlank)
  match start with
  | [] => ([], .endOfText)
  | c :: tail =>
    let word := String.ofList (Text.upper (leadingWord (c :: tail)))
    if word = "END_SCHEMA" then ([], .endOfSchema)
    else if word = "USE" ∨ word = "REFERENCE" then
      match found : splitStatement false (c :: tail) with
      | none => ([], .unterminatedClause line word)
      | some (front, rest) =>
        have := splitStatement_length found
        split (line + Text.lineEnds front) rest
    else
      match BlockKind.ofKeyword? word with
      | none => ([], if word = "" then .unexpectedCharacter line c else .unrecognized line word)
      | some kind =>
        match found : cut? kind (c :: tail) with
        | none => ([], .unterminatedBlock line kind)
        | some piece =>
          have := cut?_length found
          let (blocks, ending) := split (line + Text.lineEnds piece.body + Text.lineEnds piece.gap) piece.rest
          ({ kind, line, text := Text.trim piece.body } :: blocks, ending)
termination_by cs.length

end Express.Reader
