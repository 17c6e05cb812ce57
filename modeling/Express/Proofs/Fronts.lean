import Express.Reader.Block

/-!
# The front of a text

Cutting a text into blocks goes step by step: what stands at its front decides whether the sequence ends there, and
with what text it goes on otherwise (`split_eq`). Statements about all blocks follow by `split_induction`.
-/

namespace Express.Reader

/-- What a text starts with: the end of the sequence of blocks, a clause that is passed over, or a block. For the last
two, also the line and the text behind it. -/
inductive Front where
  | ends (ending : Ending)
  | clause (line : Nat) (rest : List Char)
  | block (block : Block) (line : Nat) (rest : List Char)

/-- The front of a text whose first character is not blank, on the given line. -/
def frontAt (line : Nat) : List Char → Front
  | [] => .ends .endOfText
  | c :: tail =>
    let word := String.ofList (Text.upper (leadingWord (c :: tail)))
    if word = "END_SCHEMA" then .ends .endOfSchema
    else if word = "USE" ∨ word = "REFERENCE" then
      match splitStatement false (c :: tail) with
      | none => .ends (.unterminatedClause line word)
      | some (front, rest) => .clause (line + Text.lineEnds front) rest
    else
      match BlockKind.ofKeyword? word with
      | none => .ends (if word = "" then .unexpectedCharacter line c else .unrecognized line word)
      | some kind =>
        match cut? kind (c :: tail) with
        | none => .ends (.unterminatedBlock line kind)
        | some piece =>
          .block { kind, line, text := Text.trim piece.body }
            (line + Text.lineEnds piece.body + Text.lineEnds piece.gap) piece.rest

def front (line : Nat) (cs : List Char) : Front :=
  frontAt (line + Text.lineEnds (cs.takeWhile Text.isBlank)) (cs.dropWhile Text.isBlank)

theorem split_eq (line : Nat) (cs : List Char) :
    split line cs = match front line cs with
      | .ends ending => ([], ending)
      | .clause line rest => split line rest
      | .block block line rest => (block :: (split line rest).1, (split line rest).2) := by
  rw [split, front]
  dsimp only
  -- The match is on the text behind the blanks together with a proof about it.
  split
  · rename_i same _
    rw [same]
    rfl
  · rename_i c tail _ same _
    rw [same, frontAt]
    split
    · rfl
    · split
      · split
        · rename_i found
          rw [found]
        · rename_i found
          rw [found]
      · cases BlockKind.ofKeyword? (String.ofList (Text.upper (leadingWord (c :: tail)))) with
        | none => rfl
        | some kind =>
          dsimp only
          split
          · rename_i uncut
            rw [uncut]
          · rename_i cut
            rw [cut]

/-- The text behind a clause or block. -/
def Front.rest? : Front → Option (List Char)
  | .ends _ => none
  | .clause _ rest => some rest
  | .block _ _ rest => some rest

theorem frontAt_length {line : Nat} {cs rest : List Char} (goesOn : (frontAt line cs).rest? = some rest) :
    rest.length < cs.length := by
  cases cs with
  | nil => cases goesOn
  | cons c tail =>
    rw [frontAt] at goesOn
    split at goesOn
    · cases goesOn
    · split at goesOn
      · cases found : splitStatement false (c :: tail) with
        | none => rw [found] at goesOn; cases goesOn
        | some pieces =>
          rw [found] at goesOn
          cases goesOn
          exact splitStatement_length found
      · cases known : BlockKind.ofKeyword? (String.ofList (Text.upper (leadingWord (c :: tail)))) with
        | none => rw [known] at goesOn; cases goesOn
        | some kind =>
          rw [known] at goesOn
          cases found : cut? kind (c :: tail) with
          | none => simp only [found] at goesOn; cases goesOn
          | some piece =>
            simp only [found] at goesOn
            cases goesOn
            exact cut?_length found

theorem front_length {line : Nat} {cs rest : List Char} (goesOn : (front line cs).rest? = some rest) :
    rest.length < cs.length :=
  Nat.lt_of_lt_of_le (frontAt_length goesOn) (List.dropWhile_sublist _).length_le

/-- What holds where the sequence of blocks ends, and holds of a text if it holds of the text behind its first clause or
block, holds of every text. -/
theorem split_induction {motive : Nat → List Char → Prop}
    (ends : ∀ line cs ending, front line cs = .ends ending → motive line cs)
    (clause : ∀ line cs next rest, front line cs = .clause next rest → motive next rest → motive line cs)
    (block : ∀ line cs first next rest, front line cs = .block first next rest → motive next rest → motive line cs)
    (line : Nat) (cs : List Char) : motive line cs := by
  cases seen : front line cs with
  | ends ending => exact ends line cs ending seen
  | clause next rest =>
    have shorter := @front_length line cs rest (by rw [seen]; rfl)
    exact clause line cs next rest seen (split_induction ends clause block next rest)
  | block first next rest =>
    have shorter := @front_length line cs rest (by rw [seen]; rfl)
    exact block line cs first next rest seen (split_induction ends clause block next rest)
termination_by cs.length

end Express.Reader
