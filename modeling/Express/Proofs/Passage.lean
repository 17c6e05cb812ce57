import Express.Reader
import Express.Proofs.Fronts

/-!
# The way through a text

A text is read from one declaration to the next. `Reaches` says at which places the reader stands on its way: behind the
header, behind a clause that it passes over, behind a block with a declaration that it understands. Where reading fails,
it fails at such a place, and the line that is reported is that of the place (`exists_offender`).
-/

namespace Express.Reader

open Text

/-! ### The pieces of a text -/

theorem lineEnds_append (front back : List Char) : lineEnds (front ++ back) = lineEnds front + lineEnds back :=
  List.count_append

theorem splitStatement_eq {quoted : Bool} {cs front rest : List Char}
    (found : splitStatement quoted cs = some (front, rest)) : cs = front ++ ';' :: rest := by
  induction cs generalizing quoted front with
  | nil => cases found
  | cons c cs ih =>
    rw [splitStatement] at found
    split at found
    · rename_i ends
      obtain ⟨rfl, rfl⟩ := Prod.mk.inj (Option.some.inj found)
      rw [ends.1, List.nil_append]
    · obtain ⟨⟨inner, after⟩, inside, same⟩ := Option.map_eq_some_iff.mp found
      obtain ⟨rfl, rfl⟩ := Prod.mk.inj same
      rw [ih inside, List.cons_append]

theorem dropWord?_eq {word cs rest : List Char} (dropped : Parser.dropWord? word cs = some rest) :
    ∃ spelled, cs = spelled ++ rest ∧ upper spelled = word := by
  induction word generalizing cs with
  | nil =>
    cases dropped
    exact ⟨[], rfl, rfl⟩
  | cons w word ih =>
    cases cs with
    | nil => cases dropped
    | cons c cs =>
      rw [Parser.dropWord?] at dropped
      split at dropped
      · rename_i same
        obtain ⟨spelled, rfl, upper⟩ := ih dropped
        exact ⟨c :: spelled, rfl, by rw [Text.upper, List.map_cons, same]; exact congrArg _ upper⟩
      · cases dropped

theorem splitWord_eq {word cs front rest : List Char} {inName : Bool}
    (found : splitWord word inName cs = some (front, rest)) :
    ∃ spelled, cs = front ++ spelled ++ rest ∧ upper spelled = word := by
  induction cs generalizing inName front with
  | nil => cases found
  | cons c cs ih =>
    have later (found : (splitWord word (Name.isPart c) cs).map (fun found => (c :: found.1, found.2)) =
        some (front, rest)) : ∃ spelled, c :: cs = front ++ spelled ++ rest ∧ upper spelled = word := by
      obtain ⟨⟨inner, after⟩, inside, pair⟩ := Option.map_eq_some_iff.mp found
      obtain ⟨rfl, rfl⟩ := Prod.mk.inj pair
      obtain ⟨spelled, rfl, same⟩ := ih inside
      exact ⟨spelled, rfl, same⟩
    rw [splitWord] at found
    split at found
    · rename_i after dropped
      split at found
      · obtain ⟨rfl, rfl⟩ := Prod.mk.inj (Option.some.inj found)
        cases inName with
        | true => cases dropped
        | false => exact dropWord?_eq dropped
      · exact later found
    · exact later found

/-- A block's text, its end keyword and the semicolon make up the text with what is behind them. -/
theorem cut?_eq {kind : BlockKind} {cs : List Char} {piece : Cut} (found : cut? kind cs = some piece) :
    ∃ spelled, cs = piece.body ++ spelled ++ piece.gap ++ ';' :: piece.rest ∧
      upper spelled = kind.endKeyword.toList := by
  unfold cut? at found
  cases word : splitWord kind.endKeyword.toList false cs with
  | none => rw [word] at found; cases found
  | some pieces =>
    obtain ⟨body, behind⟩ := pieces
    rw [word] at found
    dsimp only at found
    cases statement : splitStatement false behind with
    | none => rw [statement] at found; cases found
    | some pieces =>
      rw [statement] at found
      cases found
      obtain ⟨spelled, rfl, same⟩ := splitWord_eq word
      refine ⟨spelled, ?_, same⟩
      rw [splitStatement_eq statement]
      simp only [List.append_assoc]

theorem lineEnds_of_endKeyword {kind : BlockKind} {spelled : List Char}
    (same : upper spelled = kind.endKeyword.toList) : lineEnds spelled = 0 := by
  refine List.count_eq_zero.mpr fun member => ?_
  have line : '\n' ∈ kind.endKeyword.toList := same ▸ List.mem_map_of_mem member
  cases kind <;> exact absurd line (by decide)

/-! ### Blanks -/

/-- Blanks in front of a text that does not start with one. -/
theorem blanks_append {blanks start : List Char} (blank : ∀ c ∈ blanks, isBlank c = true)
    (filled : ∀ c ∈ start.head?, isBlank c = false) :
    (blanks ++ start).takeWhile isBlank = blanks ∧ (blanks ++ start).dropWhile isBlank = start := by
  rw [List.takeWhile_append_of_pos blank, List.dropWhile_append_of_pos blank]
  cases start with
  | nil => exact ⟨List.append_nil blanks, rfl⟩
  | cons c start =>
    have outside : ¬ isBlank c = true := by simp [filled c rfl]
    rw [List.takeWhile_cons_of_neg outside, List.dropWhile_cons_of_neg outside, List.append_nil]
    exact ⟨rfl, rfl⟩

theorem front_blanks {blanks start : List Char} (blank : ∀ c ∈ blanks, isBlank c = true)
    (filled : ∀ c ∈ start.head?, isBlank c = false) (line : Nat) :
    front line (blanks ++ start) = frontAt (line + lineEnds blanks) start := by
  obtain ⟨taken, left⟩ := blanks_append blank filled
  rw [front, taken, left]

theorem exists_blanks (cs : List Char) : ∃ blanks start, cs = blanks ++ start ∧ (∀ c ∈ blanks, isBlank c = true) ∧
    ∀ c ∈ start.head?, isBlank c = false := by
  refine ⟨cs.takeWhile isBlank, cs.dropWhile isBlank, List.takeWhile_append_dropWhile.symm,
    List.all_eq_true.mp List.all_takeWhile, fun c found => ?_⟩
  have first := List.head?_dropWhile_not isBlank cs
  rw [Option.mem_def.mp found] at first
  simpa using first

/-! ### Fronts -/

/-- The upper-case form of the identifier that a text starts with. -/
def wordAt (cs : List Char) : String :=
  String.ofList (upper (leadingWord cs))

theorem keyword_of_ofKeyword? {word : String} {kind : BlockKind} (known : BlockKind.ofKeyword? word = some kind) :
    kind.keyword = word :=
  beq_iff_eq.mp (List.find?_some (p := fun kind : BlockKind => kind.keyword == word) known)

theorem frontAt_endOfSchema_iff {line : Nat} {cs : List Char} :
    frontAt line cs = .ends .endOfSchema ↔ wordAt cs = "END_SCHEMA" := by
  cases cs with
  | nil =>
    constructor
    · intro seen
      cases seen
    · intro same
      exact absurd same (by decide)
  | cons c tail =>
    unfold wordAt
    rw [frontAt]
    generalize String.ofList (upper (leadingWord (c :: tail))) = word
    by_cases same : word = "END_SCHEMA"
    · rw [if_pos same]
      exact ⟨fun _ => same, fun _ => rfl⟩
    · rw [if_neg same]
      refine ⟨fun seen => ?_, fun other => absurd other same⟩
      split at seen
      · cases found : splitStatement false (c :: tail) with
        | none => rw [found] at seen; cases seen
        | some pieces => rw [found] at seen; cases seen
      · cases known : BlockKind.ofKeyword? word with
        | none =>
          rw [known] at seen
          by_cases empty : word = ""
          · simp only [if_pos empty] at seen
            cases seen
          · simp only [if_neg empty] at seen
            cases seen
        | some kind =>
          rw [known] at seen
          cases cut : cut? kind (c :: tail) with
          | none => simp only [cut] at seen; cases seen
          | some piece => simp only [cut] at seen; cases seen

theorem frontAt_clause_iff {line next : Nat} {cs rest : List Char} :
    frontAt line cs = .clause next rest ↔ (wordAt cs = "USE" ∨ wordAt cs = "REFERENCE") ∧
      ∃ front, splitStatement false cs = some (front, rest) ∧ next = line + lineEnds front := by
  cases cs with
  | nil =>
    constructor
    · intro seen
      cases seen
    · rintro ⟨_, _, found, _⟩
      cases found
  | cons c tail =>
    unfold wordAt
    rw [frontAt]
    generalize String.ofList (upper (leadingWord (c :: tail))) = word
    constructor
    · intro seen
      split at seen
      · cases seen
      · split at seen
        · rename_i clause
          cases found : splitStatement false (c :: tail) with
          | none => rw [found] at seen; cases seen
          | some pieces =>
            rw [found] at seen
            cases seen
            exact ⟨clause, pieces.1, rfl, rfl⟩
        · cases known : BlockKind.ofKeyword? word with
          | none => rw [known] at seen; cases seen
          | some kind =>
            rw [known] at seen
            cases cut : cut? kind (c :: tail) with
            | none => simp only [cut] at seen; cases seen
            | some piece => simp only [cut] at seen; cases seen
    · rintro ⟨clause, front, found, rfl⟩
      have goesOn : word ≠ "END_SCHEMA" := by rcases clause with rfl | rfl <;> decide
      rw [if_neg goesOn, if_pos clause, found]

theorem frontAt_block_iff {line next : Nat} {cs rest : List Char} {block : Block} :
    frontAt line cs = .block block next rest ↔ ∃ kind piece, BlockKind.ofKeyword? (wordAt cs) = some kind ∧
      cut? kind cs = some piece ∧ block = { kind, line, text := trim piece.body } ∧
      next = line + lineEnds piece.body + lineEnds piece.gap ∧ rest = piece.rest := by
  cases cs with
  | nil =>
    constructor
    · intro seen
      cases seen
    · rintro ⟨kind, _, known, _⟩
      have empty : kind.keyword = "" := keyword_of_ofKeyword? known
      cases kind <;> exact absurd empty (by decide)
  | cons c tail =>
    unfold wordAt
    rw [frontAt]
    generalize String.ofList (upper (leadingWord (c :: tail))) = word
    constructor
    · intro seen
      split at seen
      · cases seen
      · split at seen
        · cases found : splitStatement false (c :: tail) with
          | none => rw [found] at seen; cases seen
          | some pieces => rw [found] at seen; cases seen
        · cases known : BlockKind.ofKeyword? word with
          | none => rw [known] at seen; cases seen
          | some kind =>
            rw [known] at seen
            cases cut : cut? kind (c :: tail) with
            | none => simp only [cut] at seen; cases seen
            | some piece =>
              simp only [cut] at seen
              cases seen
              exact ⟨kind, piece, rfl, cut, rfl, rfl, rfl⟩
    · rintro ⟨kind, piece, known, cut, rfl, rfl, rfl⟩
      have block : word ≠ "END_SCHEMA" ∧ word ≠ "USE" ∧ word ≠ "REFERENCE" := by
        rw [← keyword_of_ofKeyword? known]
        cases kind <;> decide
      rw [if_neg block.1, if_neg (not_or.mpr block.2), known]
      simp only [cut]

/-! ### Places -/

/-- The reader of a text stands at `start`, with the schema's name and the declarations `found` behind it. -/
inductive Reaches (text : List Char) (name : Name) : List Declaration → List Char → Prop where
  | header {header body : List Char} (statement : splitStatement false (text.dropWhile isBlank) = some (header, body))
    (named : Parser.parseAll Grammar.schemaHeader (trim header) = some name) :
    Reaches text name [] (body.dropWhile isBlank)
  | clause {found : List Declaration} {start rest : List Char} {line next : Nat} (reached : Reaches text name found start)
    (passed : frontAt line start = .clause next rest) : Reaches text name found (rest.dropWhile isBlank)
  | block {found : List Declaration} {start rest : List Char} {line next : Nat} {block : Block}
    {declared : Option Declaration} (reached : Reaches text name found start)
    (passed : frontAt line start = .block block next rest) (understood : block.declaration? = .ok declared) :
    Reaches text name (found ++ declared.toList) (rest.dropWhile isBlank)

/-- What stands at `start`, on the given line, is at fault. -/
inductive Offends (line : Nat) (start : List Char) (fault : ReadError) : Prop where
  | ends {ending : Ending} (seen : frontAt line start = .ends ending) (faulty : ReadError.ofEnding? ending = some fault)
  | block {block : Block} {next : Nat} {rest : List Char} (seen : frontAt line start = .block block next rest)
    (faulty : block.declaration? = .error fault)

theorem frontAt_clause_lines {line next : Nat} {start rest : List Char} (seen : frontAt line start = .clause next rest) :
    ∃ passed, start = passed ++ rest ∧ next = line + lineEnds passed := by
  obtain ⟨-, front, found, rfl⟩ := frontAt_clause_iff.mp seen
  refine ⟨front ++ [';'], ?_, ?_⟩
  · rw [splitStatement_eq found, List.append_assoc, List.singleton_append]
  · rw [lineEnds_append]
    rfl

theorem frontAt_block_lines {line next : Nat} {start rest : List Char} {block : Block}
    (seen : frontAt line start = .block block next rest) :
    ∃ passed, start = passed ++ rest ∧ next = line + lineEnds passed := by
  obtain ⟨kind, piece, -, cut, -, rfl, rfl⟩ := frontAt_block_iff.mp seen
  obtain ⟨spelled, shape, keyword⟩ := cut?_eq cut
  refine ⟨piece.body ++ spelled ++ piece.gap ++ [';'], ?_, ?_⟩
  · rw [shape, List.append_assoc _ [';'], List.singleton_append]
  · have single : lineEnds [';'] = 0 := rfl
    rw [lineEnds_append, lineEnds_append, lineEnds_append, lineEnds_of_endKeyword keyword, single]
    omega

/-- Blanks, what stands behind them and what follows that, as one stretch. -/
theorem behind_blanks {cs passed further start : List Char} (line : Nat)
    (shape : cs.dropWhile isBlank = passed ++ (further ++ start)) :
    ∃ front, cs = front ++ start ∧
      line + lineEnds (cs.takeWhile isBlank) + lineEnds passed + lineEnds further = line + lineEnds front := by
  refine ⟨cs.takeWhile isBlank ++ passed ++ further, ?_, ?_⟩
  · rw [List.append_assoc, List.append_assoc, ← shape, List.takeWhile_append_dropWhile]
  · rw [lineEnds_append, lineEnds_append]
    omega

/-! ### Faults -/

/-- The declarations of a text that starts on the given line. -/
def declarationsFrom (line : Nat) (cs : List Char) : Except ReadError (List Declaration) :=
  declarations (split line cs).1 (split line cs).2

theorem ofEnding?_eq_none_iff {ending : Ending} : ReadError.ofEnding? ending = none ↔ ending = .endOfSchema := by
  cases ending <;> simp [ReadError.ofEnding?]

theorem declarationsFrom_ends {line : Nat} {cs : List Char} {ending : Ending} (seen : front line cs = .ends ending) :
    declarationsFrom line cs = (ReadError.ofEnding? ending).elim (.ok []) .error := by
  rw [declarationsFrom, split_eq, seen]
  cases ending <;> rfl

theorem declarationsFrom_clause {line next : Nat} {cs rest : List Char} (seen : front line cs = .clause next rest) :
    declarationsFrom line cs = declarationsFrom next rest := by
  rw [declarationsFrom, split_eq, seen]
  rfl

theorem declarationsFrom_block {line next : Nat} {cs rest : List Char} {block : Block}
    (seen : front line cs = .block block next rest) :
    declarationsFrom line cs =
      block.declaration?.bind fun declared => (declarationsFrom next rest).map (declared.toList ++ ·) := by
  rw [declarationsFrom, split_eq, seen]
  rfl

/-- Where the declarations of a text cannot be told, the reader comes to a place at which what stands there is at
fault. -/
theorem exists_offender {text : List Char} {name : Name} {fault : ReadError} {line : Nat} {cs : List Char}
    {found : List Declaration} (reached : Reaches text name found (cs.dropWhile isBlank))
    (failed : declarationsFrom line cs = .error fault) :
    ∃ passed found start, cs = passed ++ start ∧ Reaches text name found start ∧
      Offends (line + lineEnds passed) start fault := by
  have blanks (cs : List Char) : cs = cs.takeWhile isBlank ++ cs.dropWhile isBlank :=
    List.takeWhile_append_dropWhile.symm
  induction line, cs using split_induction generalizing found with
  | ends line cs ending seen =>
    rw [declarationsFrom_ends seen] at failed
    refine ⟨_, found, _, blanks cs, reached, .ends seen ?_⟩
    cases faulty : ReadError.ofEnding? ending with
    | none => rw [faulty] at failed; cases failed
    | some other => rw [faulty] at failed; cases failed; rfl
  | clause line cs next rest seen ih =>
    rw [declarationsFrom_clause seen] at failed
    obtain ⟨passed, shape, rfl⟩ := frontAt_clause_lines seen
    obtain ⟨further, found, start, rfl, place, offends⟩ := ih (.clause reached seen) failed
    obtain ⟨front, whole, lines⟩ := behind_blanks line shape
    exact ⟨front, found, start, whole, place, lines ▸ offends⟩
  | block line cs first next rest seen ih =>
    rw [declarationsFrom_block seen] at failed
    cases understood : first.declaration? with
    | error other =>
      rw [understood] at failed
      cases failed
      exact ⟨_, found, _, blanks cs, reached, .block seen understood⟩
    | ok declared =>
      rw [understood] at failed
      cases others : declarationsFrom next rest with
      | ok decls =>
        dsimp only [Except.bind] at failed
        rw [others] at failed
        cases failed
      | error other =>
        dsimp only [Except.bind] at failed
        rw [others] at failed
        cases failed
        obtain ⟨passed, shape, rfl⟩ := frontAt_block_lines seen
        obtain ⟨further, found, start, rfl, place, offends⟩ := ih (.block reached seen understood) others
        obtain ⟨front, whole, lines⟩ := behind_blanks line shape
        exact ⟨front, found, start, whole, place, lines ▸ offends⟩

theorem readPlain_cases (text : List Char) :
    readPlain text = .error .missingHeader ∨
      ∃ header body name, splitStatement false (text.dropWhile isBlank) = some (header, body) ∧
        Parser.parseAll Grammar.schemaHeader (trim header) = some name ∧
        readPlain text =
          (declarationsFrom (1 + lineEnds (text.takeWhile isBlank) + lineEnds header) body).map
            fun declarations => { name, declarations } := by
  unfold readPlain
  cases splitStatement false (text.dropWhile isBlank) with
  | none => exact .inl rfl
  | some pieces =>
    obtain ⟨header, body⟩ := pieces
    dsimp only
    cases named : Parser.parseAll Grammar.schemaHeader (trim header) with
    | none => exact .inl rfl
    | some name => exact .inr ⟨header, body, name, rfl, named, rfl⟩

/-- The reader fails in the header, or at a place that it comes to. The line number counts the line ends in front of that
place. -/
theorem readPlain_error {text : List Char} {fault : ReadError} (failed : readPlain text = .error fault) :
    fault = .missingHeader ∨ ∃ name passed found start, text = passed ++ start ∧ Reaches text name found start ∧
      Offends (1 + lineEnds passed) start fault := by
  rcases readPlain_cases text with unheaded | ⟨header, body, name, statement, named, read⟩
  · rw [unheaded] at failed
    cases failed
    exact .inl rfl
  · rw [read] at failed
    cases inside : declarationsFrom (1 + lineEnds (text.takeWhile isBlank) + lineEnds header) body with
    | ok decls => rw [inside] at failed; cases failed
    | error other =>
      rw [inside] at failed
      cases failed
      obtain ⟨further, found, start, rfl, place, offends⟩ := exists_offender (.header statement named) inside
      have shape : text.dropWhile isBlank = (header ++ [';']) ++ (further ++ start) := by
        rw [splitStatement_eq statement, List.append_assoc, List.singleton_append]
      obtain ⟨front, whole, lines⟩ := behind_blanks 1 shape
      have sameLines : lineEnds (header ++ [';']) = lineEnds header := lineEnds_append header [';']
      rw [sameLines] at lines
      exact .inr ⟨name, front, found, start, whole, place, lines ▸ offends⟩

end Express.Reader
