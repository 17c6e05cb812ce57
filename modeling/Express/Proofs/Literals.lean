import Mathlib.Data.List.DropRight
import Express.Proofs.BlockEnds
import Express.Proofs.Openings
import Express.Proofs.Remarks

/-!
# String literals

A string literal in a part of a block that is not looked at may have any contents but the word at which the block ends:
the schema that is read is the same (`read_literals`). With that word in it, the block ends inside the literal, and what
follows is read as declarations.
-/

namespace Express

namespace Reader

open Text Reader.Parser

/-! ### Lines -/

theorem frontAt_of_cut {kind : BlockKind} {start : List Char} {piece : Cut}
    (known : BlockKind.ofKeyword? (wordAt start) = some kind) (cut : cut? kind start = some piece) (line : Nat) :
    frontAt line start = .block { kind, line, text := trim piece.body }
      (line + lineEnds piece.body + lineEnds piece.gap) piece.rest :=
  frontAt_block_iff.mpr ⟨kind, piece, known, cut, rfl, rfl, rfl⟩

/-- Where nothing is passed, nothing is passed on any other line, and a schema that is closed is closed there as well. -/
theorem frontAt_ends_alike {line : Nat} {cs : List Char} {ending : Ending} (seen : frontAt line cs = .ends ending)
    (line' : Nat) : ∃ ending', frontAt line' cs = .ends ending' ∧ (ending = .endOfSchema ↔ ending' = .endOfSchema) := by
  cases seen' : frontAt line' cs with
  | clause next rest =>
    obtain ⟨clause, front, found, -⟩ := frontAt_clause_iff.mp seen'
    have other : frontAt line cs = .clause (line + lineEnds front) rest :=
      frontAt_clause_iff.mpr ⟨clause, front, found, rfl⟩
    rw [seen] at other
    cases other
  | block first next rest =>
    obtain ⟨kind, piece, known, cut, -, -, rfl⟩ := frontAt_block_iff.mp seen'
    have other := frontAt_of_cut known cut line
    rw [seen] at other
    cases other
  | ends ending' =>
    refine ⟨ending', rfl, ?_⟩
    have closed := @frontAt_endOfSchema_iff line cs
    have closed' := @frontAt_endOfSchema_iff line' cs
    rw [seen, Front.ends.injEq] at closed
    rw [seen', Front.ends.injEq] at closed'
    exact closed.trans closed'.symm

theorem Block.toOption_declaration? (kind : BlockKind) (line line' : Nat) (text : List Char) :
    (Block.declaration? { kind, line, text }).toOption = (Block.declaration? { kind, line := line', text }).toOption := by
  unfold Block.declaration?
  dsimp only
  split <;> rfl

theorem toOption_map {ε α β : Type} (result : Except ε α) (f : α → β) :
    (result.map f).toOption = result.toOption.map f := by
  cases result <;> rfl

theorem toOption_bind {ε α β : Type} (result : Except ε α) (f : α → Except ε β) :
    (result.bind f).toOption = result.toOption.bind fun a => (f a).toOption := by
  cases result <;> rfl

/-- The number of the first line makes no difference to what is read. -/
theorem toOption_declarationsFrom (line line' : Nat) (cs : List Char) :
    (declarationsFrom line cs).toOption = (declarationsFrom line' cs).toOption := by
  induction line, cs using split_induction generalizing line' with
  | ends line cs ending seen =>
    obtain ⟨ending', seen', same⟩ := frontAt_ends_alike seen (line' + lineEnds (cs.takeWhile isBlank))
    rw [declarationsFrom_ends seen, declarationsFrom_ends seen']
    rw [← ofEnding?_eq_none_iff, ← ofEnding?_eq_none_iff] at same
    cases fault : ReadError.ofEnding? ending with
    | none => rw [same.mp fault]
    | some error =>
      cases fault' : ReadError.ofEnding? ending' with
      | none => rw [same.mpr fault'] at fault; cases fault
      | some error' => rfl
  | clause line cs next rest seen ih =>
    obtain ⟨clause, front, found, -⟩ := frontAt_clause_iff.mp seen
    have seen' : Reader.front line' cs = .clause _ rest := frontAt_clause_iff.mpr ⟨clause, front, found, rfl⟩
    rw [declarationsFrom_clause seen, declarationsFrom_clause seen']
    exact ih _
  | block line cs first next rest seen ih =>
    obtain ⟨kind, piece, known, cut, rfl, -, rfl⟩ := frontAt_block_iff.mp seen
    have seen' : Reader.front line' cs = .block _ _ piece.rest := frontAt_of_cut known cut _
    rw [declarationsFrom_block seen, declarationsFrom_block seen', toOption_bind, toOption_bind,
      Block.toOption_declaration? kind _ (line' + lineEnds (cs.takeWhile isBlank))]
    refine congrArg _ (funext fun declared => ?_)
    rw [toOption_map, toOption_map, ih]

theorem toOption_declarationsFrom_blanks (line line' : Nat) (cs : List Char) :
    (declarationsFrom line cs).toOption = (declarationsFrom line' (cs.dropWhile isBlank)).toOption := by
  obtain ⟨blanks, start, rfl, blank, filled⟩ := exists_blanks cs
  have same : front (line + lineEnds blanks) start = front line (blanks ++ start) := by
    rw [front_blanks blank filled]
    exact @front_blanks [] start (by simp) filled (line + lineEnds blanks)
  have whole : declarationsFrom line (blanks ++ start) = declarationsFrom (line + lineEnds blanks) start := by
    rw [declarationsFrom, declarationsFrom, split_eq, split_eq (line + _), same]
  rw [whole, (blanks_append blank filled).2, toOption_declarationsFrom _ line']

section

variable {line₀ next : Nat} {start rest : List Char} (filled : start.dropWhile isBlank = start)
include filled

theorem toOption_clause (passed : frontAt line₀ start = .clause next rest) (line : Nat) :
    (declarationsFrom line start).toOption = (declarationsFrom line (rest.dropWhile isBlank)).toOption := by
  obtain ⟨clause, front, found, -⟩ := frontAt_clause_iff.mp passed
  have seen : Reader.front line start = .clause _ rest :=
    (congrArg (frontAt _) filled).trans (frontAt_clause_iff.mpr ⟨clause, front, found, rfl⟩)
  rw [declarationsFrom_clause seen, toOption_declarationsFrom_blanks _ line]

theorem toOption_block {block : Block} {declared : Option Declaration}
    (passed : frontAt line₀ start = .block block next rest) (understood : block.declaration? = .ok declared) (line : Nat) :
    (declarationsFrom line start).toOption =
      (declarationsFrom line (rest.dropWhile isBlank)).toOption.map (declared.toList ++ ·) := by
  obtain ⟨kind, piece, known, cut, rfl, -, rfl⟩ := frontAt_block_iff.mp passed
  have seen : Reader.front line start = .block _ _ piece.rest :=
    (congrArg (frontAt _) filled).trans (frontAt_of_cut known cut _)
  rw [declarationsFrom_block seen, toOption_bind, Block.toOption_declaration? kind _ line₀, understood]
  rw [Except.toOption, Option.bind_some, toOption_map, toOption_declarationsFrom_blanks _ line]

end

theorem Reaches.filled_start {text : List Char} {name : Name} {found : List Declaration} {start : List Char}
    (reached : Reaches text name found start) : start.dropWhile isBlank = start := by
  cases reached <;> exact List.dropWhile_idempotent isBlank _

/-- What is read from a place that the reader comes to is what is read of the whole text, with the declarations in front
of that place. -/
theorem Reaches.toOption_readPlain {text : List Char} {name : Name} {found : List Declaration} {start : List Char}
    (reached : Reaches text name found start) (line : Nat) :
    (readPlain text).toOption = (declarationsFrom line start).toOption.map fun declarations =>
      { name, declarations := found ++ declarations } := by
  induction reached with
  | header statement named =>
    unfold readPlain
    rw [statement]
    dsimp only
    rw [named]
    dsimp only
    rw [← declarationsFrom, toOption_map, toOption_declarationsFrom_blanks _ line]
    rfl
  | clause reached passed ih => rw [ih, toOption_clause reached.filled_start passed]
  | block reached passed understood ih =>
    rw [ih, toOption_block reached.filled_start passed understood, Option.map_map]
    simp only [Function.comp_def, List.append_assoc]

/-! ### Places in front of a quote -/

theorem wordAt_quote (x y : List Char) : wordAt (x ++ '\'' :: y) = wordAt x :=
  wordAt_mark (by decide) x y

theorem exists_before_blanks {cs x y : List Char} (here : cs.dropWhile isBlank = x ++ '\'' :: y) :
    ∃ b, cs = b ++ '\'' :: y ∧ ∀ z, (b ++ '\'' :: z).dropWhile isBlank = x ++ '\'' :: z := by
  obtain ⟨b, rfl⟩ := exists_front (here ▸ List.dropWhile_suffix isBlank)
  rw [dropWhile_front (by decide)] at here
  refine ⟨b, rfl, fun z => ?_⟩
  rw [dropWhile_front (by decide), List.append_cancel_right here]

/-- The reader comes to the same places in front of a quote, whatever stands behind the quote. -/
theorem Reaches.quote {front y : List Char} {name : Name} {found : List Declaration} {start x : List Char}
    (reached : Reaches (front ++ '\'' :: y) name found start) (here : start = x ++ '\'' :: y) (z : List Char) :
    Reaches (front ++ '\'' :: z) name found (x ++ '\'' :: z) := by
  induction reached generalizing x with
  | header statement named =>
    obtain ⟨b, rfl, behind⟩ := exists_before_blanks here
    rw [dropWhile_front (by decide)] at statement
    have alike := Free.takes (splitStatement_free false) statement z
    rw [← dropWhile_front (by decide)] at alike
    exact behind z ▸ Reaches.header alike named
  | @clause found start rest line next reached passed ih =>
    obtain ⟨b, rfl, behind⟩ := exists_before_blanks here
    obtain ⟨clause, passage, statement, -⟩ := frontAt_clause_iff.mp passed
    obtain ⟨s, rfl⟩ := exists_front ((splitStatement_free false).shrinks _ _ _ statement)
    rw [wordAt_quote, ← wordAt_quote s z] at clause
    have alike := Free.takes (splitStatement_free false) statement z
    have seen : frontAt line (s ++ '\'' :: z) = .clause (line + lineEnds passage) (b ++ '\'' :: z) :=
      frontAt_clause_iff.mpr ⟨clause, passage, alike, rfl⟩
    exact behind z ▸ Reaches.clause (ih rfl) seen
  | @block found start rest line next block declared reached passed understood ih =>
    obtain ⟨b, rfl, behind⟩ := exists_before_blanks here
    obtain ⟨passage, shape, -⟩ := frontAt_block_lines passed
    obtain ⟨s, rfl⟩ := exists_front ⟨passage, shape.symm⟩
    obtain ⟨kind, piece, known, cut, rfl, -, ends⟩ := frontAt_block_iff.mp passed
    rw [wordAt_quote, ← wordAt_quote s z] at known
    have alike := cut?_quote cut ends.symm z
    exact behind z ▸ Reaches.block (ih rfl) (frontAt_of_cut known alike line) understood

/-! ### Contents of literals -/

theorem trimRight_quote (x y : List Char) : trimRight (x ++ '\'' :: y) = x ++ '\'' :: trimRight y := by
  rw [trimRight, List.reverse_append, List.reverse_cons, List.append_assoc, List.singleton_append,
    dropWhile_front (by decide), List.reverse_append, List.reverse_cons, List.reverse_reverse, List.append_assoc,
    List.singleton_append, ← trimRight]

theorem trim_quote {x : List Char} (filled : x.dropWhile isBlank = x) (y : List Char) :
    trim (x ++ '\'' :: y) = x ++ '\'' :: trimRight y := by
  rw [trim, dropWhile_front (by decide), filled, trimRight_quote]

theorem filled_of_append {front back : List Char} (filled : (front ++ back).dropWhile isBlank = front ++ back) :
    front.dropWhile isBlank = front := by
  cases front with
  | nil => rfl
  | cons c front =>
    have solid := List.dropWhile_eq_self_iff.mp filled (Nat.zero_lt_succ _)
    exact List.dropWhile_cons_of_neg solid

theorem exists_trimmed_blanks (cs : List Char) : ∃ blanks, cs = trimRight cs ++ blanks ∧ '\'' ∉ blanks := by
  refine ⟨(cs.reverse.takeWhile isBlank).reverse, ?_, ?_⟩
  · rw [trimRight, ← List.reverse_append, List.takeWhile_append_dropWhile, List.reverse_reverse]
  · intro member
    exact absurd (List.mem_takeWhile_imp (List.mem_reverse.mp member)) (by decide)

/-- No quote stands among the blanks that are cut off. -/
theorem lt_length_trimRight_iff {cs more before after : List Char} (shape : cs ++ more = before ++ '\'' :: after) :
    before.length < cs.length ↔ before.length < (trimRight cs).length := by
  obtain ⟨blanks, whole, unquoted⟩ := exists_trimmed_blanks cs
  constructor
  · intro short
    by_contra long
    have quote : cs[before.length]? = some '\'' := by
      rw [← List.getElem?_append_left short, shape, List.getElem?_append_right (le_refl _), Nat.sub_self]
      rfl
    rw [whole, List.getElem?_append_right (not_lt.mp long)] at quote
    exact unquoted (List.mem_of_getElem? quote)
  · intro short
    rw [whole, List.length_append]
    omega

/-- The word at which the reader ends a block stands outside of all literals exactly if no literal that opens in the block
holds it. -/
theorem Reaches.even_quotes_iff {text : List Char} {name : Name} {found : List Declaration} {start : List Char}
    (reached : Reaches text name found start) {line next : Nat} {block : Block} {rest : List Char}
    (passed : frontAt line start = .block block next rest) :
    Even (block.text.count '\'') ↔ ∀ before inner, IsLiteral start before inner → before.length < block.text.length →
      avoids [block.kind.endKeyword] inner = true := by
  obtain ⟨kind, piece, known, cut, rfl, -, rfl⟩ := frontAt_block_iff.mp passed
  obtain ⟨spelled, shape, -⟩ := cut?_eq cut
  have filled : piece.body.dropWhile isBlank = piece.body := by
    have start := reached.filled_start
    rw [shape, List.append_assoc, List.append_assoc] at start
    exact filled_of_append start
  obtain ⟨blanks, body, unquoted⟩ := exists_trimmed_blanks piece.body
  have count : piece.body.count '\'' = (trimRight piece.body).count '\'' := by
    rw [body, List.count_append, List.count_eq_zero.mpr unquoted, Nat.add_zero, ← body]
  rw [trim, filled, ← count, Reader.even_quotes_iff cut]
  refine forall₃_congr fun before inner literal => ?_
  obtain ⟨after, opened, -⟩ := literal
  rw [shape, List.append_assoc, List.append_assoc] at opened
  rw [lt_length_trimRight_iff opened]

/-- The literal with contents `inner` between `front` and `back` stands in a block of the given kind, in the part that is
not looked at, and is not what ends the block. -/
inductive Skipped (kind : BlockKind) (front inner back : List Char) : Prop where
  | inside {name : Name} {found : List Declaration} {x behind unread : List Char} {piece : Cut}
    (reached : Reaches (front ++ '\'' :: (inner ++ '\'' :: back)) name found (x ++ '\'' :: (inner ++ '\'' :: back)))
    (known : BlockKind.ofKeyword? (wordAt (x ++ '\'' :: (inner ++ '\'' :: back))) = some kind)
    (cut : cut? kind (x ++ '\'' :: (inner ++ '\'' :: back)) = some piece)
    (held : piece.body = x ++ '\'' :: (inner ++ '\'' :: behind))
    (opened : Grammar.opening kind piece.body = some ((), unread ++ '\'' :: (inner ++ '\'' :: behind)))

/-- The same is read whatever the literal holds, but for the word that ends its block. -/
theorem Skipped.toOption_readPlain {kind : BlockKind} {front inner other back : List Char}
    (skipped : Skipped kind front inner back) (free : avoids [kind.endKeyword] other = true) :
    (readPlain (front ++ '\'' :: (inner ++ '\'' :: back))).toOption =
      (readPlain (front ++ '\'' :: (other ++ '\'' :: back))).toOption := by
  cases skipped with
  | @inside name found x behind unread piece reached known cut held opened =>
    have reached' := reached.quote rfl (other ++ '\'' :: back)
    have cut' := cut?_literal cut held free
    have known' := known
    rw [wordAt_quote, ← wordAt_quote x (other ++ '\'' :: back)] at known'
    have filled : x.dropWhile isBlank = x := by
      have start := reached.filled_start
      rw [dropWhile_front (by decide)] at start
      exact List.append_cancel_right start
    rw [held] at opened
    obtain ⟨declared, declares⟩ := Grammar.opening_declares opened
    have passed := frontAt_of_cut known cut 0
    have passed' := frontAt_of_cut known' cut' 0
    rw [held, trim_quote filled] at passed
    rw [trim_quote filled] at passed'
    rw [reached.toOption_readPlain 0, reached'.toOption_readPlain 0,
      toOption_block reached.filled_start passed (declares 0 _),
      toOption_block reached'.filled_start passed' (declares 0 _)]

end Reader

open Text Reader

theorem toList_quoted (front contents back : String) : (front ++ "'" ++ contents ++ "'" ++ back).toList =
    front.toList ++ '\'' :: (contents.toList ++ '\'' :: back.toList) := by
  simp only [String.toList_append, List.append_assoc]
  rfl

/-- The word at which a block ends stands outside of all literals exactly if no literal that opens in the block holds it,
and the contents of a literal that is not looked at make no difference as long as they do not hold that word. -/
theorem Schema.read_literals (text : String) :
    (∀ {name : Name} {found : List Declaration} {start : List Char} {line next : Nat} {block : Block} {rest : List Char},
      Reaches (strip .plain text.toList) name found start → frontAt line start = .block block next rest →
      (Even (block.text.count '\'') ↔ ∀ before inner, IsLiteral start before inner →
        before.length < block.text.length → avoids [block.kind.endKeyword] inner = true)) ∧
    ∀ {kind : BlockKind} {front inner other back : String}, text = front ++ "'" ++ inner ++ "'" ++ back →
      modeAfter .plain front.toList = .plain → '\'' ∉ inner.toList → '\'' ∉ other.toList →
      Skipped kind (strip .plain front.toList) inner.toList (strip .plain back.toList) →
      avoids [kind.endKeyword] other.toList = true →
      (Schema.read text).toOption = (Schema.read (front ++ "'" ++ other ++ "'" ++ back)).toOption := by
  refine ⟨fun reached passed => reached.even_quotes_iff passed, ?_⟩
  rintro kind front inner other back rfl plain unquoted unquoted' skipped free
  have shape (contents : String) (unquoted : '\'' ∉ contents.toList) :
      Schema.read (front ++ "'" ++ contents ++ "'" ++ back) = readPlain (strip .plain front.toList ++
        '\'' :: (contents.toList ++ '\'' :: strip .plain back.toList)) := by
    rw [Schema.read, toList_quoted, strip_literal plain unquoted]
  rw [shape inner unquoted, shape other unquoted']
  exact skipped.toOption_readPlain free

/-- A schema with a rule that compares with a literal. -/
def notes (contents : String) : String :=
  "SCHEMA notes; ENTITY memo; WHERE ok : tag <> " ++ "'" ++ contents ++ "'" ++
    "; END_ENTITY; TYPE day = REAL; END_TYPE; END_SCHEMA;"

/-- The schema from its entity on. -/
def memo (contents : String) : List Char :=
  "ENTITY memo; WHERE ok : tag <> ".toList ++ '\'' :: (contents.toList ++ '\'' ::
    "; END_ENTITY; TYPE day = REAL; END_TYPE; END_SCHEMA;".toList)

/-- The entity as it is cut off the schema. -/
def memoCut (contents : String) : Cut :=
  { body := "ENTITY memo; WHERE ok : tag <> ".toList ++ '\'' :: (contents.toList ++ '\'' :: "; ".toList)
    gap := []
    rest := " TYPE day = REAL; END_TYPE; END_SCHEMA;".toList }

theorem toList_notes (contents : String) : (notes contents).toList =
    "SCHEMA notes; ENTITY memo; WHERE ok : tag <> ".toList ++ '\'' :: (contents.toList ++ '\'' ::
      "; END_ENTITY; TYPE day = REAL; END_TYPE; END_SCHEMA;".toList) :=
  toList_quoted _ contents _

theorem strip_notes : strip .plain (notes "draft").toList =
    strip .plain "SCHEMA notes; ENTITY memo; WHERE ok : tag <> ".toList ++ '\'' :: ("draft".toList ++ '\'' ::
      strip .plain "; END_ENTITY; TYPE day = REAL; END_TYPE; END_SCHEMA;".toList) :=
  (congrArg (strip .plain) (toList_notes "draft")).trans (strip_literal (by decide +kernel) (by decide +kernel) _)

theorem reaches_memo : Reaches (strip .plain (notes "draft").toList) "notes" [] (memo "draft") := by
  rw [toList_notes]
  exact @Reaches.header _ "notes" "SCHEMA notes".toList (' ' :: memo "draft") (by decide +kernel) (by decide +kernel)

theorem cut?_memo : cut? .entity (memo "draft") = some (memoCut "draft") :=
  cut?_iff.mpr ⟨';' :: (memoCut "draft").rest, by decide +kernel, by decide +kernel⟩

theorem skipped_memo : Skipped .entity (strip .plain "SCHEMA notes; ENTITY memo; WHERE ok : tag <> ".toList)
    "draft".toList (strip .plain "; END_ENTITY; TYPE day = REAL; END_TYPE; END_SCHEMA;".toList) := by
  have back : strip .plain "; END_ENTITY; TYPE day = REAL; END_TYPE; END_SCHEMA;".toList =
      "; END_ENTITY; TYPE day = REAL; END_TYPE; END_SCHEMA;".toList := by decide +kernel
  have reached := strip_notes ▸ reaches_memo
  have opened : Grammar.opening .entity (memoCut "draft").body =
      some ((), " ok : tag <> ".toList ++ '\'' :: ("draft".toList ++ '\'' :: "; ".toList)) := by
    decide +kernel
  rw [back] at reached ⊢
  exact .inside reached (by decide +kernel) cut?_memo rfl opened

/-- The literal may hold the words at which other blocks end. -/
theorem Schema.read_quoted_notes :
    (Schema.read (notes "draft")).toOption = (Schema.read (notes "END_TYPE; END_SCHEMA;")).toOption ∧
    Even ((trim (memoCut "draft").body).count '\'') ∧ ∀ before inner, IsLiteral (memo "draft") before inner →
      before.length < (trim (memoCut "draft").body).length → avoids ["END_ENTITY"] inner = true := by
  have same := (Schema.read_literals (notes "draft")).2 rfl (by decide +kernel) (by decide +kernel) (by decide +kernel)
    skipped_memo (by decide +kernel : avoids ["END_ENTITY"] "END_TYPE; END_SCHEMA;".toList = true)
  have even : Even ((trim (memoCut "draft").body).count '\'') := by decide +kernel
  have passed := frontAt_of_cut (by decide +kernel) cut?_memo 1
  exact ⟨same, even, ((Schema.read_literals (notes "draft")).1 reaches_memo passed).mp even⟩

/-- With the word that ends its own block in it, the literal is cut, and the rest of the schema is not read. -/
theorem Schema.read_cut_notes :
    ((Schema.read (notes "draft")).toOption.map fun schema => schema.declarations.length) = some 2 ∧
    ((Schema.read (notes "END_ENTITY; END_SCHEMA;")).toOption.map fun schema => schema.declarations.length) = some 1 ∧
    ((cut? .entity (memo "END_ENTITY; END_SCHEMA;")).map fun piece => piece.body.count '\'') = some 1 := by
  rw [Schema.read, Schema.read, toList_notes, toList_notes]
  decide +kernel

end Express
