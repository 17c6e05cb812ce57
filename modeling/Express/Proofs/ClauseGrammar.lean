import Express.Proofs.Spacing
import Express.Proofs.TypeGrammar

/-!
# Reading clauses

The productions for the clauses of an entity take their canonical texts. Attribute clauses end with a semicolon, so what
comes behind them does not matter.
-/

namespace Express.Reader.Grammar

open Reader.Parser

variable {k : List Char}

theorem typeEnds_semicolon : TypeEnds (';' :: k) := ⟨rfl, rfl, rfl⟩

theorem typeEnds_paren : TypeEnds (')' :: k) := ⟨rfl, rfl, rfl⟩

/-- The colon of `:=` is no label's. -/
theorem typeEnds_assign : TypeEnds (' ' :: ':' :: '=' :: k) := ⟨rfl, rfl, rfl⟩

theorem token_element {type : ElementType} (writable : type.isWritable areBounds = true) (follows : TypeEnds k) :
    token elementType (type.canonical.toList ++ k) = some (type, k) :=
  have readable := element_readable writable
  (token_word (startsIn_element readable follows.wordEnd).leading).trans (elementType_takes readable follows)

theorem token_param {type : ParamType} (writable : type.isWritable areBounds = true) (follows : TypeEnds k) :
    token paramType (type.canonical.toList ++ k) = some (type, k) :=
  have readable := param_readable writable
  (token_word (startsIn_param readable follows.wordEnd).leading).trans (paramType_takes readable follows)

/-! ### Supertypes and subtypes -/

theorem closing_append {depth : Nat} {text inner rest : List Char} (plain : ∀ c ∈ text, c ≠ '(' ∧ c ≠ ')')
    (closed : closing depth k = some (inner, rest)) : closing depth (text ++ k) = some (text ++ inner, rest) := by
  induction text with
  | nil => exact closed
  | cons c text ih =>
    obtain ⟨⟨unopened, unclosed⟩, others⟩ := List.forall_mem_cons.mp plain
    rw [List.cons_append, closing, if_neg unopened, if_neg unclosed, ih others]
    · rfl
    · exact fun _ same => unclosed same

theorem names_plain {names : List Name} (writable : ∀ name ∈ names, name.isWritable = true) :
    ∀ c ∈ (", ".intercalate names).toList, c ≠ '(' ∧ c ≠ ')' := by
  have marks : ∀ c ∈ ", ".toList, c ≠ '(' ∧ c ≠ ')' := by simp
  intro c member
  rcases mem_toList_intercalate member with mark | ⟨name, present, member⟩
  · exact marks c mark
  · have part := Name.parts_of_isIdentifier (Name.isIdentifier_of_isWritable (writable name present)) c member
    constructor <;> (rintro rfl; cases part)

theorem oneOf_shape (choice : List Name) : (oneOfText choice).toList ++ k =
    "ONEOF".toList ++ ' ' :: '(' :: ((", ".intercalate choice).toList ++ ')' :: k) := by
  simp [oneOfText, nameListText, parens]

theorem closing_oneOf {choice : List Name} (writable : areWritable choice = true) :
    closing 0 ((oneOfText choice).toList ++ ')' :: k) = some ((oneOfText choice).toList, k) := by
  have inner : closing 1 ((", ".intercalate choice).toList ++ ')' :: ')' :: k) =
      some ((", ".intercalate choice).toList ++ [')'], k) :=
    closing_append (names_plain (areWritable_iff.mp writable).2) rfl
  have outer : closing 0 ('(' :: ((", ".intercalate choice).toList ++ ')' :: ')' :: k)) =
      some ('(' :: ((", ".intercalate choice).toList ++ [')']), k) := by
    rw [closing, if_pos rfl, inner]
    · rfl
    · decide
  have word : closing 0 ("ONEOF ".toList ++ '(' :: ((", ".intercalate choice).toList ++ ')' :: ')' :: k)) =
      some ("ONEOF ".toList ++ '(' :: ((", ".intercalate choice).toList ++ [')']), k) :=
    closing_append (by simp) outer
  have shape := @oneOf_shape [] choice
  rw [List.append_nil] at shape
  rw [oneOf_shape, shape]
  exact word

theorem oneOf_takes {choice : List Name} (writable : areWritable choice = true) :
    parseFront oneOf (oneOfText choice).toList = some choice := by
  have shape : (oneOfText choice).toList = "ONEOF".toList ++ ' ' :: ((nameListText choice).toList ++ []) := by
    simp [oneOfText]
  have taken : oneOf (oneOfText choice).toList = some (choice, []) := by
    rw [shape]
    exact bind_takes (token_keyword (by decide) rfl) (nameList_takes writable)
  rw [parseFront, taken]
  rfl

theorem unbroken_word {lead : List Char} {name : Name} {mark : Char} (unbroken : ∀ c ∈ lead, Text.isBlank c = false)
    (writable : name.isWritable = true) (filled : Text.isBlank mark = false) :
    ∀ c ∈ lead ++ name.toList ++ [mark], Text.isBlank c = false := by
  have parts := Name.parts_of_isIdentifier (Name.isIdentifier_of_isWritable writable)
  simp only [List.forall_mem_append, List.forall_mem_singleton]
  exact ⟨⟨unbroken, fun c member => Name.isBlank_eq_false (parts c member)⟩, filled⟩

/-- Names behind the rest of a word, with a comma behind each but the last and a parenthesis behind that. -/
theorem singleSpaced_names {lead : List Char} {first : Name} {others : List Name}
    (unbroken : ∀ c ∈ lead, Text.isBlank c = false) (writable : ∀ name ∈ first :: others, name.isWritable = true) :
    Text.singleSpaced (lead ++ (", ".intercalate (first :: others)).toList ++ [')']) =
      lead ++ (", ".intercalate (first :: others)).toList ++ [')'] := by
  induction others generalizing lead first with
  | nil =>
    have word := unbroken_word unbroken (writable first List.mem_cons_self) (by decide : Text.isBlank ')' = false)
    rw [String.intercalate_singleton]
    exact Text.singleSpaced_word (by simp) word
  | cons second others ih =>
    have word := unbroken_word unbroken (writable first List.mem_cons_self) (by decide : Text.isBlank ',' = false)
    have tail := List.forall_mem_cons.mp writable |>.2
    have shape : lead ++ (", ".intercalate (first :: second :: others)).toList ++ [')'] =
        (lead ++ first.toList ++ [',']) ++ ' ' :: ([] ++ (", ".intercalate (second :: others)).toList ++ [')']) := by
      rw [toList_intercalate_cons, toList_intercalate_cons]
      simp
    have more : Text.words ([] ++ (", ".intercalate (second :: others)).toList ++ [')']) ≠ [] := by
      have identifier := Name.isIdentifier_of_isWritable (tail second List.mem_cons_self)
      obtain ⟨c, cs, spelled, start, -⟩ := Name.exists_cons_of_isIdentifier identifier
      rw [toList_intercalate_cons, spelled]
      exact Text.words_ne_nil (Name.isBlank_eq_false (Name.isPart_of_isStart start)) _
    rw [shape, Text.singleSpaced_cons (by simp) word more, ih (by simp) tail]

theorem singleSpaced_oneOf {choice : List Name} (writable : areWritable choice = true) :
    Text.singleSpaced (oneOfText choice).toList = (oneOfText choice).toList := by
  obtain ⟨nonempty, each⟩ := areWritable_iff.mp writable
  obtain ⟨first, others, rfl⟩ := List.exists_cons_of_ne_nil nonempty
  have shape : (oneOfText (first :: others)).toList =
      "ONEOF".toList ++ ' ' :: (['('] ++ (", ".intercalate (first :: others)).toList ++ [')']) := by
    simp [oneOfText, nameListText, parens]
  have more : Text.words (['('] ++ (", ".intercalate (first :: others)).toList ++ [')']) ≠ [] := Text.words_ne_nil rfl _
  rw [shape, Text.singleSpaced_cons (by decide) (by simp [Text.isBlank]) more,
    singleSpaced_names (by simp [Text.isBlank]) each]

theorem maybe_subtypeExpression {choice : Option (List Name)} (writable : ∀ names ∈ choice, areWritable names = true)
    (unexpressed : subtypeExpression k = none) :
    maybe subtypeExpression ((choiceText choice).toList ++ k) =
      some (choice.map fun names => (oneOfText names).toList, k) := by
  cases choice with
  | none => exact maybe_fails unexpressed
  | some names =>
    have shape : (choiceText (some names)).toList ++ k =
        ' ' :: ("OF".toList ++ ' ' :: '(' :: ((oneOfText names).toList ++ ')' :: k)) := by
      simp [choiceText, parens]
    have inner : parenthesised ('(' :: ((oneOfText names).toList ++ ')' :: k)) = some ((oneOfText names).toList, k) :=
      bind_takes char_takes (closing_oneOf (writable names rfl))
    rw [shape]
    exact maybe_takes (bind_takes (token_keyword (by decide) rfl) inner)

theorem atWordEnd_choiceText {choice : Option (List Name)} (ends : atWordEnd k = true) :
    atWordEnd ((choiceText choice).toList ++ k) = true := by
  cases choice with
  | none => exact ends
  | some names => simp [choiceText, atWordEnd, show Name.isPart ' ' = false from rfl]

theorem given_supertype (isAbstract : Bool) {text : String} (ends : atWordEnd (text.toList ++ k) = true) :
    ∃ mid, given (keyword "ABSTRACT") ((flagged isAbstract "ABSTRACT" ("SUPERTYPE" ++ text)).toList ++ k) =
        some (isAbstract, mid) ∧
      given (token (keyword "SUPERTYPE")) mid = some (true, text.toList ++ k) := by
  have shape : ("SUPERTYPE" ++ text).toList ++ k = "SUPERTYPE".toList ++ (text.toList ++ k) := by
    rw [String.toList_append, List.append_assoc]
  have taken : token (keyword "SUPERTYPE") ("SUPERTYPE".toList ++ (text.toList ++ k)) = some ((), text.toList ++ k) :=
    token_keyword (by decide) ends
  cases isAbstract with
  | true =>
    have flag : (flagged true "ABSTRACT" ("SUPERTYPE" ++ text)).toList ++ k =
        "ABSTRACT".toList ++ ' ' :: ("SUPERTYPE".toList ++ (text.toList ++ k)) := by
      simp [flagged]
    rw [flag]
    exact ⟨_, given_takes (keyword_takes (by decide) rfl), given_takes taken⟩
  | false =>
    refine ⟨_, given_fails (keyword_fails (by decide) ?_), ?_⟩
    · rw [flagged, if_neg Bool.false_ne_true, shape]
      exact startsOther_keyword (by decide) ends (by decide)
    · rw [flagged, if_neg Bool.false_ne_true, shape]
      exact given_takes taken

theorem supertypeClause_takes {clause : SupertypeClause} (writable : clause.isWritable = true)
    (ends : atWordEnd k = true) (unexpressed : subtypeExpression k = none) :
    supertypeClause (clause.canonical.toList ++ k) = some (clause, k) := by
  obtain ⟨isAbstract, choice, expression⟩ := clause
  have chosen : ∀ names ∈ choice, areWritable names = true := by
    rintro names ⟨⟩
    exact (Bool.and_eq_true_iff.mp writable).1
  obtain ⟨mid, abstraction, supertype⟩ := given_supertype isAbstract (@atWordEnd_choiceText k choice ends)
  refine bind_takes abstraction (bind_takes supertype ?_)
  simp only [Bool.or_true, if_true]
  refine bind_takes (maybe_subtypeExpression chosen unexpressed) ?_
  -- What is left is the clause: its choice is read once more, and its expression has single spaces already.
  cases choice with
  | none =>
    cases Option.isNone_iff_eq_none.mp writable
    rfl
  | some names =>
    have expressed := beq_iff_eq.mp (Bool.and_eq_true_iff.mp writable).2
    have spaces := singleSpaced_oneOf (chosen names rfl)
    dsimp only [Option.map_some, Option.bind_some] at expressed ⊢
    rw [oneOf_takes (chosen names rfl), spaces, String.ofList_toList, expressed]
    rfl

theorem subtypeClause_takes {parents : List Name} (writable : areWritable parents = true) :
    subtypeClause ("SUBTYPE".toList ++ ' ' :: ("OF".toList ++ ' ' :: ((nameListText parents).toList ++ k))) =
      some (parents, k) := by
  refine bind_takes (keyword_takes (by decide) rfl) (bind_takes (token_keyword (by decide) rfl) ?_)
  exact nameList_takes writable

/-! ### Attributes -/

theorem qualified_shape (entity attr : Name) : (AttributeName.qualified entity attr).text.toList ++ k =
    "SELF".toList ++ '\\' :: (entity.toList ++ '.' :: (attr.toList ++ k)) := by
  simp [AttributeName.text]

theorem attributeName_takes {name : AttributeName} (writable : name.isWritable = true) (ends : atWordEnd k = true) :
    attributeName (name.text.toList ++ k) = some (name, k) := by
  cases name with
  | simple name =>
    have unqualified : keyword "SELF" (name.toList ++ k) = none :=
      keyword_fails (by decide) (startsOther_name writable ends (by decide))
    exact (orElse_second (bind_fails unqualified)).trans (bind_takes (ident_takes writable ends) rfl)
  | qualified entity attr =>
    obtain ⟨entityWritable, attrWritable⟩ := Bool.and_eq_true_iff.mp writable
    rw [qualified_shape]
    refine orElse_first (bind_takes (keyword_takes (by decide) rfl) (bind_takes (symbol_takes rfl) ?_))
    refine bind_takes (token_ident entityWritable rfl) (bind_takes (symbol_takes rfl) ?_)
    exact bind_takes (token_ident attrWritable ends) rfl

theorem leading_attributeName {name : AttributeName} (writable : name.isWritable = true) (ends : atWordEnd k = true) :
    leadingWord (name.text.toList ++ k) ≠ [] := by
  cases name with
  | simple name => exact (startsOther_name writable ends (by decide : "SELF" ∈ keywords)).1
  | qualified entity attr =>
    rw [qualified_shape, leadingWord_keyword (by decide) rfl]
    decide

theorem token_attributeName {name : AttributeName} (writable : name.isWritable = true) (ends : atWordEnd k = true) :
    token attributeName (name.text.toList ++ k) = some (name, k) :=
  (token_word (leading_attributeName writable ends)).trans (attributeName_takes writable ends)

theorem explicit_shape (clause : ExplicitClause) : clause.canonical.toList ++ k =
    (", ".intercalate (clause.names.map (·.text))).toList ++ ' ' :: ':' :: ' ' ::
      ((flagged clause.optional "OPTIONAL" clause.type.canonical).toList ++ ';' :: k) := by
  simp [ExplicitClause.canonical]

theorem explicitClause_takes {clause : ExplicitClause} (writable : clause.isWritable = true) :
    explicitClause (clause.canonical.toList ++ k) = some (clause, k) := by
  obtain ⟨names, optional, type⟩ := clause
  obtain ⟨named, typed⟩ := Bool.and_eq_true_iff.mp writable
  obtain ⟨filled, each⟩ := Bool.and_eq_true_iff.mp named
  have nonempty : names ≠ [] := by simpa using filled
  have reads : ∀ name ∈ names, ∀ next, atWordEnd next = true →
      token attributeName (name.text.toList ++ next) = some (name, next) :=
    fun name member next ends => token_attributeName (List.all_eq_true.mp each name member) ends
  have unflagged : StartsOther "OPTIONAL" (type.canonical.toList ++ ';' :: k) :=
    (startsIn_element (element_readable typed) rfl).other typeWords_subset (by decide) (by decide)
  rw [explicit_shape]
  refine bind_takes (sepBy1_takes ", " AttributeName.text rfl rfl nonempty reads (fun _ => rfl) rfl rfl) ?_
  refine bind_takes (symbol_takes rfl) (bind_takes (given_flag (by decide) unflagged) ?_)
  refine bind_takes (token_element typed typeEnds_semicolon) ?_
  exact bind_takes (symbol_takes rfl) rfl

/-! ### Expressions -/

theorem isExpression_iff {cs : List Char} : isExpression cs = true ↔
    Text.trim cs = cs ∧ cs.countP (· ∈ ['(', '[', '\x7b']) = cs.countP (· ∈ [')', ']', '\x7d']) ∧
      ';' ∉ cs ∧ isQuiet endWords cs = true := by
  simp only [isExpression, Bool.and_eq_true, beq_iff_eq, decide_eq_true_eq, and_assoc]

theorem bracketStep_eq (c : Char) : bracketStep c =
    (if c ∈ ['(', '[', '\x7b'] then 1 else 0) - (if c ∈ [')', ']', '\x7d'] then 1 else 0) := by
  grind [bracketStep]

/-- An expression without literals and semicolons runs to the next semicolon, if no bracket is open there. -/
theorem expressionText_takes {cs : List Char} {depth : Int} (unquoted : '\'' ∉ cs) (single : ';' ∉ cs)
    (closed : depth + cs.countP (· ∈ ['(', '[', '\x7b']) ≤ cs.countP (· ∈ [')', ']', '\x7d'])) :
    expressionText false depth (cs ++ ';' :: k) = some (cs, ';' :: k) := by
  induction cs generalizing depth with
  | nil =>
    have level : depth ≤ 0 := by simpa using closed
    simp [expressionText, level]
  | cons c cs ih =>
    rw [List.mem_cons, not_or] at unquoted single
    have inner : depth + bracketStep c + cs.countP (· ∈ ['(', '[', '\x7b']) ≤ cs.countP (· ∈ [')', ']', '\x7d']) := by
      simp only [List.countP_cons, decide_eq_true_eq] at closed
      rw [bracketStep_eq]
      split at closed <;> split at closed <;> rename_i opens closes <;>
        simp only [opens, closes, if_true, if_false] <;> omega
    rw [List.cons_append, expressionText, if_neg fun ends => single.1 ends.1.symm]
    simp only [Bool.false_eq_true, if_false, if_neg (Ne.symm unquoted.1), ih unquoted.2 single.2 inner]
    rfl

theorem token_trimmed {α : Type} {p : Parser α} {cs : List Char} (trimmed : cs.dropWhile Text.isBlank = cs) :
    token p (cs ++ ';' :: k) = p (cs ++ ';' :: k) := by
  cases cs with
  | nil => exact token_cons rfl
  | cons c cs =>
    refine token_cons ?_
    rw [Bool.eq_false_iff]
    intro layout
    rw [List.dropWhile_cons_of_pos (Text.isBlank_of_isLayout layout)] at trimmed
    have shorter := (List.dropWhile_sublist (l := cs) Text.isBlank).length_le
    rw [trimmed, List.length_cons] at shorter
    omega

theorem derived_shape (clause : DerivedClause) : clause.canonical.toList ++ k =
    clause.name.text.toList ++ ' ' :: ':' :: ' ' :: (clause.type.canonical.toList ++ ' ' :: ':' :: '=' :: ' ' ::
      (clause.expression.toList ++ ';' :: k)) := by
  simp [DerivedClause.canonical]

theorem derivedClause_takes {clause : DerivedClause} (writable : clause.isWritable = true) :
    derivedClause (clause.canonical.toList ++ k) = some (clause, k) := by
  obtain ⟨name, type, expression⟩ := clause
  obtain ⟨head, expressed⟩ := Bool.and_eq_true_iff.mp writable
  obtain ⟨named, typed⟩ := Bool.and_eq_true_iff.mp head
  obtain ⟨trimmed, balanced, single, quiet⟩ := isExpression_iff.mp expressed
  have unquoted : '\'' ∉ expression.toList := by
    simp only [isQuiet, Bool.and_eq_true, decide_eq_true_eq] at quiet
    exact quiet.1.1
  obtain ⟨left, right⟩ := Text.of_trim_eq trimmed
  have text : token (expressionText false 0) (expression.toList ++ ';' :: k) = some (expression.toList, ';' :: k) := by
    rw [token_trimmed left]
    refine expressionText_takes unquoted single ?_
    rw [balanced]
    omega
  rw [derived_shape]
  refine bind_takes (attributeName_takes named rfl) (bind_takes (symbol_takes rfl) ?_)
  refine bind_takes (token_element typed typeEnds_assign) (bind_takes (symbol_takes rfl) ?_)
  refine bind_takes char_takes (bind_takes text (bind_takes char_takes ?_))
  rw [right, String.ofList_toList]
  rfl

/-! ### Inverse attributes -/

theorem maybe_inverseAggregate {aggregate : Option InverseAggregate} {entity : Name}
    (writable : aggregate.all (·.isWritable) = true) (named : entity.isWritable = true) (ends : atWordEnd k = true) :
    maybe (token inverseAggregate) (' ' :: ((aggregateText entity aggregate).toList ++ k)) =
      some (aggregate, ' ' :: (entity.toList ++ k)) := by
  cases aggregate with
  | none =>
    have listed : ∀ kind ∈ [AggregateKind.set, .bag], kind.keyword ∈ keywords := by decide
    have single : token inverseAggregate (entity.toList ++ k) = none := by
      rw [token_identifier (Name.isIdentifier_of_isWritable named)]
      exact bind_fails (constant_fails listed fun kind member => startsOther_name named ends (listed kind member))
    exact maybe_fails single
  | some aggregate =>
    obtain ⟨kind, bounds⟩ := aggregate
    obtain ⟨drawn, bounded⟩ := Bool.and_eq_true_iff.mp writable
    have shape : (aggregateText entity (some ⟨kind, bounds⟩)).toList ++ k =
        kind.keyword.toList ++ ((boundsText bounds).toList ++ ' ' :: ("OF".toList ++ ' ' :: (entity.toList ++ k))) := by
      simp [aggregateText]
    have identifier := (keywords_spelled _ (typeWords_subset _ (kind_mem_typeWords kind))).1
    have taken : token inverseAggregate (kind.keyword.toList ++ ((boundsText bounds).toList ++ ' ' ::
        ("OF".toList ++ ' ' :: (entity.toList ++ k)))) = some (⟨kind, bounds⟩, ' ' :: (entity.toList ++ k)) := by
      rw [token_identifier identifier]
      refine bind_takes (constant_takes (by decide) (by decide) (of_decide_eq_true drawn) atWordEnd_boundsText) ?_
      refine bind_takes (maybe_bounds (isTight_of_areBounds bounded) ?_) ?_
      · rw [leadingWord_keyword (by decide) rfl]
        decide
      · exact bind_takes (token_keyword (by decide) rfl) rfl
    rw [shape]
    exact maybe_takes taken

theorem inverse_shape (clause : InverseClause) : clause.canonical.toList ++ k =
    clause.name.text.toList ++ ' ' :: ':' :: ' ' :: ((aggregateText clause.entity clause.aggregate).toList ++
      ' ' :: ("FOR".toList ++ ' ' :: (clause.forAttr.toList ++ ';' :: k))) := by
  simp [InverseClause.canonical]

theorem inverseClause_takes {clause : InverseClause} (writable : clause.isWritable = true) :
    inverseClause (clause.canonical.toList ++ k) = some (clause, k) := by
  obtain ⟨name, aggregate, entity, forAttr⟩ := clause
  obtain ⟨names, aggregated⟩ := Bool.and_eq_true_iff.mp writable
  obtain ⟨front, forWritable⟩ := Bool.and_eq_true_iff.mp names
  obtain ⟨named, entityWritable⟩ := Bool.and_eq_true_iff.mp front
  have attr : token ident (forAttr.toList ++ ';' :: k) = some (forAttr, ';' :: k) := token_ident forWritable rfl
  have unowned : owner (' ' :: (forAttr.toList ++ ';' :: k)) = none := bind_fails_next attr rfl
  rw [inverse_shape]
  refine bind_takes (attributeName_takes named rfl) (bind_takes (symbol_takes rfl) ?_)
  refine bind_takes (maybe_inverseAggregate aggregated entityWritable rfl) ?_
  refine bind_takes (token_ident entityWritable rfl) (bind_takes (token_keyword (by decide) rfl) ?_)
  refine bind_takes (given_fails unowned) (bind_takes attr ?_)
  exact bind_takes (symbol_takes rfl) rfl

end Express.Reader.Grammar
