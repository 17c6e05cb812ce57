import Express.Proofs.ClauseGrammar

/-!
# Reading declarations

The productions for declarations take their canonical texts. A section's list of clauses ends where the keyword of a
later section is taken for a name that no colon follows.
-/

namespace Express.Reader.Grammar

open Reader.Parser

variable {k : List Char}

/-! ### Types -/

theorem type_shape (decl : TypeDecl) : decl.canonical.toList =
    "TYPE".toList ++ ' ' :: (decl.name.toList ++ ' ' :: '=' :: ' ' :: (decl.body.canonical.toList ++ [';'])) := by
  simp [TypeDecl.canonical]

theorem typeDecl_takes {decl : TypeDecl} (named : decl.name.isWritable = true) (writable : decl.body.isWritable = true) :
    typeDecl decl.canonical.toList = some (decl, []) := by
  rw [type_shape]
  refine bind_takes (keyword_takes (by decide) rfl) (bind_takes (token_ident named rfl) ?_)
  have body := (token_word (leading_typeBody writable rfl)).trans (typeBody_takes writable (@typeEnds_semicolon []))
  refine bind_takes (symbol_takes rfl) (bind_takes body ?_)
  exact bind_takes (symbol_takes rfl) rfl

/-! ### Sections of an entity -/

/-- Behind the clauses of a section: nothing, or the keyword of a later section and a further word. -/
def SectionEnds (words : List String) (rest : List Char) : Prop :=
  rest = [] ∨ ∃ word ∈ words, ∃ tail, rest = ' ' :: (word.toList ++ ' ' :: tail) ∧ leadingWord tail ≠ []

section

variable {words : List String} {rest : List Char}

theorem token_keyword_section {word : String} (listed : word ∈ keywords) (known : ∀ other ∈ words, other ∈ keywords)
    (outside : word ∉ words) (ends : SectionEnds words rest) : token (keyword word) rest = none := by
  rcases ends with rfl | ⟨other, member, tail, rfl, -⟩
  · exact keyword_nil listed
  · have differs : other ≠ word := by
      rintro rfl
      exact outside member
    rw [token_space]
    exact token_keyword_fails listed (startsOther_keyword (known other member) rfl differs)

/-- The keyword of a section is read as the name of an attribute. -/
theorem attributeName_section {word : String} (listed : word ∈ keywords) (other : word ≠ "SELF") (tail : List Char) :
    attributeName (word.toList ++ ' ' :: tail) = some (.simple word, ' ' :: tail) := by
  have unqualified : keyword "SELF" (word.toList ++ ' ' :: tail) = none :=
    keyword_fails (by decide) (startsOther_keyword listed rfl other)
  refine (orElse_second (bind_fails unqualified)).trans ?_
  exact bind_takes (ident_identifier (keywords_spelled word listed).1 rfl) rfl

theorem explicitClause_fails (ends : SectionEnds ["DERIVE", "INVERSE"] rest) : token explicitClause rest = none := by
  have known : ∀ word ∈ ["DERIVE", "INVERSE"], word ∈ keywords ∧ word ≠ "SELF" := by decide
  rcases ends with rfl | ⟨word, member, tail, rfl, starts⟩
  · rfl
  · obtain ⟨listed, other⟩ := known word member
    have identifier := (keywords_spelled word listed).1
    have name : token attributeName (word.toList ++ ' ' :: tail) = some (.simple word, ' ' :: tail) :=
      (token_identifier identifier).trans (attributeName_section listed other tail)
    have comma : symbol ',' tail = none := symbol_fails_word starts rfl
    have colon : symbol ':' tail = none := symbol_fails_word starts rfl
    rw [token_space, token_identifier identifier]
    exact bind_fails_next (bind_takes name (bind_takes (many_fails (bind_fails comma)) rfl)) (bind_fails colon)

theorem derivedClause_fails (ends : SectionEnds ["INVERSE"] rest) : token derivedClause rest = none := by
  have known : ∀ word ∈ ["INVERSE"], word ∈ keywords ∧ word ≠ "SELF" := by decide
  rcases ends with rfl | ⟨word, member, tail, rfl, starts⟩
  · rfl
  · obtain ⟨listed, other⟩ := known word member
    have colon : symbol ':' tail = none := symbol_fails_word starts rfl
    rw [token_space, token_identifier (keywords_spelled word listed).1]
    exact bind_fails_next (attributeName_section listed other tail) (bind_fails colon)

theorem section_shape {α : Type} (word : String) (text : α → String) (first : α) (others : List α) :
    (sectionText word ((first :: others).map text)).toList ++ rest =
      ' ' :: (word.toList ++ ((spaced ((first :: others).map text)).toList ++ rest)) := by
  simp [sectionText]

theorem spaced_shape {α : Type} (text : α → String) (first : α) (others : List α) :
    (spaced ((first :: others).map text)).toList ++ rest =
      ' ' :: ((text first).toList ++ ((spaced (others.map text)).toList ++ rest)) := by
  simp [toList_spaced]

theorem sectionEnds_section {α : Type} (word : String) (text : α → String) {items : List α}
    (leading : ∀ a ∈ items, ∀ next, leadingWord ((text a).toList ++ next) ≠ []) (ends : SectionEnds words rest) :
    SectionEnds (word :: words) ((sectionText word (items.map text)).toList ++ rest) := by
  cases items with
  | nil =>
    refine ends.imp_right ?_
    rintro ⟨other, member, tail⟩
    exact ⟨other, List.mem_cons_of_mem word member, tail⟩
  | cons first others =>
    rw [section_shape, spaced_shape]
    exact .inr ⟨word, List.mem_cons_self, _, rfl, leading first List.mem_cons_self _⟩

/-- A section is read as its clauses, and an absent one as none. -/
theorem maybe_section {α : Type} {p : Parser α} {word : String} (text : α → String) {items : List α}
    (listed : word ∈ keywords) (reads : ∀ a ∈ items, ∀ next, token p ((text a).toList ++ next) = some (a, next))
    (absent : token (keyword word) rest = none) (stops : token p rest = none) :
    ∃ found : Option (List α), found.getD [] = items ∧
      maybe (do token (keyword word); many1 (token p)) ((sectionText word (items.map text)).toList ++ rest) =
        some (found, rest) := by
  cases items with
  | nil => exact ⟨none, rfl, maybe_fails (bind_fails absent)⟩
  | cons first others =>
    have ends : atWordEnd ((spaced ((first :: others).map text)).toList ++ rest) = true := by
      rw [spaced_shape]
      rfl
    have clauses := many1_spaced text (List.cons_ne_nil first others) reads stops
    rw [section_shape]
    exact ⟨some (first :: others), rfl, maybe_takes (bind_takes (token_keyword listed ends) clauses)⟩

end

/-! ### Entities -/

theorem leading_explicit {clause : ExplicitClause} (writable : clause.isWritable = true) :
    leadingWord (clause.canonical.toList ++ k) ≠ [] := by
  obtain ⟨named, -⟩ := Bool.and_eq_true_iff.mp writable
  obtain ⟨filled, each⟩ := Bool.and_eq_true_iff.mp named
  rw [explicit_shape]
  cases names : clause.names with
  | nil =>
    rw [names] at filled
    cases filled
  | cons first others =>
    rw [names] at each
    rw [List.map_cons, toList_intercalate_cons, List.append_assoc]
    refine leading_attributeName (List.all_eq_true.mp each first List.mem_cons_self) ?_
    cases others <;> rfl

theorem token_explicit {clause : ExplicitClause} (writable : clause.isWritable = true) :
    token explicitClause (clause.canonical.toList ++ k) = some (clause, k) :=
  (token_word (leading_explicit writable)).trans (explicitClause_takes writable)

theorem leading_derived {clause : DerivedClause} (writable : clause.isWritable = true) :
    leadingWord (clause.canonical.toList ++ k) ≠ [] := by
  obtain ⟨head, -⟩ := Bool.and_eq_true_iff.mp writable
  rw [derived_shape]
  exact leading_attributeName (Bool.and_eq_true_iff.mp head).1 rfl

theorem token_derived {clause : DerivedClause} (writable : clause.isWritable = true) :
    token derivedClause (clause.canonical.toList ++ k) = some (clause, k) :=
  (token_word (leading_derived writable)).trans (derivedClause_takes writable)

theorem leading_inverse {clause : InverseClause} (writable : clause.isWritable = true) :
    leadingWord (clause.canonical.toList ++ k) ≠ [] := by
  obtain ⟨names, -⟩ := Bool.and_eq_true_iff.mp writable
  obtain ⟨front, -⟩ := Bool.and_eq_true_iff.mp names
  rw [inverse_shape]
  exact leading_attributeName (Bool.and_eq_true_iff.mp front).1 rfl

theorem token_inverse {clause : InverseClause} (writable : clause.isWritable = true) :
    token inverseClause (clause.canonical.toList ++ k) = some (clause, k) :=
  (token_word (leading_inverse writable)).trans (inverseClause_takes writable)

theorem subtype_shape (first : Name) (others : List Name) : (subtypeText (first :: others)).toList ++ k =
    ' ' :: ("SUBTYPE".toList ++ ' ' :: ("OF".toList ++ ' ' :: ((nameListText (first :: others)).toList ++ k))) := by
  simp [subtypeText]

theorem maybe_subtype {parents : List Name} (writable : parents.all (·.isWritable) = true) :
    ∃ found : Option (List Name), found.getD [] = parents ∧
      maybe (token subtypeClause) ((subtypeText parents).toList ++ ';' :: k) = some (found, ';' :: k) := by
  cases parents with
  | nil => exact ⟨none, rfl, maybe_fails rfl⟩
  | cons first others =>
    refine ⟨some (first :: others), rfl, maybe_takes ?_⟩
    rw [subtype_shape, token_space, token_identifier (by decide)]
    exact subtypeClause_takes writable

theorem supertypeClause_fails {cs : List Char} (concrete : keyword "ABSTRACT" cs = none)
    (other : token (keyword "SUPERTYPE") cs = none) : supertypeClause cs = none :=
  bind_fails_next (given_fails concrete) (bind_fails_next (given_fails other) rfl)

/-- What follows a supertype clause: the subtypes or the end of the head. -/
theorem subtype_ends (parents : List Name) :
    atWordEnd ((subtypeText parents).toList ++ ';' :: k) = true ∧
      subtypeExpression ((subtypeText parents).toList ++ ';' :: k) = none ∧
      token supertypeClause ((subtypeText parents).toList ++ ';' :: k) = none := by
  cases parents with
  | nil => exact ⟨rfl, rfl, rfl⟩
  | cons first others =>
    have other {word : String} (differs : "SUBTYPE" ≠ word) (rest : List Char) :
        StartsOther word ("SUBTYPE".toList ++ ' ' :: rest) :=
      startsOther_keyword (by decide) rfl differs
    rw [subtype_shape]
    refine ⟨rfl, bind_fails ?_, ?_⟩
    · rw [token_space]
      exact token_keyword_fails (by decide) (other (by decide) _)
    · rw [token_space, token_identifier (by decide)]
      refine supertypeClause_fails (keyword_fails (by decide) (other (by decide) _)) ?_
      exact token_keyword_fails (by decide) (other (by decide) _)

theorem leading_supertype {clause : SupertypeClause} (ends : atWordEnd k = true) :
    leadingWord (clause.canonical.toList ++ k) ≠ [] := by
  have ends := @atWordEnd_choiceText k clause.choice ends
  have plain : StartsOther "OF" (("SUPERTYPE" ++ choiceText clause.choice).toList ++ k) := by
    rw [String.toList_append, List.append_assoc]
    exact startsOther_keyword (by decide) ends (by decide)
  exact (startsOther_flagged (by decide) (by decide) plain).1

theorem maybe_supertype {supertype : Option SupertypeClause} (writable : supertype.all (·.isWritable) = true)
    (parents : List Name) :
    maybe (token supertypeClause) ((spaced (supertype.map (·.canonical)).toList).toList ++
        ((subtypeText parents).toList ++ ';' :: k)) =
      some (supertype, (subtypeText parents).toList ++ ';' :: k) := by
  obtain ⟨ends, unexpressed, absent⟩ := @subtype_ends k parents
  cases supertype with
  | none => exact maybe_fails absent
  | some clause =>
    have shape : (spaced ((some clause).map (·.canonical)).toList).toList ++ ((subtypeText parents).toList ++ ';' :: k) =
        ' ' :: (clause.canonical.toList ++ ((subtypeText parents).toList ++ ';' :: k)) := by
      simp [toList_spaced]
    rw [shape]
    refine maybe_takes ?_
    rw [token_space, token_word (leading_supertype ends)]
    exact supertypeClause_takes writable ends unexpressed

theorem atWordEnd_supertype (supertype : Option SupertypeClause) (parents : List Name) :
    atWordEnd ((spaced (supertype.map (·.canonical)).toList).toList ++ ((subtypeText parents).toList ++ ';' :: k)) =
      true := by
  cases supertype with
  | none => exact (subtype_ends parents).1
  | some clause => rw [toList_spaced]; rfl

/-- The text of an entity behind its head. -/
def attributesText (decl : EntityDecl) : List Char :=
  (spaced (decl.explicit.map (·.canonical))).toList ++ ((sectionText "DERIVE" (decl.derived.map (·.canonical))).toList ++
    ((sectionText "INVERSE" (decl.inverse.map (·.canonical))).toList ++ []))

theorem entity_shape (decl : EntityDecl) : decl.canonical.toList =
    "ENTITY".toList ++ ' ' :: (decl.name.toList ++ ((spaced (decl.supertype.map (·.canonical)).toList).toList ++
      ((subtypeText decl.subtypeOf).toList ++ ';' :: attributesText decl))) := by
  simp [EntityDecl.canonical, attributesText]

theorem entityDecl_takes {decl : EntityDecl} (writable : decl.isWritable = true) :
    entityDecl decl.canonical.toList = some (decl, []) := by
  simp only [EntityDecl.isWritable, Bool.and_eq_true] at writable
  obtain ⟨⟨⟨⟨⟨named, supertyped⟩, subtyped⟩, explicit⟩, derived⟩, inverse⟩ := writable
  rw [List.all_eq_true] at explicit derived inverse
  have inverseEnds := sectionEnds_section "INVERSE" InverseClause.canonical
    (fun clause member next => leading_inverse (inverse clause member)) (.inl rfl : SectionEnds [] [])
  have derivedEnds := sectionEnds_section "DERIVE" DerivedClause.canonical
    (fun clause member next => leading_derived (derived clause member)) inverseEnds
  have explicitTaken := many_spaced ExplicitClause.canonical
    (fun clause member next => token_explicit (explicit clause member)) (explicitClause_fails derivedEnds)
  obtain ⟨parents, parentsEq, parentsTaken⟩ := maybe_subtype (k := attributesText decl) subtyped
  obtain ⟨derivations, derivationsEq, derivationsTaken⟩ := maybe_section DerivedClause.canonical (by decide)
    (fun clause member next => token_derived (derived clause member))
    (token_keyword_section (by decide : "DERIVE" ∈ keywords) (by decide) (by decide) inverseEnds)
    (derivedClause_fails inverseEnds)
  obtain ⟨inversions, inversionsEq, inversionsTaken⟩ := maybe_section InverseClause.canonical
    (by decide : "INVERSE" ∈ keywords) (fun clause member next => token_inverse (inverse clause member))
    (rfl : token (keyword "INVERSE") [] = none) rfl
  have record : decl = ⟨decl.name, decl.supertype, parents.getD [], decl.explicit, derivations.getD [],
      inversions.getD []⟩ := by
    rw [parentsEq, derivationsEq, inversionsEq]
  rw [entity_shape]
  refine bind_takes (keyword_takes (by decide) rfl) (bind_takes (token_ident named (atWordEnd_supertype _ _)) ?_)
  refine bind_takes (maybe_supertype supertyped decl.subtypeOf) (bind_takes parentsTaken ?_)
  refine bind_takes (symbol_takes rfl) (bind_takes explicitTaken ?_)
  refine bind_takes derivationsTaken (bind_takes inversionsTaken ?_)
  rw [record]
  rfl

/-! ### Functions, rules and the schema's name -/

theorem parameter_shape (clause : ParameterClause) : clause.canonical.toList ++ k =
    (", ".intercalate clause.names).toList ++ ' ' :: ':' :: ' ' :: (clause.type.canonical.toList ++ k) := by
  simp [ParameterClause.canonical]

theorem leading_parameter {clause : ParameterClause} (writable : clause.isWritable = true) :
    leadingWord (clause.canonical.toList ++ k) ≠ [] := by
  rw [parameter_shape]
  exact leading_names (Bool.and_eq_true_iff.mp writable).1 rfl

theorem token_parameter {clause : ParameterClause} (writable : clause.isWritable = true) (follows : TypeEnds k) :
    token parameterClause (clause.canonical.toList ++ k) = some (clause, k) := by
  obtain ⟨named, typed⟩ := Bool.and_eq_true_iff.mp writable
  rw [token_word (leading_parameter writable), parameter_shape]
  refine bind_takes (names_take named rfl rfl) (bind_takes (symbol_takes rfl) ?_)
  exact bind_takes (token_param typed follows) rfl

theorem parameters_shape (first : ParameterClause) (others : List ParameterClause) :
    (parametersText (first :: others)).toList ++ k =
      ' ' :: '(' :: (("; ".intercalate ((first :: others).map (·.canonical))).toList ++ ')' :: k) := by
  simp [parametersText, parens]

theorem maybe_parameters {clauses : List ParameterClause} (writable : clauses.all (·.isWritable) = true) :
    ∃ found : Option (List ParameterClause), found.getD [] = clauses ∧
      maybe parameterList ((parametersText clauses).toList ++ ' ' :: ':' :: k) = some (found, ' ' :: ':' :: k) := by
  cases clauses with
  | nil => exact ⟨none, rfl, maybe_fails rfl⟩
  | cons first others =>
    have reads : ∀ clause ∈ first :: others, ∀ next, TypeEnds next →
        token parameterClause (clause.canonical.toList ++ next) = some (clause, next) :=
      fun clause member next follows => token_parameter (List.all_eq_true.mp writable clause member) follows
    have list := sepBy1_takes "; " ParameterClause.canonical rfl rfl (List.cons_ne_nil first others) reads
      (fun _ => typeEnds_semicolon) (@typeEnds_paren (' ' :: ':' :: k)) rfl
    refine ⟨some (first :: others), rfl, maybe_takes ?_⟩
    rw [parameters_shape]
    exact bind_takes (symbol_takes rfl) (bind_takes list (bind_takes (symbol_takes rfl) rfl))

theorem function_shape (decl : FunctionDecl) : decl.canonical.toList = "FUNCTION".toList ++ ' ' :: (decl.name.toList ++
    ((parametersText decl.parameters).toList ++ ' ' :: ':' :: ' ' :: (decl.returnType.canonical.toList ++ [';']))) := by
  simp [FunctionDecl.canonical]

theorem functionHead_takes {decl : FunctionDecl} (named : decl.name.isWritable = true)
    (parameters : decl.parameters.all (·.isWritable) = true) (typed : decl.returnType.isWritable areBounds = true) :
    functionHead decl.canonical.toList = some (decl, []) := by
  have ends : atWordEnd ((parametersText decl.parameters).toList ++ ' ' :: ':' :: ' ' ::
      (decl.returnType.canonical.toList ++ [';'])) = true := by
    cases decl.parameters with
    | nil => rfl
    | cons first others => rw [parameters_shape]; rfl
  obtain ⟨found, foundEq, taken⟩ := maybe_parameters (k := ' ' :: (decl.returnType.canonical.toList ++ [';'])) parameters
  have record : decl = ⟨decl.name, found.getD [], decl.returnType⟩ := by rw [foundEq]
  rw [function_shape]
  refine bind_takes (keyword_takes (by decide) rfl) (bind_takes (token_ident named ends) ?_)
  refine bind_takes taken (bind_takes (symbol_takes rfl) ?_)
  refine bind_takes (token_param typed typeEnds_semicolon) (bind_takes (symbol_takes rfl) ?_)
  rw [record]
  rfl

theorem rule_shape (name : Name) : (Declaration.rule name).body.toList =
    "RULE".toList ++ ' ' :: (name.toList ++ ' ' :: ("FOR ".toList ++ ((nameListText [name]).toList ++ [';']))) := by
  simp [Declaration.body]

theorem ruleHead_takes {name : Name} (named : name.isWritable = true) :
    parseFront ruleHead (Declaration.rule name).body.toList = some name := by
  rw [parseFront, rule_shape, ruleHead, bind_takes (keyword_takes (by decide) rfl) (token_ident named rfl)]
  rfl

theorem schemaHeader_takes {name : Name} (named : name.isWritable = true) :
    schemaHeader ("SCHEMA " ++ name).toList = some (name, []) := by
  have shape : ("SCHEMA " ++ name).toList = "SCHEMA".toList ++ ' ' :: (name.toList ++ []) := by simp
  rw [shape]
  refine bind_takes (keyword_takes (by decide) rfl) (bind_takes (token_ident named rfl) ?_)
  rfl

end Express.Reader.Grammar
