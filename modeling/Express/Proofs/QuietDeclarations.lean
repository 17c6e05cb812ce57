import Express.Proofs.DeclarationGrammar
import Express.Proofs.QuietText

/-!
# Canonical declarations are quiet

Up to its `END_…`, the canonical text of a declaration holds no literal, no remark and no `END_…` of any kind: names and
keywords are other words, and a divider stands between any two of them.
-/

namespace Express.Reader.Grammar

open Reader.Parser

/-! ### Lists -/

theorem unstarred_of_leading {cs : List Char} (starts : leadingWord cs ≠ []) : ∀ c ∈ cs.head?, c ≠ '*' := by
  cases cs with
  | nil => exact (starts rfl).elim
  | cons c cs =>
    rintro d ⟨⟩ rfl
    exact starts rfl

theorem quiet_nameList {names : List Name} (writable : areWritable names = true) :
    isQuiet endWords (nameListText names).toList = true := by
  have starts := @leading_names [] names writable rfl
  rw [List.append_nil] at starts
  refine quiet_parens (by decide) (unstarred_of_leading starts) (quiet_intercalate ", " (by decide) ?_)
  exact fun name member => quiet_name ((areWritable_iff.mp writable).2 name member)

theorem quiet_flagged {flag : Bool} {word text : String} (keyword : isQuiet endWords word.toList = true)
    (quiet : isQuiet endWords text.toList = true) : isQuiet endWords (flagged flag word text).toList = true := by
  cases flag with
  | true => exact quiet_between " " (by decide) keyword quiet
  | false => exact quiet

/-! ### Types -/

theorem appends_label {text : Option Name} (writable : text.all (·.isWritable) = true) :
    Appends endWords (labelText text) := by
  cases text with
  | none => exact appends_empty
  | some name => exact appends_prefixed " : " (by decide) (quiet_name writable)

theorem appends_bounds {text : Option String} (fits : text.all areBounds = true) : Appends endWords (boundsText text) := by
  cases text with
  | none => exact appends_empty
  | some bounds =>
    have opened := appends_prefixed " [" (by decide) (quiet_bounds fits)
    exact opened.append (appends_literal "]" (by decide))

theorem quiet_collection {head : CollectionHead} {element : String} (fits : head.bounds.all areBounds = true)
    (quiet : isQuiet endWords element.toList = true) : isQuiet endWords (head.canonical element).toList = true := by
  have kind : isQuiet endWords head.kind.keyword.toList = true := by cases head.kind <;> decide
  refine quiet_between " OF " (by decide) ((appends_bounds fits).after kind) ?_
  exact quiet_flagged (by decide) (quiet_flagged (by decide) quiet)

theorem quiet_simpleType (type : SimpleType) : isQuiet endWords type.keyword.toList = true := by
  cases type <;> decide

theorem quiet_element {type : ElementType} (writable : type.isWritable areBounds = true) :
    isQuiet endWords type.canonical.toList = true := by
  induction type with
  | collection head element ih =>
    obtain ⟨fits, inner⟩ := Bool.and_eq_true_iff.mp writable
    exact quiet_collection fits (ih inner)
  | simple type => exact quiet_simpleType type
  | named name => exact quiet_name writable
  | generic text => exact (appends_label writable).after (by decide)

theorem quiet_param {type : ParamType} (writable : type.isWritable areBounds = true) :
    isQuiet endWords type.canonical.toList = true := by
  induction type with
  | simple type => exact quiet_simpleType type
  | named name => exact quiet_name writable
  | generic text => exact (appends_label writable).after (by decide)
  | collection kind bounds element ih =>
    obtain ⟨fits, inner⟩ := Bool.and_eq_true_iff.mp writable
    exact quiet_collection fits (ih inner)
  | aggregate text element ih =>
    obtain ⟨labelled, inner⟩ := Bool.and_eq_true_iff.mp writable
    exact quiet_between " OF " (by decide) ((appends_label labelled).after (by decide)) (ih inner)

theorem quiet_typeBody {body : TypeBody} (writable : body.isWritable = true) :
    isQuiet endWords body.canonical.toList = true := by
  cases body with
  | simple type => exact quiet_simpleType type
  | collection head element =>
    obtain ⟨fits, inner⟩ := Bool.and_eq_true_iff.mp writable
    exact quiet_collection fits (quiet_element inner)
  | named name => exact quiet_name writable
  | enumeration values => exact quiet_prefixed "ENUMERATION OF " (by decide) (by decide) (quiet_nameList writable)
  | select alternatives => exact quiet_prefixed "SELECT " (by decide) (by decide) (quiet_nameList writable)

/-! ### Clauses -/

theorem quiet_oneOf {choice : List Name} (writable : areWritable choice = true) :
    isQuiet endWords (oneOfText choice).toList = true :=
  quiet_prefixed "ONEOF " (by decide) (by decide) (quiet_nameList writable)

theorem appends_choice {choice : Option (List Name)} (writable : ∀ names ∈ choice, areWritable names = true) :
    Appends endWords (choiceText choice) := by
  cases choice with
  | none => exact appends_empty
  | some names =>
    have shape := @oneOf_shape [] names
    have starts : leadingWord (oneOfText names).toList ≠ [] := by
      rw [List.append_nil] at shape
      rw [shape, leadingWord_keyword (by decide) rfl]
      decide
    have quiet := quiet_parens (by decide) (unstarred_of_leading starts) (quiet_oneOf (writable names rfl))
    exact appends_prefixed " OF " (by decide) quiet

theorem quiet_supertype {clause : SupertypeClause} (writable : clause.isWritable = true) :
    isQuiet endWords clause.canonical.toList = true := by
  refine quiet_flagged (by decide) ((appends_choice ?_).after (by decide))
  intro names chosen
  unfold SupertypeClause.isWritable at writable
  rw [chosen] at writable
  exact (Bool.and_eq_true_iff.mp writable).1

theorem quiet_attributeName {name : AttributeName} (writable : name.isWritable = true) :
    isQuiet endWords name.text.toList = true := by
  cases name with
  | simple name => exact quiet_name writable
  | qualified entity attr =>
    obtain ⟨entityWritable, attrWritable⟩ := Bool.and_eq_true_iff.mp writable
    refine quiet_between "." (by decide) ?_ (quiet_name attrWritable)
    exact quiet_prefixed "SELF\\" (by decide) (by decide) (quiet_name entityWritable)

theorem quiet_explicit {clause : ExplicitClause} (writable : clause.isWritable = true) :
    isQuiet endWords clause.canonical.toList = true := by
  obtain ⟨named, typed⟩ := Bool.and_eq_true_iff.mp writable
  obtain ⟨-, each⟩ := Bool.and_eq_true_iff.mp named
  have names : isQuiet endWords (", ".intercalate (clause.names.map (·.text))).toList = true := by
    refine quiet_intercalate ", " (by decide) (List.forall_mem_map.mpr fun name member => ?_)
    exact quiet_attributeName (List.all_eq_true.mp each name member)
  refine quiet_suffixed ";" (by decide) (quiet_between " : " (by decide) names ?_)
  exact quiet_flagged (by decide) (quiet_element typed)

theorem quiet_derived {clause : DerivedClause} (writable : clause.isWritable = true) :
    isQuiet endWords clause.canonical.toList = true := by
  obtain ⟨head, expressed⟩ := Bool.and_eq_true_iff.mp writable
  obtain ⟨named, typed⟩ := Bool.and_eq_true_iff.mp head
  obtain ⟨-, -, -, quiet⟩ := isExpression_iff.mp expressed
  refine quiet_suffixed ";" (by decide) (quiet_between " := " (by decide) ?_ quiet)
  exact quiet_between " : " (by decide) (quiet_attributeName named) (quiet_element typed)

theorem quiet_inverse {clause : InverseClause} (writable : clause.isWritable = true) :
    isQuiet endWords clause.canonical.toList = true := by
  obtain ⟨name, aggregate, entity, forAttr⟩ := clause
  obtain ⟨names, aggregated⟩ := Bool.and_eq_true_iff.mp writable
  obtain ⟨front, forWritable⟩ := Bool.and_eq_true_iff.mp names
  obtain ⟨named, entityWritable⟩ := Bool.and_eq_true_iff.mp front
  have target : isQuiet endWords (aggregateText entity aggregate).toList = true := by
    cases aggregate with
    | none => exact quiet_name entityWritable
    | some aggregate =>
      have kind : isQuiet endWords aggregate.kind.keyword.toList = true := by cases aggregate.kind <;> decide
      have fits := (Bool.and_eq_true_iff.mp aggregated).2
      exact quiet_between " OF " (by decide) ((appends_bounds fits).after kind) (quiet_name entityWritable)
  refine quiet_suffixed ";" (by decide) (quiet_between " FOR " (by decide) ?_ (quiet_name forWritable))
  exact quiet_between " : " (by decide) (quiet_attributeName named) target

/-! ### Declarations -/

theorem appends_section {α : Type} {word : String} {text : α → String} {items : List α}
    (keyword : isQuiet endWords word.toList = true) (each : ∀ a ∈ items, isQuiet endWords (text a).toList = true) :
    Appends endWords (sectionText word (items.map text)) := by
  cases items with
  | nil => exact appends_empty
  | cons first others =>
    have clauses : Appends endWords (spaced ((first :: others).map text)) :=
      appends_spaced (by decide) (List.forall_mem_map.mpr each)
    exact (appends_prefixed " " (by decide) keyword).append clauses

theorem appends_subtype {parents : List Name} (writable : parents.all (·.isWritable) = true) :
    Appends endWords (subtypeText parents) := by
  cases parents with
  | nil => exact appends_empty
  | cons first others => exact appends_prefixed " SUBTYPE OF " (by decide) (quiet_nameList writable)

theorem quiet_entity {decl : EntityDecl} (writable : decl.isWritable = true) :
    isQuiet endWords decl.canonical.toList = true := by
  simp only [EntityDecl.isWritable, Bool.and_eq_true] at writable
  obtain ⟨⟨⟨⟨⟨named, supertyped⟩, subtyped⟩, explicit⟩, derived⟩, inverse⟩ := writable
  rw [List.all_eq_true] at explicit derived inverse
  have name := quiet_prefixed "ENTITY " (by decide) (by decide) (quiet_name named)
  have supertype : Appends endWords (spaced (decl.supertype.map (·.canonical)).toList) := by
    refine appends_spaced (by decide) fun text member => ?_
    obtain ⟨clause, given, rfl⟩ := Option.map_eq_some_iff.mp (Option.mem_toList.mp member)
    rw [given] at supertyped
    exact quiet_supertype supertyped
  have head := (appends_literal ";" (by decide)).after ((appends_subtype subtyped).after (supertype.after name))
  have attributes : Appends endWords (spaced (decl.explicit.map (·.canonical))) :=
    appends_spaced (by decide) (List.forall_mem_map.mpr fun clause member => quiet_explicit (explicit clause member))
  have derivations : Appends endWords (sectionText "DERIVE" (decl.derived.map (·.canonical))) :=
    appends_section (by decide) fun clause member => quiet_derived (derived clause member)
  have inversions : Appends endWords (sectionText "INVERSE" (decl.inverse.map (·.canonical))) :=
    appends_section (by decide) fun clause member => quiet_inverse (inverse clause member)
  exact inversions.after (derivations.after (attributes.after head))

theorem quiet_parameter {clause : ParameterClause} (writable : clause.isWritable = true) :
    isQuiet endWords clause.canonical.toList = true := by
  obtain ⟨named, typed⟩ := Bool.and_eq_true_iff.mp writable
  refine quiet_between " : " (by decide) (quiet_intercalate ", " (by decide) fun name member => ?_) (quiet_param typed)
  exact quiet_name ((areWritable_iff.mp named).2 name member)

theorem appends_parameters {clauses : List ParameterClause} (writable : clauses.all (·.isWritable) = true) :
    Appends endWords (parametersText clauses) := by
  cases clauses with
  | nil => exact appends_empty
  | cons first others =>
    have each := List.all_eq_true.mp writable
    refine appends_prefixed " " (by decide) (quiet_parens (by decide) ?_ (quiet_intercalate "; " (by decide) ?_))
    · rw [List.map_cons, toList_intercalate_cons]
      exact unstarred_of_leading (leading_parameter (each first List.mem_cons_self))
    · exact List.forall_mem_map.mpr fun clause member => quiet_parameter (each clause member)

/-- A declaration is quiet up to its `END_…`. -/
theorem quiet_body {declaration : Declaration} (writable : declaration.isWritable = true) :
    isQuiet endWords declaration.body.toList = true := by
  cases declaration with
  | type decl =>
    obtain ⟨named, typed⟩ := Bool.and_eq_true_iff.mp writable
    refine quiet_suffixed ";" (by decide) (quiet_between " = " (by decide) ?_ (quiet_typeBody typed))
    exact quiet_prefixed "TYPE " (by decide) (by decide) (quiet_name named)
  | entity decl => exact quiet_entity writable
  | function decl =>
    obtain ⟨head, typed⟩ := Bool.and_eq_true_iff.mp writable
    obtain ⟨named, parameters⟩ := Bool.and_eq_true_iff.mp head
    have name := quiet_prefixed "FUNCTION " (by decide) (by decide) (quiet_name named)
    refine quiet_suffixed ";" (by decide) (quiet_between " : " (by decide) ?_ (quiet_param typed))
    exact (appends_parameters parameters).after name
  | rule name =>
    have named := quiet_name writable
    have list : areWritable [name] = true := areWritable_iff.mpr ⟨List.cons_ne_nil _ _, List.forall_mem_singleton.mpr writable⟩
    refine quiet_suffixed ";" (by decide) (quiet_between " FOR " (by decide) ?_ (quiet_nameList list))
    exact quiet_prefixed "RULE " (by decide) (by decide) named

end Express.Reader.Grammar
