import Express.Proofs.Tokens
import Express.Reader.Grammar

/-!
# Reading types

The productions for types take exactly the canonical text of a type, whatever comes behind it, as long as that could
not be part of a type. So it is wherever a type may end: in front of a semicolon, a closing parenthesis or `:=`
(`typeProductions_exact`).
-/

namespace Express.Reader.Grammar

open Reader.Parser

/-! ### Words that types start with -/

/-- The keywords that types below collections start with. -/
def coreWords : List String :=
  "GENERIC" :: SimpleType.all.map (·.keyword)

def typeWords : List String :=
  "AGGREGATE" :: AggregateKind.all.map (·.keyword) ++ coreWords

theorem coreWords_subset : ∀ word ∈ coreWords, word ∈ typeWords := by decide

theorem typeWords_subset : ∀ word ∈ typeWords, word ∈ keywords := by decide

theorem typeWords_reserved : ∀ word ∈ typeWords, word ∈ typeKeywords := by decide

theorem typeKeywords_subset : ∀ word ∈ typeKeywords, word ∈ keywords := by decide

theorem mem_kinds (kind : AggregateKind) : kind ∈ AggregateKind.all := by
  cases kind <;> decide

theorem kind_mem_typeWords (kind : AggregateKind) : kind.keyword ∈ typeWords := by
  cases kind <;> decide

theorem mem_simpleTypes (type : SimpleType) : type ∈ SimpleType.all := by
  cases type <;> decide

theorem simpleType_mem_coreWords (type : SimpleType) : type.keyword ∈ coreWords := by
  cases type <;> decide

/-- The text starts with one of the words or with a name. -/
def StartsIn (words : List String) (cs : List Char) : Prop :=
  ∃ word : String, (word ∈ words ∨ Name.isNoneOf typeKeywords word = true) ∧ leadingWord cs = word.toList

theorem StartsIn.mono {words more : List String} {cs : List Char} (starts : StartsIn words cs)
    (subset : ∀ word ∈ words, word ∈ more) : StartsIn more cs := by
  obtain ⟨first, kind, leads⟩ := starts
  exact ⟨first, kind.imp_left (subset first), leads⟩

theorem StartsIn.other {words : List String} {cs : List Char} (starts : StartsIn words cs)
    (known : ∀ word ∈ words, word ∈ keywords) {word : String} (listed : word ∈ typeKeywords) (outside : word ∉ words) :
    StartsOther word cs := by
  obtain ⟨first, member | name, leads⟩ := starts
  · refine startsOther_of_keyword (known first member) leads ?_
    rintro rfl
    exact outside member
  · exact startsOther_of_name name listed leads

theorem StartsIn.leading {cs : List Char} (starts : StartsIn typeWords cs) : leadingWord cs ≠ [] :=
  (starts.other typeWords_subset (by decide : "OF" ∈ typeKeywords) (by decide)).1

/-! ### Flags, bounds and labels -/

/-- Behind a type: neither more of its last word, nor a width, nor a label. -/
structure TypeEnds (rest : List Char) : Prop where
  wordEnd : atWordEnd rest = true
  narrow : symbol '(' rest = none
  unlabelled : label rest = none

section

variable {k : List Char}

theorem given_flag {flag : Bool} {word text : String} (listed : word ∈ keywords)
    (other : StartsOther word (text.toList ++ k)) :
    given (token (keyword word)) (' ' :: ((flagged flag word text).toList ++ k)) =
      some (flag, ' ' :: (text.toList ++ k)) := by
  cases flag with
  | true =>
    have shape : (flagged true word text).toList ++ k = word.toList ++ ' ' :: (text.toList ++ k) := by simp [flagged]
    rw [shape]
    exact given_takes (token_keyword listed rfl)
  | false =>
    have absent : token (keyword word) (text.toList ++ k) = none := token_keyword_fails listed other
    exact given_fails absent

theorem startsOther_flagged {flag : Bool} {first word text : String} (listed : first ∈ keywords) (differs : first ≠ word)
    (other : StartsOther word (text.toList ++ k)) : StartsOther word ((flagged flag first text).toList ++ k) := by
  cases flag with
  | true =>
    have shape : (flagged true first text).toList ++ k = first.toList ++ ' ' :: (text.toList ++ k) := by simp [flagged]
    rw [shape]
    exact startsOther_keyword listed rfl differs
  | false => exact other

theorem bounds_takes {text : String} (tight : isTight text = true) :
    bounds (' ' :: '[' :: (text.toList ++ ']' :: k)) = some (text, k) := by
  have each : ∀ c ∈ text.toList, (c != ']') = true ∧ (!Text.isBlank c) = true := fun c member =>
    Bool.and_eq_true_iff.mp (List.all_eq_true.mp tight c member)
  have inside : ∀ c ∈ text.toList, (c != ']') = true := fun c member => (each c member).1
  have taken : takeWhile (· != ']') (text.toList ++ ']' :: k) = some (text.toList, ']' :: k) := by
    rw [takeWhile, List.takeWhile_append_of_pos inside, List.dropWhile_append_of_pos inside]
    simp
  have kept : text.toList.filter (!Text.isBlank ·) = text.toList :=
    List.filter_eq_self.mpr fun c member => (each c member).2
  refine bind_takes (symbol_takes rfl) (bind_takes taken (bind_takes char_takes ?_))
  rw [kept, String.ofList_toList]
  rfl

theorem maybe_bounds {text : Option String} (tight : text.all isTight = true) (starts : leadingWord k ≠ []) :
    maybe bounds ((boundsText text).toList ++ ' ' :: k) = some (text, ' ' :: k) := by
  cases text with
  | none =>
    have unopened : symbol '[' k = none := symbol_fails_word starts rfl
    exact maybe_fails (bind_fails unopened)
  | some text =>
    have shape : (boundsText (some text)).toList ++ ' ' :: k = ' ' :: '[' :: (text.toList ++ ']' :: ' ' :: k) := by
      simp [boundsText]
    rw [shape]
    exact maybe_takes (bounds_takes tight)

theorem atWordEnd_boundsText {text : Option String} : atWordEnd ((boundsText text).toList ++ ' ' :: k) = true := by
  cases text with
  | none => rfl
  | some text => simp [boundsText, atWordEnd, show Name.isPart ' ' = false from rfl]

theorem atWordEnd_labelText {text : Option Name} (ends : atWordEnd k = true) :
    atWordEnd ((labelText text).toList ++ k) = true := by
  cases text with
  | none => exact ends
  | some name => simp [labelText, atWordEnd, show Name.isPart ' ' = false from rfl]

theorem maybe_label {text : Option Name} (labelled : text.all (·.isIdentifier) = true) (ends : atWordEnd k = true)
    (unlabelled : label k = none) : maybe label ((labelText text).toList ++ k) = some (text, k) := by
  cases text with
  | none => exact maybe_fails unlabelled
  | some name =>
    have shape : (labelText (some name)).toList ++ k = ' ' :: ':' :: ' ' :: (name.toList ++ k) := by simp [labelText]
    rw [shape]
    have named : token ident (' ' :: (name.toList ++ k)) = some (name, k) :=
      (token_identifier labelled).trans (ident_identifier labelled ends)
    exact maybe_takes (bind_takes (symbol_takes rfl) named)

/-! ### Collections -/

theorem collectionHead_takes {head : CollectionHead} {element : String} (tight : head.bounds.all isTight = true)
    (starts : StartsIn typeWords (element.toList ++ k)) :
    collectionHead ((head.canonical element).toList ++ k) = some (head, element.toList ++ k) := by
  obtain ⟨kind, bounds, optionalElements, unique⟩ := head
  have shape : (CollectionHead.canonical ⟨kind, bounds, optionalElements, unique⟩ element).toList ++ k =
      kind.keyword.toList ++ ((boundsText bounds).toList ++ ' ' :: ("OF".toList ++ ' ' ::
        ((flagged optionalElements "OPTIONAL" (flagged unique "UNIQUE" element)).toList ++ k))) := by
    simp [CollectionHead.canonical]
  have flags : StartsOther "OPTIONAL" ((flagged unique "UNIQUE" element).toList ++ k) :=
    startsOther_flagged (by decide) (by decide) (starts.other typeWords_subset (by decide) (by decide))
  have plain : StartsOther "UNIQUE" (element.toList ++ k) := starts.other typeWords_subset (by decide) (by decide)
  rw [shape]
  refine bind_takes (constant_takes (by decide) (by decide) (mem_kinds kind) atWordEnd_boundsText) ?_
  refine bind_takes (maybe_bounds tight (by rw [leadingWord_keyword (by decide) rfl]; decide)) ?_
  refine bind_takes (token_keyword (by decide) rfl) ?_
  refine bind_takes (given_flag (by decide) flags) (bind_takes (given_flag (by decide) plain) ?_)
  exact bind_takes (blanks_space plain.1) rfl

theorem collectionHead_fails {cs : List Char} (starts : StartsIn coreWords cs) : collectionHead cs = none := by
  have outside : ∀ kind ∈ AggregateKind.all, kind.keyword ∈ typeKeywords ∧ kind.keyword ∉ coreWords := by decide
  refine bind_fails (constant_fails (by decide) fun kind member => ?_)
  exact starts.other (by decide) (outside kind member).1 (outside kind member).2

/-- What a collection's text starts with. -/
theorem collection_shape (head : CollectionHead) (element : String) :
    ∃ tail, (head.canonical element).toList ++ k = head.kind.keyword.toList ++ tail ∧ atWordEnd tail = true :=
  ⟨(boundsText head.bounds).toList ++ ' ' :: ("OF ".toList ++
    ((flagged head.optionalElements "OPTIONAL" (flagged head.unique "UNIQUE" element)).toList ++ k)),
    by simp [CollectionHead.canonical], atWordEnd_boundsText⟩

theorem startsIn_collection (head : CollectionHead) (element : String) :
    StartsIn typeWords ((head.canonical element).toList ++ k) := by
  obtain ⟨tail, shape, ends⟩ := @collection_shape k head element
  have listed := kind_mem_typeWords head.kind
  rw [shape]
  exact ⟨_, .inl listed, leadingWord_keyword (typeWords_subset _ listed) ends⟩

theorem length_le_flagged (flag : Bool) (word text : String) :
    text.toList.length ≤ (flagged flag word text).toList.length := by
  cases flag with
  | true =>
    simp only [flagged, if_true, String.toList_append, List.length_append]
    omega
  | false => exact Nat.le_refl _

theorem collection_longer (head : CollectionHead) (element : String) :
    (element.toList ++ k).length < ((head.canonical element).toList ++ k).length := by
  have unique := length_le_flagged head.unique "UNIQUE" element
  have both := length_le_flagged head.optionalElements "OPTIONAL" (flagged head.unique "UNIQUE" element)
  simp only [CollectionHead.canonical, String.toList_append, List.length_append, show " OF ".toList.length = 4 from rfl]
  omega

/-! ### Types below collections -/

/-- What `elementCore` and `paramCore` have in common. -/
def core {α : Type} (simple : SimpleType → α) (generic : Option Name → α) (named : Name → α) : Parser α :=
  (do return simple (← simpleType)) <|> (do return generic (← genericType)) <|> (do return named (← ident))

theorem simpleType_takes {type : SimpleType} (follows : TypeEnds k) :
    simpleType (type.keyword.toList ++ k) = some (type, k) := by
  refine bind_takes (constant_takes (by decide) (by decide) (mem_simpleTypes type) follows.wordEnd) ?_
  exact bind_takes (given_fails (bind_fails follows.narrow)) rfl

theorem simpleType_fails {cs : List Char} (others : ∀ type ∈ SimpleType.all, StartsOther type.keyword cs) :
    simpleType cs = none :=
  bind_fails (constant_fails (by decide) others)

theorem simpleType_fails_name {name : Name} (outside : name.isNoneOf typeKeywords = true) (ends : atWordEnd k = true) :
    simpleType (name.toList ++ k) = none := by
  have leads := leadingWord_identifier (Name.isIdentifier_of_isNoneOf outside) ends
  refine simpleType_fails fun type _ => startsOther_of_name outside ?_ leads
  exact typeWords_reserved _ (coreWords_subset _ (simpleType_mem_coreWords type))

theorem generic_shape (text : Option Name) :
    ("GENERIC" ++ labelText text).toList ++ k = "GENERIC".toList ++ ((labelText text).toList ++ k) := by
  rw [String.toList_append, List.append_assoc]

theorem genericType_takes {text : Option Name} (labelled : text.all (·.isIdentifier) = true) (follows : TypeEnds k) :
    genericType (("GENERIC" ++ labelText text).toList ++ k) = some (text, k) := by
  rw [generic_shape]
  refine bind_takes (keyword_takes (by decide) (atWordEnd_labelText follows.wordEnd)) ?_
  exact maybe_label labelled follows.wordEnd follows.unlabelled

section

variable {α : Type} {simple : SimpleType → α} {generic : Option Name → α} {named : Name → α}

theorem core_simple {type : SimpleType} (follows : TypeEnds k) :
    core simple generic named (type.keyword.toList ++ k) = some (simple type, k) :=
  orElse_first (bind_takes (simpleType_takes follows) rfl)

theorem core_generic {text : Option Name} (labelled : text.all (·.isIdentifier) = true) (follows : TypeEnds k) :
    core simple generic named (("GENERIC" ++ labelText text).toList ++ k) = some (generic text, k) := by
  have others : ∀ type ∈ SimpleType.all, "GENERIC" ≠ type.keyword := by decide
  have unsimple : simpleType (("GENERIC" ++ labelText text).toList ++ k) = none := by
    rw [generic_shape]
    refine simpleType_fails fun type member => ?_
    exact startsOther_keyword (by decide) (atWordEnd_labelText follows.wordEnd) (others type member)
  refine (orElse_second (bind_fails unsimple)).trans ?_
  exact orElse_first (bind_takes (genericType_takes labelled follows) rfl)

theorem core_named {name : Name} (outside : name.isNoneOf typeKeywords = true) (ends : atWordEnd k = true) :
    core simple generic named (name.toList ++ k) = some (named name, k) := by
  have identifier := Name.isIdentifier_of_isNoneOf outside
  have ungeneric : keyword "GENERIC" (name.toList ++ k) = none :=
    keyword_fails (by decide) (startsOther_of_name outside (by decide) (leadingWord_identifier identifier ends))
  refine (orElse_second (bind_fails (simpleType_fails_name outside ends))).trans ?_
  refine (orElse_second (bind_fails (bind_fails ungeneric))).trans ?_
  exact bind_takes (ident_identifier identifier ends) rfl

end

theorem startsIn_simple (type : SimpleType) (ends : atWordEnd k = true) :
    StartsIn coreWords (type.keyword.toList ++ k) := by
  have listed := simpleType_mem_coreWords type
  exact ⟨_, .inl listed, leadingWord_keyword (typeWords_subset _ (coreWords_subset _ listed)) ends⟩

theorem startsIn_generic (text : Option Name) (ends : atWordEnd k = true) :
    StartsIn coreWords (("GENERIC" ++ labelText text).toList ++ k) := by
  rw [generic_shape]
  exact ⟨_, .inl List.mem_cons_self, leadingWord_keyword (by decide) (atWordEnd_labelText ends)⟩

theorem startsIn_name {name : Name} (outside : name.isNoneOf typeKeywords = true) (ends : atWordEnd k = true) :
    StartsIn coreWords (name.toList ++ k) :=
  ⟨name, .inr outside, leadingWord_identifier (Name.isIdentifier_of_isNoneOf outside) ends⟩

/-! ### Element types -/

theorem startsIn_element {type : ElementType} (readable : type.isReadable = true) (ends : atWordEnd k = true) :
    StartsIn typeWords (type.canonical.toList ++ k) := by
  cases type with
  | collection head element => exact startsIn_collection head element.canonical
  | simple type => exact (startsIn_simple type ends).mono coreWords_subset
  | named name => exact (startsIn_name readable ends).mono coreWords_subset
  | generic text => exact (startsIn_generic text ends).mono coreWords_subset

/-- An element type is read off its canonical text, and nothing behind it is. -/
theorem elementType_takes {type : ElementType} (readable : type.isReadable = true) (follows : TypeEnds k) :
    elementType (type.canonical.toList ++ k) = some (type, k) := by
  have unwrapped {cs : List Char} (starts : StartsIn coreWords cs) : elementType cs = elementCore cs :=
    nested_core (bind_fails (collectionHead_fails starts))
  induction type with
  | collection head element ih =>
    obtain ⟨tight, inner⟩ := Bool.and_eq_true_iff.mp readable
    have wrapped := collectionHead_takes tight (startsIn_element inner follows.wordEnd)
    exact nested_wraps (bind_takes wrapped rfl) (collection_longer head element.canonical) (ih inner)
  | simple type => exact (unwrapped (startsIn_simple type follows.wordEnd)).trans (core_simple follows)
  | named name => exact (unwrapped (startsIn_name readable follows.wordEnd)).trans (core_named readable follows.wordEnd)
  | generic text => exact (unwrapped (startsIn_generic text follows.wordEnd)).trans (core_generic readable follows)

/-! ### Parameter types -/

theorem aggregate_shape (text : Option Name) (element : String) :
    ("AGGREGATE" ++ labelText text ++ " OF " ++ element).toList ++ k =
      "AGGREGATE".toList ++ ((labelText text).toList ++ ' ' :: ("OF".toList ++ ' ' :: (element.toList ++ k))) := by
  simp

theorem startsIn_param {type : ParamType} (readable : type.isReadable = true) (ends : atWordEnd k = true) :
    StartsIn typeWords (type.canonical.toList ++ k) := by
  cases type with
  | simple type => exact (startsIn_simple type ends).mono coreWords_subset
  | named name => exact (startsIn_name readable ends).mono coreWords_subset
  | generic text => exact (startsIn_generic text ends).mono coreWords_subset
  | collection kind bounds element => exact startsIn_collection _ element.canonical
  | aggregate text element =>
    rw [ParamType.canonical, aggregate_shape]
    exact ⟨_, .inl List.mem_cons_self, leadingWord_keyword (by decide) (atWordEnd_labelText rfl)⟩

theorem paramWrap_aggregate {text : Option Name} {element : String} (labelled : text.all (·.isIdentifier) = true)
    (starts : StartsIn typeWords (element.toList ++ k)) :
    paramWrap (("AGGREGATE" ++ labelText text ++ " OF " ++ element).toList ++ k) =
      some (.aggregate text, element.toList ++ k) := by
  rw [aggregate_shape]
  refine orElse_first (bind_takes (keyword_takes (by decide) (atWordEnd_labelText rfl)) ?_)
  refine bind_takes (maybe_label labelled rfl rfl) ?_
  refine bind_takes (token_keyword (by decide) rfl) ?_
  exact bind_takes (blanks_space starts.leading) rfl

theorem paramWrap_collection (kind : AggregateKind) {bounds : Option String} {element : String}
    (tight : bounds.all isTight = true) (starts : StartsIn typeWords (element.toList ++ k)) :
    paramWrap ((CollectionHead.canonical { kind, bounds } element).toList ++ k) =
      some (.collection kind bounds, element.toList ++ k) := by
  have other : kind.keyword ≠ "AGGREGATE" := by cases kind <;> decide
  have unaggregated : keyword "AGGREGATE" ((CollectionHead.canonical { kind, bounds } element).toList ++ k) = none := by
    obtain ⟨tail, shape, ends⟩ := @collection_shape k { kind, bounds } element
    rw [shape]
    exact keyword_fails (by decide) (startsOther_keyword (typeWords_subset _ (kind_mem_typeWords kind)) ends other)
  refine (orElse_second (bind_fails unaggregated)).trans ?_
  exact bind_takes (collectionHead_takes tight starts) rfl

theorem paramWrap_fails {cs : List Char} (starts : StartsIn coreWords cs) : paramWrap cs = none := by
  have unaggregated : keyword "AGGREGATE" cs = none :=
    keyword_fails (by decide) (starts.other (by decide) (by decide) (by decide))
  exact (orElse_second (bind_fails unaggregated)).trans (bind_fails (collectionHead_fails starts))

theorem paramType_takes {type : ParamType} (readable : type.isReadable = true) (follows : TypeEnds k) :
    paramType (type.canonical.toList ++ k) = some (type, k) := by
  have unwrapped {cs : List Char} (starts : StartsIn coreWords cs) : paramType cs = paramCore cs :=
    nested_core (paramWrap_fails starts)
  induction type with
  | simple type => exact (unwrapped (startsIn_simple type follows.wordEnd)).trans (core_simple follows)
  | named name => exact (unwrapped (startsIn_name readable follows.wordEnd)).trans (core_named readable follows.wordEnd)
  | generic text => exact (unwrapped (startsIn_generic text follows.wordEnd)).trans (core_generic readable follows)
  | collection kind bounds element ih =>
    obtain ⟨tight, inner⟩ := Bool.and_eq_true_iff.mp readable
    have wrapped := paramWrap_collection kind tight (startsIn_param inner follows.wordEnd)
    exact nested_wraps wrapped (collection_longer { kind, bounds } element.canonical) (ih inner)
  | aggregate text element ih =>
    obtain ⟨labelled, inner⟩ := Bool.and_eq_true_iff.mp readable
    refine nested_wraps (paramWrap_aggregate labelled (startsIn_param inner follows.wordEnd)) ?_ (ih inner)
    rw [ParamType.canonical, aggregate_shape]
    simp only [List.length_append, List.length_cons]
    omega

/-! ### Where types end -/

/-- Behind blanks comes a semicolon, a closing parenthesis or `:=`. -/
def closesType (k : List Char) : Bool :=
  [";", ")", ":="].any fun mark => mark.toList.isPrefixOf (k.dropWhile Text.isBlank)

/-- Between tokens, all blanks are skipped or one is left that is no layout. -/
theorem dropWhile_isLayout_cases (cs : List Char) :
    (∃ c tail, cs.dropWhile Text.isLayout = c :: tail ∧ Text.isBlank c = true) ∨
      cs.dropWhile Text.isLayout = cs.dropWhile Text.isBlank := by
  induction cs with
  | nil => exact .inr rfl
  | cons c cs ih =>
    by_cases layout : Text.isLayout c = true
    · rw [List.dropWhile_cons_of_pos layout, List.dropWhile_cons_of_pos (Text.isBlank_of_isLayout layout)]
      exact ih
    · rw [List.dropWhile_cons_of_neg layout]
      by_cases blank : Text.isBlank c = true
      · exact .inl ⟨c, cs, rfl, blank⟩
      · rw [List.dropWhile_cons_of_neg blank]
        exact .inr rfl

/-- The first character of a token behind a type neither goes on with a word nor opens a width, and a colon is that of
`:=`. -/
theorem exists_token_of_closesType (closes : closesType k = true) :
    ∃ c tail, k.dropWhile Text.isLayout = c :: tail ∧ Name.isPart c = false ∧ c ≠ '(' ∧
      (c = ':' → ∃ rest, tail = '=' :: rest) := by
  rcases dropWhile_isLayout_cases k with ⟨c, tail, shape, blank⟩ | shape
  · have unopened : c ≠ '(' := Text.ne_of_isBlank blank rfl
    have unlabelled : c ≠ ':' := Text.ne_of_isBlank blank rfl
    exact ⟨c, tail, shape, Name.isPart_of_isBlank blank, unopened, fun colon => absurd colon unlabelled⟩
  · obtain ⟨mark, listed, starts⟩ := List.any_eq_true.mp closes
    obtain ⟨rest, whole⟩ := List.isPrefixOf_iff_prefix.mp starts
    rw [shape, ← whole]
    simp only [List.mem_cons, List.not_mem_nil, or_false] at listed
    rcases listed with rfl | rfl | rfl
    · exact ⟨';', rest, rfl, rfl, by decide, fun colon => absurd colon (by decide)⟩
    · exact ⟨')', rest, rfl, rfl, by decide, fun colon => absurd colon (by decide)⟩
    · exact ⟨':', '=' :: rest, rfl, rfl, by decide, fun _ => ⟨rest, rfl⟩⟩

theorem typeEnds_of_closesType (closes : closesType k = true) : TypeEnds k := by
  obtain ⟨c, tail, shape, apart, narrow, assigned⟩ := exists_token_of_closesType closes
  constructor
  · -- The text may start with layout and not with the token, so its first character is looked at apart.
    cases k with
    | nil => rfl
    | cons d k =>
      have apart : Name.isPart d = false := by
        by_cases layout : Text.isLayout d = true
        · exact Name.isPart_of_isBlank (Text.isBlank_of_isLayout layout)
        · rw [List.dropWhile_cons_of_neg layout] at shape
          cases shape
          exact apart
      simp [atWordEnd, apart]
  · change char '(' (k.dropWhile Text.isLayout) = none
    rw [shape, char, if_neg narrow]
  · change (do char ':'; token ident : Parser Name) (k.dropWhile Text.isLayout) = none
    rw [shape]
    by_cases colon : c = ':'
    · obtain ⟨rest, rfl⟩ := assigned colon
      subst colon
      exact bind_fails_next char_takes rfl
    · exact bind_fails (if_neg colon)

/-- From the canonical text of a type and a text that closes it, the productions for types take the type and leave the
whole of that text. -/
theorem typeProductions_exact (k : List Char) (closes : closesType k = true) :
    (∀ type : ElementType, type.isReadable = true → elementType (type.canonical.toList ++ k) = some (type, k)) ∧
      ∀ type : ParamType, type.isReadable = true → paramType (type.canonical.toList ++ k) = some (type, k) := by
  have follows := typeEnds_of_closesType closes
  exact ⟨fun type readable => elementType_takes readable follows, fun type readable => paramType_takes readable follows⟩

/-- A collection of collections with flags and bounds. -/
def layers : ElementType :=
  .collection { kind := .list, bounds := some "1:n+1", unique := true }
    (.collection { kind := .array, bounds := none, optionalElements := true } (.generic none))

/-- An aggregate of collections of a type with a name that ends blocks. -/
def piles : ParamType :=
  .aggregate (some "of") (.collection .bag (some "0:?") (.named "End_Type"))

/-- The colon of `:=` is not taken for that of a label, and a label may be any word. -/
theorem layers_taken_exactly :
    (layers.canonical, piles.canonical) =
      ("LIST [1:n+1] OF UNIQUE ARRAY OF OPTIONAL GENERIC", "AGGREGATE : of OF BAG [0:?] OF End_Type") ∧
    elementType (layers.canonical.toList ++ "\n:= 4;".toList) = some (layers, "\n:= 4;".toList) ∧
    paramType (piles.canonical.toList ++ " ) : REAL;".toList) = some (piles, " ) : REAL;".toList) := by
  refine ⟨by decide +kernel, ?_, ?_⟩
  · exact (typeProductions_exact "\n:= 4;".toList (by decide +kernel)).1 layers (by decide +kernel)
  · exact (typeProductions_exact " ) : REAL;".toList (by decide +kernel)).2 piles (by decide +kernel)

/-! ### Right-hand sides of type declarations -/

theorem areWritable_iff {names : List Name} :
    areWritable names = true ↔ names ≠ [] ∧ ∀ name ∈ names, name.isWritable = true := by
  simp [areWritable]

theorem names_take {names : List Name} (writable : areWritable names = true) (ends : atWordEnd k = true)
    (stops : symbol ',' k = none) :
    sepBy1 (symbol ',') (token ident) ((", ".intercalate names).toList ++ k) = some (names, k) := by
  obtain ⟨nonempty, each⟩ := areWritable_iff.mp writable
  have reads : ∀ name ∈ names, ∀ next, atWordEnd next = true → token ident (name.toList ++ next) = some (name, next) :=
    fun name member next ends => token_ident (each name member) ends
  have taken := sepBy1_takes ", " id rfl rfl nonempty reads (fun _ => rfl) ends stops
  rwa [List.map_id] at taken

theorem leading_names {names : List Name} (writable : areWritable names = true) (ends : atWordEnd k = true) :
    leadingWord ((", ".intercalate names).toList ++ k) ≠ [] := by
  obtain ⟨nonempty, each⟩ := areWritable_iff.mp writable
  obtain ⟨first, others, rfl⟩ := List.exists_cons_of_ne_nil nonempty
  have named := each first List.mem_cons_self
  have behind : atWordEnd (others.flatMap (fun text => ", ".toList ++ text.toList) ++ k) = true := by
    cases others with
    | nil => exact ends
    | cons second others => rfl
  rw [toList_intercalate_cons, List.append_assoc, leadingWord_name named behind]
  exact Name.toList_ne_nil (Name.isIdentifier_of_isWritable named)

theorem nameList_takes {names : List Name} (writable : areWritable names = true) :
    nameList (' ' :: ((nameListText names).toList ++ k)) = some (names, k) := by
  have shape : (nameListText names).toList ++ k = '(' :: ((", ".intercalate names).toList ++ ')' :: k) := by
    simp [nameListText, parens]
  rw [shape]
  refine bind_takes (symbol_takes rfl) (bind_takes (names_take writable rfl rfl) ?_)
  exact bind_takes (symbol_takes rfl) rfl

theorem given_extensible {cs : List Char} (other : StartsOther "EXTENSIBLE" cs) :
    given extensible cs = some (false, cs) :=
  given_fails (bind_fails (keyword_fails (by decide) other))

theorem enumeration_shape (values : List Name) : ("ENUMERATION OF " ++ nameListText values).toList ++ k =
    "ENUMERATION".toList ++ ' ' :: ("OF".toList ++ ' ' :: ((nameListText values).toList ++ k)) := by
  simp

theorem enumerationType_takes {values : List Name} (writable : areWritable values = true) :
    enumerationType (("ENUMERATION OF " ++ nameListText values).toList ++ k) = some (values, k) := by
  rw [enumeration_shape]
  refine bind_takes (given_extensible (startsOther_keyword (by decide) rfl (by decide))) ?_
  refine bind_takes (keyword_takes (by decide) rfl) (bind_takes (token_keyword (by decide) rfl) ?_)
  exact nameList_takes writable

theorem enumerationType_fails {cs : List Char} (closed : StartsOther "EXTENSIBLE" cs)
    (other : StartsOther "ENUMERATION" cs) : enumerationType cs = none :=
  bind_fails_next (given_extensible closed) (bind_fails (keyword_fails (by decide) other))

theorem select_shape (alternatives : List Name) : ("SELECT " ++ nameListText alternatives).toList ++ k =
    "SELECT".toList ++ ' ' :: ((nameListText alternatives).toList ++ k) := by
  simp

theorem selectType_takes {alternatives : List Name} (writable : areWritable alternatives = true) :
    selectType (("SELECT " ++ nameListText alternatives).toList ++ k) = some (alternatives, k) := by
  rw [select_shape]
  refine bind_takes (given_extensible (startsOther_keyword (by decide) rfl (by decide))) ?_
  exact bind_takes (keyword_takes (by decide) rfl) (nameList_takes writable)

theorem selectType_fails {cs : List Char} (closed : StartsOther "EXTENSIBLE" cs) (other : StartsOther "SELECT" cs) :
    selectType cs = none :=
  bind_fails_next (given_extensible closed) (bind_fails (keyword_fails (by decide) other))

theorem isTight_of_areBounds {bounds : Option String} (fits : bounds.all areBounds = true) :
    bounds.all isTight = true := by
  cases bounds with
  | none => rfl
  | some bounds =>
    refine List.all_eq_true.mpr fun c member => ?_
    have drawn := List.all_eq_true.mp fits c member
    simp only [Bool.or_eq_true, beq_iff_eq] at drawn
    rcases drawn with (digit | rfl) | rfl
    · have part : Name.isPart c = true := by simp [Name.isPart, Char.isAlphanum, digit]
      have other : c ≠ ']' := by
        rintro rfl
        cases part
      simp [other, Name.isBlank_eq_false part]
    · decide
    · decide

theorem isIdentifier_of_labelled {label : Option Name} (writable : label.all (·.isWritable) = true) :
    label.all (·.isIdentifier) = true := by
  cases label with
  | none => rfl
  | some name => exact Name.isIdentifier_of_isWritable writable

theorem element_readable {type : ElementType} (writable : type.isWritable areBounds = true) : type.isReadable = true := by
  induction type with
  | collection head element ih =>
    obtain ⟨bounded, inner⟩ := Bool.and_eq_true_iff.mp writable
    exact Bool.and_eq_true_iff.mpr ⟨isTight_of_areBounds bounded, ih inner⟩
  | simple type => rfl
  | named name => exact Name.isNoneOf_of_isWritable writable typeKeywords_subset
  | generic text => exact isIdentifier_of_labelled writable

theorem param_readable {type : ParamType} (writable : type.isWritable areBounds = true) : type.isReadable = true := by
  induction type with
  | simple type => rfl
  | named name => exact Name.isNoneOf_of_isWritable writable typeKeywords_subset
  | generic text => exact isIdentifier_of_labelled writable
  | collection kind bounds element ih =>
    obtain ⟨bounded, inner⟩ := Bool.and_eq_true_iff.mp writable
    exact Bool.and_eq_true_iff.mpr ⟨isTight_of_areBounds bounded, ih inner⟩
  | aggregate text element ih =>
    obtain ⟨labelled, inner⟩ := Bool.and_eq_true_iff.mp writable
    exact Bool.and_eq_true_iff.mpr ⟨isIdentifier_of_labelled labelled, ih inner⟩

/-- Text that starts a type is no list of alternatives or values. -/
theorem typeBody_unlisted {cs : List Char} (starts : StartsIn typeWords cs) :
    typeBody cs = ((do let head ← collectionHead; return .collection head (← elementType)) <|>
      (do return .simple (← simpleType)) <|> (do return .named (← ident)) : Parser TypeBody) cs := by
  have other {word : String} (listed : word ∈ typeKeywords) (outside : word ∉ typeWords) : StartsOther word cs :=
    starts.other typeWords_subset listed outside
  have closed := other (by decide) (by decide : "EXTENSIBLE" ∉ typeWords)
  have unenumerated := enumerationType_fails closed (other (by decide) (by decide))
  have unselected := selectType_fails closed (other (by decide) (by decide))
  exact (orElse_second (bind_fails unenumerated)).trans (orElse_second (bind_fails unselected))

theorem typeBody_takes {body : TypeBody} (writable : body.isWritable = true) (follows : TypeEnds k) :
    typeBody (body.canonical.toList ++ k) = some (body, k) := by
  cases body with
  | simple type =>
    have starts := startsIn_simple type follows.wordEnd
    refine (typeBody_unlisted (starts.mono coreWords_subset)).trans ?_
    refine (orElse_second (bind_fails (collectionHead_fails starts))).trans ?_
    exact orElse_first (bind_takes (simpleType_takes follows) rfl)
  | collection head element =>
    obtain ⟨bounded, inner⟩ := Bool.and_eq_true_iff.mp writable
    have readable := element_readable inner
    have wrapped := collectionHead_takes (isTight_of_areBounds bounded) (startsIn_element readable follows.wordEnd)
    refine (typeBody_unlisted (startsIn_collection head element.canonical)).trans ?_
    exact orElse_first (bind_takes wrapped (bind_takes (elementType_takes readable follows) rfl))
  | named name =>
    have outside := Name.isNoneOf_of_isWritable writable typeKeywords_subset
    have starts := startsIn_name outside follows.wordEnd
    refine (typeBody_unlisted (starts.mono coreWords_subset)).trans ?_
    refine (orElse_second (bind_fails (collectionHead_fails starts))).trans ?_
    refine (orElse_second (bind_fails (simpleType_fails_name outside follows.wordEnd))).trans ?_
    exact bind_takes (ident_takes writable follows.wordEnd) rfl
  | enumeration values => exact orElse_first (bind_takes (enumerationType_takes writable) rfl)
  | select alternatives =>
    have unenumerated : enumerationType (("SELECT " ++ nameListText alternatives).toList ++ k) = none := by
      rw [select_shape]
      exact enumerationType_fails (startsOther_keyword (by decide) rfl (by decide))
        (startsOther_keyword (by decide) rfl (by decide))
    refine (orElse_second (bind_fails unenumerated)).trans ?_
    exact orElse_first (bind_takes (selectType_takes writable) rfl)

theorem leading_typeBody {body : TypeBody} (writable : body.isWritable = true) (ends : atWordEnd k = true) :
    leadingWord (body.canonical.toList ++ k) ≠ [] := by
  cases body with
  | simple type => exact ((startsIn_simple type ends).mono coreWords_subset).leading
  | collection head element => exact (startsIn_collection head element.canonical).leading
  | named name =>
    have outside := Name.isNoneOf_of_isWritable writable typeKeywords_subset
    exact ((startsIn_name outside ends).mono coreWords_subset).leading
  | enumeration values =>
    rw [TypeBody.canonical, enumeration_shape, leadingWord_keyword (by decide) rfl]
    decide
  | select alternatives =>
    rw [TypeBody.canonical, select_shape, leadingWord_keyword (by decide) rfl]
    decide

end

end Express.Reader.Grammar
