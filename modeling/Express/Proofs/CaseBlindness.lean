import Express.Proofs.UpperCase

/-!
# Reading in upper case

Keywords are read in any case and all other spelling is kept, so a text in upper case is read as the text itself, with
every spelling of the result in upper case. The statement goes through the parsers one by one: each takes the same
characters of both texts (`Parser.Mirrors`), and so does what is built from such parsers.
-/

namespace Express

/-! ### Schemas in upper case -/

def CollectionHead.upper (head : CollectionHead) : CollectionHead :=
  { head with bounds := head.bounds.map String.toUpper }

def ElementType.upper : ElementType → ElementType
  | .collection head element => .collection head.upper element.upper
  | .simple type => .simple type
  | .named name => .named name.toUpper
  | .generic label => .generic (label.map String.toUpper)

def ParamType.upper : ParamType → ParamType
  | .simple type => .simple type
  | .named name => .named name.toUpper
  | .generic label => .generic (label.map String.toUpper)
  | .collection kind bounds element => .collection kind (bounds.map String.toUpper) element.upper
  | .aggregate label element => .aggregate (label.map String.toUpper) element.upper

def TypeBody.upper : TypeBody → TypeBody
  | .simple type => .simple type
  | .collection head element => .collection head.upper element.upper
  | .named name => .named name.toUpper
  | .enumeration values => .enumeration (values.map String.toUpper)
  | .select alternatives => .select (alternatives.map String.toUpper)

def TypeDecl.upper (decl : TypeDecl) : TypeDecl where
  name := decl.name.toUpper
  body := decl.body.upper

def SupertypeClause.upper (clause : SupertypeClause) : SupertypeClause where
  isAbstract := clause.isAbstract
  choice := clause.choice.map (List.map String.toUpper)
  expression := clause.expression.map String.toUpper

def AttributeName.upper : AttributeName → AttributeName
  | .simple name => .simple name.toUpper
  | .qualified entity attr => .qualified entity.toUpper attr.toUpper

def ExplicitClause.upper (clause : ExplicitClause) : ExplicitClause where
  names := clause.names.map AttributeName.upper
  optional := clause.optional
  type := clause.type.upper

def DerivedClause.upper (clause : DerivedClause) : DerivedClause where
  name := clause.name.upper
  type := clause.type.upper
  expression := clause.expression.toUpper

def InverseAggregate.upper (aggregate : InverseAggregate) : InverseAggregate :=
  { aggregate with bounds := aggregate.bounds.map String.toUpper }

def InverseClause.upper (clause : InverseClause) : InverseClause where
  name := clause.name.upper
  aggregate := clause.aggregate.map InverseAggregate.upper
  entity := clause.entity.toUpper
  forAttr := clause.forAttr.toUpper

def EntityDecl.upper (decl : EntityDecl) : EntityDecl where
  name := decl.name.toUpper
  supertype := decl.supertype.map SupertypeClause.upper
  subtypeOf := decl.subtypeOf.map String.toUpper
  explicit := decl.explicit.map ExplicitClause.upper
  derived := decl.derived.map DerivedClause.upper
  inverse := decl.inverse.map InverseClause.upper

def ParameterClause.upper (clause : ParameterClause) : ParameterClause where
  names := clause.names.map String.toUpper
  type := clause.type.upper

def FunctionDecl.upper (decl : FunctionDecl) : FunctionDecl where
  name := decl.name.toUpper
  parameters := decl.parameters.map ParameterClause.upper
  returnType := decl.returnType.upper

def Declaration.upper : Declaration → Declaration
  | .type decl => .type decl.upper
  | .entity decl => .entity decl.upper
  | .function decl => .function decl.upper
  | .rule name => .rule name.toUpper

/-- The schema with its names, labels, bounds and expressions in upper case. -/
def Schema.upper (schema : Schema) : Schema where
  name := schema.name.toUpper
  declarations := schema.declarations.map Declaration.upper

/-- The same fault on the same line. Only the name of a malformed declaration is quoted as it is spelled. -/
def ReadError.upper : ReadError → ReadError
  | .malformed line kind declared => .malformed line kind declared.toUpper
  | fault => fault

namespace Reader

open Text

/-! ### Parsers on a text and on its upper-case form -/

namespace Parser

variable {α β γ δ : Type}

/-- On the upper-case form of any text, `q` does what `p` does on the text itself: both fail, or both succeed with
related results and stop at the same place. -/
def Mirrors (related : α → β → Prop) (p : Parser α) (q : Parser β) : Prop :=
  ∀ cs, (p cs = none ∧ q (upper cs) = none) ∨
    ∃ a b rest, p cs = some (a, rest) ∧ q (upper cs) = some (b, upper rest) ∧ related a b

/-- In upper case, `p` finds what it finds in the text itself, changed by `up`. -/
def Blind (up : α → α) (p : Parser α) : Prop :=
  Mirrors (fun a b => b = up a) p p

theorem Blind.of_eq {up : α → α} {p : Parser α} (same : ∀ cs, p (upper cs) = (p cs).map (Prod.map up upper)) :
    Blind up p := by
  intro cs
  rw [same]
  cases p cs with
  | none => exact .inl ⟨rfl, rfl⟩
  | some found => exact .inr ⟨found.1, up found.1, found.2, rfl, rfl, rfl⟩

theorem Blind.eq {up : α → α} {p : Parser α} (blind : Blind up p) (cs : List Char) :
    p (upper cs) = (p cs).map (Prod.map up upper) := by
  rcases blind cs with ⟨failed, image⟩ | ⟨a, _, rest, found, image, rfl⟩
  · rw [failed, image]
    rfl
  · rw [found, image]
    rfl

/-! ### Sequence and choice -/

section

variable {related : α → β → Prop} {further : γ → δ → Prop} {p p' : Parser α} {q q' : Parser β}
  {f : α → Parser γ} {g : β → Parser δ} {up : α → α}

theorem Mirrors.fails {cs : List Char} (alike : Mirrors related p q) (failed : p cs = none) : q (upper cs) = none := by
  rcases alike cs with ⟨-, image⟩ | ⟨a, b, rest, found, -, -⟩
  · exact image
  · rw [failed] at found
    cases found

theorem Mirrors.takes {cs rest : List Char} {a : α} (alike : Mirrors related p q) (found : p cs = some (a, rest)) :
    ∃ b, q (upper cs) = some (b, upper rest) ∧ related a b := by
  rcases alike cs with ⟨failed, -⟩ | ⟨_, b, _, found', image, results⟩
  · rw [failed] at found
    cases found
  · cases found.symm.trans found'
    exact ⟨b, image, results⟩

theorem Mirrors.pure {a : α} {b : β} (results : related a b) : Mirrors related (Pure.pure a : Parser α) (Pure.pure b) :=
  fun cs => .inr ⟨a, b, cs, rfl, rfl, results⟩

theorem Mirrors.fail : Mirrors related Parser.fail Parser.fail :=
  fun _ => .inl ⟨rfl, rfl⟩

theorem Mirrors.bind (first : Mirrors related p q) (next : ∀ a b, related a b → Mirrors further (f a) (g b)) :
    Mirrors further (p >>= f) (q >>= g) := by
  intro cs
  rcases first cs with ⟨failed, image⟩ | ⟨a, b, mid, found, image, results⟩
  · exact .inl ⟨bind_fails failed, bind_fails image⟩
  · rcases next a b results mid with ⟨failed, image'⟩ | ⟨c, d, rest, found', image', results'⟩
    · exact .inl ⟨bind_fails_next found failed, bind_fails_next image image'⟩
    · exact .inr ⟨c, d, rest, bind_takes found found', bind_takes image image', results'⟩

theorem Mirrors.orElse (first : Mirrors related p q) (second : Mirrors related p' q') :
    Mirrors related (p <|> p') (q <|> q') := by
  intro cs
  rcases first cs with ⟨failed, image⟩ | ⟨a, b, rest, found, image, results⟩
  · rw [orElse_second failed, orElse_second image]
    exact second cs
  · exact .inr ⟨a, b, rest, orElse_first found, orElse_first image, results⟩

theorem Blind.bind {f : α → Parser γ} {g : α → Parser δ} (first : Blind up p)
    (next : ∀ a, Mirrors further (f a) (g (up a))) : Mirrors further (p >>= f) (p >>= g) :=
  Mirrors.bind first fun a _ image => image ▸ next a

/-- A parser for one part, with what is made of it. -/
theorem Blind.map {up' : γ → γ} {make : α → γ} (part : Blind up p) (made : ∀ a, make (up a) = up' (make a)) :
    Blind up' (do return make (← p)) :=
  part.bind fun a => .pure (made a)

theorem Blind.maybe (part : Blind up p) : Blind (Option.map up) (maybe p) := by
  intro cs
  rcases part cs with ⟨failed, image⟩ | ⟨a, b, rest, found, image, rfl⟩
  · exact .inr ⟨none, none, cs, maybe_fails failed, maybe_fails image, rfl⟩
  · exact .inr ⟨some a, some (up a), rest, maybe_takes found, maybe_takes image, rfl⟩

theorem Blind.given (part : Blind up p) : Blind id (given p) := by
  intro cs
  rcases part cs with ⟨failed, image⟩ | ⟨a, b, rest, found, image, rfl⟩
  · exact .inr ⟨false, false, cs, given_fails failed, given_fails image, rfl⟩
  · exact .inr ⟨true, true, rest, given_takes found, given_takes image, rfl⟩

/-! ### Repetition -/

theorem Blind.many (round : Blind up p) : Blind (List.map up) (many p) := by
  refine .of_eq fun cs => ?_
  -- Upper case keeps lengths, so a round that takes nothing ends the repetition in both texts.
  fun_induction Parser.many p cs with
  | case1 cs failed => rw [Parser.many, round.eq, failed]; rfl
  | case2 cs a rest found shorter as rest' others ih =>
    rw [Parser.many, round.eq, found]
    dsimp only [Option.map_some, Prod.map]
    rw [length_upper, length_upper, if_pos shorter, ih, others]
    rfl
  | case3 cs a rest found shorter others ih =>
    rw [Parser.many, round.eq, found]
    dsimp only [Option.map_some, Prod.map]
    rw [length_upper, length_upper, if_pos shorter, ih, others]
    rfl
  | case4 cs a rest found idle =>
    rw [Parser.many, round.eq, found]
    dsimp only [Option.map_some, Prod.map]
    rw [length_upper, length_upper, if_neg idle]
    rfl

theorem Blind.many1 (round : Blind up p) : Blind (List.map up) (many1 p) := by
  refine round.bind fun first => ?_
  refine round.many.bind fun others => ?_
  exact .pure rfl

theorem Blind.sepBy1 {separator : Parser β} {up' : β → β} (round : Blind up p) (between : Blind up' separator) :
    Blind (List.map up) (sepBy1 separator p) := by
  refine round.bind fun first => ?_
  refine (Blind.many (between.bind fun _ => round)).bind fun others => ?_
  exact .pure rfl

theorem Blind.nested {wrap : Parser (α → α)} (core : Blind up p)
    (wraps : Mirrors (fun f g => ∀ a, g (up a) = up (f a)) wrap wrap) : Blind up (nested wrap p) := by
  refine .of_eq fun cs => ?_
  -- Where nothing can follow a wrap, the core is tried in its place, in both texts.
  fun_induction Parser.nested wrap p cs with
  | case1 cs unwrapped => rw [nested_core (wraps.fails unwrapped), core.eq]
  | case2 cs f mid outer shorter a rest inner ih =>
    obtain ⟨g, image, same⟩ := wraps.takes outer
    rw [Parser.nested, image]
    dsimp only
    rw [length_upper, length_upper, if_pos shorter, ih, inner]
    exact congrArg some (Prod.ext (same a) rfl)
  | case3 cs f mid outer shorter failed ih =>
    obtain ⟨g, image, -⟩ := wraps.takes outer
    rw [Parser.nested, image]
    dsimp only
    rw [length_upper, length_upper, if_pos shorter, ih, failed]
    exact core.eq cs
  | case4 cs f mid outer idle =>
    obtain ⟨g, image, -⟩ := wraps.takes outer
    rw [Parser.nested, image]
    dsimp only
    rw [length_upper, length_upper, if_neg idle]
    exact core.eq cs

end

/-! ### Words and marks -/

theorem takeWhile_blind {inClass : Char → Bool} (blind : ∀ c, inClass c.toUpper = inClass c) :
    Blind upper (takeWhile inClass) := by
  refine .of_eq fun cs => ?_
  rw [Parser.takeWhile, takeWhile_upper blind, dropWhile_upper blind]
  rfl

/-- Up to the next mark. -/
theorem takeWhile_ne_blind {mark : Char} (sign : mark.isAlpha = false) : Blind upper (takeWhile (· != mark)) :=
  takeWhile_blind fun c => congrArg (!·) (toUpper_beq sign c)

theorem rest_blind : Blind upper rest :=
  .of_eq fun _ => rfl

theorem char_blind {mark : Char} (sign : mark.isAlpha = false) : Blind id (char mark) := by
  refine .of_eq fun cs => ?_
  cases cs with
  | nil => rfl
  | cons c cs =>
    rw [upper_cons, char, char, if_congr (toUpper_eq_iff sign) rfl rfl]
    split <;> rfl

theorem blanks_blind : Blind id blanks := by
  refine .of_eq fun cs => ?_
  rw [blanks, dropWhile_upper isLayout_toUpper]
  rfl

theorem Blind.token {up : α → α} {p : Parser α} (blind : Blind up p) : Blind up (token p) :=
  Blind.bind blanks_blind fun _ => blind

theorem symbol_blind {mark : Char} (sign : mark.isAlpha = false) : Blind id (symbol mark) :=
  (char_blind sign).token

theorem keyword_blind (word : String) : Blind id (keyword word) := by
  refine .of_eq fun cs => ?_
  rw [keyword, keyword, dropWord?_upper]
  cases dropWord? word.toList cs with
  | none => rfl
  | some rest =>
    dsimp only [Option.map_some]
    rw [atWordEnd_upper]
    split <;> rfl

theorem ident_blind : Blind String.toUpper ident := by
  refine .of_eq fun cs => ?_
  cases cs with
  | nil => rfl
  | cons c cs =>
    rw [upper_cons, ident, ident, Name.isStart_toUpper, takeWhile_upper Name.isPart_toUpper,
      dropWhile_upper Name.isPart_toUpper]
    split
    · rw [← upper_cons, ofList_upper]
      rfl
    · rfl

theorem constant_blind (constants : List α) (word : α → String) : Blind id (constant constants word) := by
  induction constants with
  | nil => exact .fail
  | cons a constants ih =>
    refine Mirrors.orElse ?_ ih
    exact (keyword_blind (word a)).bind fun _ => .pure rfl

theorem parseAll_upper {up : α → α} {p : Parser α} (blind : Blind up p) (cs : List Char) :
    parseAll p (upper cs) = (parseAll p cs).map up := by
  rw [parseAll, parseAll, blind.eq]
  rcases p cs with _ | ⟨a, _ | ⟨c, rest⟩⟩ <;> rfl

theorem parseFront_upper {up : α → α} {p : Parser α} (blind : Blind up p) (cs : List Char) :
    parseFront p (upper cs) = (parseFront p cs).map up := by
  rw [parseFront, parseFront, blind.eq, Option.map_map, Option.map_map]
  rfl

end Parser

/-! ### Types -/

namespace Grammar

open Reader.Parser

theorem nameList_blind : Blind (List.map String.toUpper) nameList := by
  refine (symbol_blind rfl).bind fun _ => ?_
  refine ((Blind.token ident_blind).sepBy1 (symbol_blind rfl)).bind fun names => ?_
  refine (symbol_blind rfl).bind fun _ => ?_
  exact .pure rfl

theorem width_blind : Blind id width := by
  refine (symbol_blind rfl).bind fun _ => ?_
  refine (takeWhile_ne_blind rfl).bind fun _ => ?_
  refine (char_blind rfl).bind fun _ => ?_
  refine (keyword_blind _).token.given.bind fun _ => ?_
  exact .pure rfl

theorem simpleType_blind : Blind id simpleType := by
  refine (constant_blind _ _).bind fun type => ?_
  refine (Blind.given width_blind).bind fun _ => ?_
  exact .pure rfl

theorem bounds_blind : Blind String.toUpper bounds := by
  refine (symbol_blind rfl).bind fun _ => ?_
  refine (takeWhile_ne_blind rfl).bind fun text => ?_
  refine (char_blind rfl).bind fun _ => ?_
  refine .pure ?_
  rw [← ofList_upper, filter_upper fun c => congrArg (!·) (isBlank_toUpper c)]

theorem collectionHead_blind : Blind CollectionHead.upper collectionHead := by
  refine (constant_blind _ _).bind fun kind => ?_
  refine (Blind.maybe bounds_blind).bind fun bounds => ?_
  refine (keyword_blind _).token.bind fun _ => ?_
  refine (keyword_blind _).token.given.bind fun optionalElements => ?_
  refine (keyword_blind _).token.given.bind fun unique => ?_
  refine Blind.bind blanks_blind fun _ => ?_
  exact .pure rfl

theorem label_blind : Blind String.toUpper label := by
  refine (symbol_blind rfl).bind fun _ => ?_
  exact Blind.token ident_blind

theorem genericType_blind : Blind (Option.map String.toUpper) genericType := by
  refine (keyword_blind _).bind fun _ => ?_
  exact Blind.maybe label_blind

theorem elementCore_blind : Blind ElementType.upper elementCore := by
  refine .orElse (Blind.map simpleType_blind fun _ => rfl) ?_
  refine .orElse (Blind.map genericType_blind fun _ => rfl) ?_
  exact Blind.map ident_blind fun _ => rfl

theorem elementType_blind : Blind ElementType.upper elementType := by
  refine Blind.nested elementCore_blind ?_
  refine Blind.bind collectionHead_blind fun head => ?_
  exact .pure fun element => rfl

theorem paramWrap_mirrors : Mirrors (fun f g => ∀ type : ParamType, g type.upper = (f type).upper) paramWrap paramWrap := by
  refine .orElse ?_ ?_
  · refine (keyword_blind _).bind fun _ => ?_
    refine (Blind.maybe label_blind).bind fun label => ?_
    refine (keyword_blind _).token.bind fun _ => ?_
    refine Blind.bind blanks_blind fun _ => ?_
    exact .pure fun element => rfl
  · refine Blind.bind collectionHead_blind fun head => ?_
    exact .pure fun element => rfl

theorem paramCore_blind : Blind ParamType.upper paramCore := by
  refine .orElse (Blind.map simpleType_blind fun _ => rfl) ?_
  refine .orElse (Blind.map genericType_blind fun _ => rfl) ?_
  exact Blind.map ident_blind fun _ => rfl

theorem paramType_blind : Blind ParamType.upper paramType :=
  Blind.nested paramCore_blind paramWrap_mirrors

theorem extensible_blind : Blind id extensible := by
  refine (keyword_blind _).bind fun _ => ?_
  exact blanks_blind

theorem enumerationType_blind : Blind (List.map String.toUpper) enumerationType := by
  refine (Blind.given extensible_blind).bind fun _ => ?_
  refine (keyword_blind _).bind fun _ => ?_
  refine (keyword_blind _).token.bind fun _ => ?_
  exact nameList_blind

theorem selectType_blind : Blind (List.map String.toUpper) selectType := by
  refine (Blind.given extensible_blind).bind fun _ => ?_
  refine (keyword_blind _).bind fun _ => ?_
  exact nameList_blind

theorem typeBody_blind : Blind TypeBody.upper typeBody := by
  refine .orElse (Blind.map enumerationType_blind fun _ => rfl) ?_
  refine .orElse (Blind.map selectType_blind fun _ => rfl) ?_
  refine .orElse ?_ ?_
  · refine Blind.bind collectionHead_blind fun head => ?_
    refine Blind.bind elementType_blind fun element => ?_
    exact .pure rfl
  refine .orElse (Blind.map simpleType_blind fun _ => rfl) ?_
  exact Blind.map ident_blind fun _ => rfl

/-! ### Entities -/

theorem depth_toUpper (c : Char) (depth : Nat) :
    (if c.toUpper = '(' then depth + 1 else if c.toUpper = ')' then depth - 1 else depth) =
      if c = '(' then depth + 1 else if c = ')' then depth - 1 else depth :=
  if_congr (toUpper_eq_iff rfl) rfl (if_congr (toUpper_eq_iff rfl) rfl rfl)

theorem closing_blind (depth : Nat) : Blind upper (closing depth) := by
  refine .of_eq fun cs => ?_
  fun_induction closing depth cs with
  | case1 depth => rfl
  | case2 cs => rfl
  | case3 depth c cs inner deeper ih =>
    rw [upper_cons, closing, depth_toUpper, ih, Option.map_map, Option.map_map]
    · rfl
    · intro outermost closes
      exact inner outermost ((toUpper_eq_iff rfl).mp closes)

theorem parenthesised_blind : Blind upper parenthesised := by
  refine (char_blind rfl).bind fun _ => ?_
  exact closing_blind 0

theorem oneOf_blind : Blind (List.map String.toUpper) oneOf := by
  refine (keyword_blind _).token.bind fun _ => ?_
  exact nameList_blind

theorem subtypeExpression_blind : Blind upper subtypeExpression := by
  refine (keyword_blind _).token.bind fun _ => ?_
  exact Blind.token parenthesised_blind

theorem supertypeClause_blind : Blind SupertypeClause.upper supertypeClause := by
  refine (keyword_blind _).given.bind fun isAbstract => ?_
  refine (keyword_blind _).token.given.bind fun isSupertype => ?_
  dsimp only [id]
  split
  · refine (Blind.maybe subtypeExpression_blind).bind fun expression => ?_
    refine .pure ?_
    cases expression with
    | none => rfl
    | some text =>
      simp only [Option.map_some, Option.bind_some]
      rw [parseFront_upper oneOf_blind, singleSpaced_upper, ofList_upper]
      rfl
  · exact .fail

theorem subtypeClause_blind : Blind (List.map String.toUpper) subtypeClause := by
  refine (keyword_blind _).bind fun _ => ?_
  refine (keyword_blind _).token.bind fun _ => ?_
  exact nameList_blind

theorem attributeName_blind : Blind AttributeName.upper attributeName := by
  refine .orElse ?_ (Blind.map ident_blind fun _ => rfl)
  refine (keyword_blind _).bind fun _ => ?_
  refine (symbol_blind rfl).bind fun _ => ?_
  refine (Blind.token ident_blind).bind fun entity => ?_
  refine (symbol_blind rfl).bind fun _ => ?_
  refine (Blind.token ident_blind).bind fun attr => ?_
  exact .pure rfl

theorem explicitClause_blind : Blind ExplicitClause.upper explicitClause := by
  refine ((Blind.token attributeName_blind).sepBy1 (symbol_blind rfl)).bind fun names => ?_
  refine (symbol_blind rfl).bind fun _ => ?_
  refine (keyword_blind _).token.given.bind fun optional => ?_
  refine (Blind.token elementType_blind).bind fun type => ?_
  refine (symbol_blind rfl).bind fun _ => ?_
  exact .pure rfl

theorem bracketStep_toUpper (c : Char) : bracketStep c.toUpper = bracketStep c := by
  have sign : ∀ mark : Char, mark.isAlpha = false → (c.toUpper = mark ↔ c = mark) := fun mark sign => toUpper_eq_iff sign
  unfold bracketStep
  refine if_congr ?_ rfl (if_congr ?_ rfl rfl)
  · rw [sign '(' rfl, sign '[' rfl, sign '\x7b' rfl]
  · rw [sign ')' rfl, sign ']' rfl, sign '\x7d' rfl]

theorem expressionText_blind (quoted : Bool) (depth : Int) : Blind upper (expressionText quoted depth) := by
  refine .of_eq fun cs => ?_
  induction cs generalizing quoted depth with
  | nil => rfl
  | cons c cs ih =>
    rw [upper_cons, expressionText, expressionText, bracketStep_toUpper, quoted_toUpper]
    dsimp only
    rw [ih]
    by_cases ends : c = ';' ∧ !quoted ∧ depth ≤ 0
    · rw [if_pos ends, if_pos ⟨(toUpper_eq_iff rfl).mpr ends.1, ends.2⟩]
      rfl
    · rw [if_neg ends, if_neg fun same => ends ⟨(toUpper_eq_iff rfl).mp same.1, same.2⟩, Option.map_map, Option.map_map]
      rfl

theorem derivedClause_blind : Blind DerivedClause.upper derivedClause := by
  refine Blind.bind attributeName_blind fun name => ?_
  refine (symbol_blind rfl).bind fun _ => ?_
  refine (Blind.token elementType_blind).bind fun type => ?_
  refine (symbol_blind rfl).bind fun _ => ?_
  refine (char_blind rfl).bind fun _ => ?_
  refine (expressionText_blind false 0).token.bind fun text => ?_
  refine (char_blind rfl).bind fun _ => ?_
  refine .pure ?_
  rw [trimRight_upper, ofList_upper]
  rfl

theorem inverseAggregate_blind : Blind InverseAggregate.upper inverseAggregate := by
  refine (constant_blind _ _).bind fun kind => ?_
  refine (Blind.maybe bounds_blind).bind fun bounds => ?_
  refine (keyword_blind _).token.bind fun _ => ?_
  exact .pure rfl

theorem owner_blind : Blind id owner := by
  refine (Blind.token ident_blind).bind fun _ => ?_
  exact symbol_blind rfl

theorem inverseClause_blind : Blind InverseClause.upper inverseClause := by
  refine Blind.bind attributeName_blind fun name => ?_
  refine (symbol_blind rfl).bind fun _ => ?_
  refine (Blind.token inverseAggregate_blind).maybe.bind fun aggregate => ?_
  refine (Blind.token ident_blind).bind fun entity => ?_
  refine (keyword_blind _).token.bind fun _ => ?_
  refine (Blind.given owner_blind).bind fun _ => ?_
  refine (Blind.token ident_blind).bind fun forAttr => ?_
  refine (symbol_blind rfl).bind fun _ => ?_
  exact .pure rfl

/-! ### Declarations -/

theorem typeDecl_blind : Blind TypeDecl.upper typeDecl := by
  refine (keyword_blind _).bind fun _ => ?_
  refine (Blind.token ident_blind).bind fun name => ?_
  refine (symbol_blind rfl).bind fun _ => ?_
  refine (Blind.token typeBody_blind).bind fun body => ?_
  refine (symbol_blind rfl).bind fun _ => ?_
  refine Blind.bind blanks_blind fun _ => ?_
  refine (Blind.given ((keyword_blind _).bind fun _ => rest_blind)).bind fun _ => ?_
  exact .pure rfl

/-- The clauses behind a keyword that may be left out. -/
theorem section_blind {α : Type} {up : α → α} {p : Parser α} (word : String) (clause : Blind up p) :
    Blind (Option.map (List.map up)) (maybe (do token (keyword word); many1 (token p))) :=
  Blind.maybe ((keyword_blind word).token.bind fun _ => clause.token.many1)

theorem getD_map_nil {α : Type} (up : α → α) (found : Option (List α)) :
    (found.map (List.map up)).getD [] = (found.getD []).map up := by
  cases found <;> rfl

theorem constraints_blind : Blind id (keyword "UNIQUE" <|> keyword "WHERE") :=
  (keyword_blind _).orElse (keyword_blind _)

theorem entityDecl_blind : Blind EntityDecl.upper entityDecl := by
  refine (keyword_blind _).bind fun _ => ?_
  refine (Blind.token ident_blind).bind fun name => ?_
  refine (Blind.token supertypeClause_blind).maybe.bind fun supertype => ?_
  refine (Blind.token subtypeClause_blind).maybe.bind fun subtypeOf => ?_
  refine (symbol_blind rfl).bind fun _ => ?_
  refine (Blind.token explicitClause_blind).many.bind fun explicit => ?_
  refine (section_blind _ derivedClause_blind).bind fun derived => ?_
  refine (section_blind _ inverseClause_blind).bind fun inverse => ?_
  refine Blind.bind blanks_blind fun _ => ?_
  refine (Blind.given (Blind.bind constraints_blind fun _ => rest_blind)).bind fun _ => ?_
  refine .pure ?_
  simp only [EntityDecl.upper, getD_map_nil]

theorem parameterClause_blind : Blind ParameterClause.upper parameterClause := by
  refine ((Blind.token ident_blind).sepBy1 (symbol_blind rfl)).bind fun names => ?_
  refine (symbol_blind rfl).bind fun _ => ?_
  refine (Blind.token paramType_blind).bind fun type => ?_
  exact .pure rfl

theorem parameterList_blind : Blind (List.map ParameterClause.upper) parameterList := by
  refine (symbol_blind rfl).bind fun _ => ?_
  refine ((Blind.token parameterClause_blind).sepBy1 (symbol_blind rfl)).bind fun clauses => ?_
  refine (symbol_blind rfl).bind fun _ => ?_
  exact .pure rfl

theorem functionHead_blind : Blind FunctionDecl.upper functionHead := by
  refine (keyword_blind _).bind fun _ => ?_
  refine (Blind.token ident_blind).bind fun name => ?_
  refine (Blind.maybe parameterList_blind).bind fun parameters => ?_
  refine (symbol_blind rfl).bind fun _ => ?_
  refine (Blind.token paramType_blind).bind fun returnType => ?_
  refine (symbol_blind rfl).bind fun _ => ?_
  refine .pure ?_
  simp only [FunctionDecl.upper, getD_map_nil]

theorem ruleHead_blind : Blind String.toUpper ruleHead := by
  refine (keyword_blind _).bind fun _ => ?_
  exact Blind.token ident_blind

theorem version_blind : Blind id (do symbol '\''; let _ ← takeWhile (· != '\''); char '\'') := by
  refine (symbol_blind rfl).bind fun _ => ?_
  refine (takeWhile_ne_blind rfl).bind fun _ => ?_
  exact char_blind rfl

theorem schemaHeader_blind : Blind String.toUpper schemaHeader := by
  refine (keyword_blind _).bind fun _ => ?_
  refine (Blind.token ident_blind).bind fun name => ?_
  refine (Blind.given version_blind).bind fun _ => ?_
  refine Blind.bind blanks_blind fun _ => ?_
  exact .pure rfl

end Grammar

/-! ### The declarations of a text -/

theorem Block.declared_upper (block : Block) : block.upper.declared = block.declared.toUpper := by
  unfold Block.declared Block.upper
  dsimp only
  rw [words_upper, List.getElem?_map]
  cases (words block.text)[1]? with
  | none => decide +kernel
  | some word =>
    dsimp only [Option.map_some]
    rw [leadingWord_upper]
    cases leadingWord word with
    | nil => decide +kernel
    | cons c cs => exact ofList_upper (c :: cs)

theorem Block.declaration?_upper (block : Block) :
    block.upper.declaration? = (block.declaration?.map (Option.map Declaration.upper)).mapError ReadError.upper := by
  obtain ⟨kind, line, text⟩ := block
  have malformed : (Except.error (.malformed line kind (Block.upper ⟨kind, line, text⟩).declared) :
      Except ReadError (Option Declaration)) = .error (.malformed line kind (Block.declared ⟨kind, line, text⟩).toUpper) := by
    rw [Block.declared_upper]
  unfold Block.declaration?
  dsimp only [Block.upper] at malformed ⊢
  cases kind with
  | type =>
    rw [Parser.parseAll_upper Grammar.typeDecl_blind]
    cases Parser.parseAll Grammar.typeDecl text with
    | none => exact malformed
    | some decl => rfl
  | entity =>
    rw [Parser.parseAll_upper Grammar.entityDecl_blind]
    cases Parser.parseAll Grammar.entityDecl text with
    | none => exact malformed
    | some decl => rfl
  | function =>
    rw [Parser.parseFront_upper Grammar.functionHead_blind]
    cases Parser.parseFront Grammar.functionHead text with
    | none => exact malformed
    | some decl => rfl
  | rule =>
    rw [Parser.parseFront_upper Grammar.ruleHead_blind]
    cases Parser.parseFront Grammar.ruleHead text with
    | none => exact malformed
    | some name => rfl
  | procedure => rfl
  | constant => rfl
  | subtypeConstraint => rfl

theorem declarations_upper (blocks : List Block) (ending : Ending) :
    declarations (blocks.map Block.upper) ending =
      ((declarations blocks ending).map (List.map Declaration.upper)).mapError ReadError.upper := by
  induction blocks with
  | nil => cases ending <;> rfl
  | cons block blocks ih =>
    rw [List.map_cons, declarations, declarations, Block.declaration?_upper, ih]
    cases block.declaration? with
    | error fault => rfl
    | ok first =>
      cases declarations blocks ending with
      | error fault => rfl
      | ok others => cases first <;> rfl

theorem readPlain_upper (text : List Char) :
    readPlain (upper text) = ((readPlain text).map Schema.upper).mapError ReadError.upper := by
  rw [readPlain, readPlain, takeWhile_upper isBlank_toUpper, dropWhile_upper isBlank_toUpper, splitStatement_upper]
  cases splitStatement false (text.dropWhile isBlank) with
  | none => rfl
  | some pieces =>
    dsimp only [Option.map_some, Prod.map]
    rw [trim_upper, Parser.parseAll_upper Grammar.schemaHeader_blind]
    cases Parser.parseAll Grammar.schemaHeader (trim pieces.1) with
    | none => rfl
    | some name =>
      dsimp only [Option.map_some]
      rw [lineEnds_upper, lineEnds_upper, split_upper, declarations_upper]
      cases declarations (split _ pieces.2).1 (split _ pieces.2).2 <;> rfl

end Reader

/-- A text in upper case is read as the text itself, with every spelling of the result in upper case: both are schemas
of the same shape, or both have the same fault on the same line. -/
theorem Schema.read_toUpper (text : String) :
    Schema.read text.toUpper = ((Schema.read text).map Schema.upper).mapError ReadError.upper := by
  rw [Schema.read, Schema.read, Text.toList_toUpper, Reader.strip_upper, Reader.readPlain_upper]

example :
    Schema.read "schema s; entity e; a : optional set of t; end_entity; end_schema;" =
        .ok { name := "s", declarations := [.entity { name := "e", explicit :=
          [{ names := [.simple "a"], optional := true, type := .collection { kind := .set } (.named "t") }] }] } ∧
      Schema.read "schema s; entity e; a : optional set of t; end_entity; end_schema;".toUpper =
        .ok { name := "S", declarations := [.entity { name := "E", explicit :=
          [{ names := [.simple "A"], optional := true, type := .collection { kind := .set } (.named "T") }] }] } := by
  decide +kernel

end Express
