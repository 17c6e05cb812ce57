import Express.Proofs.Passage
import Express.Proofs.Tokens

/-!
# Spelling

Every name in a schema that is read from a text is an identifier, and every list of names that the grammar asks for has at
least one (`isSpelled_of_read`). It holds of each production as far as it holds of its parts.
-/

namespace Express

open Reader

/-! ### Spelled schemas -/

/-- Identifiers of a list that is not empty. -/
def areIdentifiers (names : List Name) : Bool :=
  !names.isEmpty && names.all (·.isIdentifier)

def ElementType.isSpelled : ElementType → Bool
  | .collection _ element => element.isSpelled
  | .simple _ => true
  | .named name => name.isIdentifier
  | .generic label => label.all (·.isIdentifier)

def ParamType.isSpelled : ParamType → Bool
  | .simple _ => true
  | .named name => name.isIdentifier
  | .generic label => label.all (·.isIdentifier)
  | .collection _ _ element => element.isSpelled
  | .aggregate label element => label.all (·.isIdentifier) && element.isSpelled

def TypeBody.isSpelled : TypeBody → Bool
  | .simple _ => true
  | .collection _ element => element.isSpelled
  | .named name => name.isIdentifier
  | .enumeration values => areIdentifiers values
  | .select alternatives => areIdentifiers alternatives

def SupertypeClause.isSpelled (clause : SupertypeClause) : Bool :=
  clause.choice.all areIdentifiers

def AttributeName.isSpelled : AttributeName → Bool
  | .simple name => name.isIdentifier
  | .qualified entity attr => entity.isIdentifier && attr.isIdentifier

def ExplicitClause.isSpelled (clause : ExplicitClause) : Bool :=
  !clause.names.isEmpty && clause.names.all (·.isSpelled) && clause.type.isSpelled

def DerivedClause.isSpelled (clause : DerivedClause) : Bool :=
  clause.name.isSpelled && clause.type.isSpelled

def InverseClause.isSpelled (clause : InverseClause) : Bool :=
  clause.name.isSpelled && clause.entity.isIdentifier && clause.forAttr.isIdentifier

def EntityDecl.isSpelled (decl : EntityDecl) : Bool :=
  decl.name.isIdentifier && decl.supertype.all (·.isSpelled) && decl.subtypeOf.all (·.isIdentifier) &&
    decl.explicit.all (·.isSpelled) && decl.derived.all (·.isSpelled) && decl.inverse.all (·.isSpelled)

def ParameterClause.isSpelled (clause : ParameterClause) : Bool :=
  areIdentifiers clause.names && clause.type.isSpelled

def Declaration.isSpelled : Declaration → Bool
  | .type decl => decl.name.isIdentifier && decl.body.isSpelled
  | .entity decl => decl.isSpelled
  | .function decl => decl.name.isIdentifier && decl.parameters.all (·.isSpelled) && decl.returnType.isSpelled
  | .rule name => name.isIdentifier

/-- Every name of the schema is an identifier, and no list of names that the grammar asks for is empty. -/
def Schema.isSpelled (schema : Schema) : Bool :=
  schema.name.isIdentifier && schema.declarations.all (·.isSpelled)

/-! ### What parsers give -/

namespace Reader.Parser

variable {α β : Type} {fits : α → Prop} {fits' : β → Prop} {p q : Parser α} {f : α → Parser β}

/-- Whatever the parser finds is as asked for. -/
def Gives (fits : α → Prop) (p : Parser α) : Prop :=
  ∀ cs a rest, p cs = some (a, rest) → fits a

theorem Gives.any (p : Parser α) : Gives (fun _ => True) p :=
  fun _ _ _ _ => trivial

theorem Gives.pure {a : α} (fit : fits a) : Gives fits (Pure.pure a : Parser α) := by
  intro cs b rest found
  cases found
  exact fit

theorem Gives.fail : Gives fits (Parser.fail : Parser α) := by
  intro cs a rest found
  cases found

theorem Gives.bind (first : Gives fits p) (next : ∀ a, fits a → Gives fits' (f a)) : Gives fits' (p >>= f) := by
  intro cs b rest found
  cases part : p cs with
  | none =>
    rw [bind_fails part] at found
    cases found
  | some pair =>
    obtain ⟨a, mid⟩ := pair
    dsimp only [Bind.bind] at found
    rw [part] at found
    exact next a (first cs a mid part) mid b rest found

/-- A part that leaves no trace in the result. -/
theorem Gives.after (p : Parser α) (next : ∀ a, Gives fits' (f a)) : Gives fits' (p >>= f) :=
  (Gives.any p).bind fun a _ => next a

theorem Gives.orElse (first : Gives fits p) (second : Gives fits q) : Gives fits (p <|> q) := by
  intro cs a rest found
  cases part : p cs with
  | none =>
    rw [orElse_second part] at found
    exact second cs a rest found
  | some pair =>
    rw [orElse_first part] at found
    cases found
    exact first cs _ _ part

section

variable {holds : α → Bool} (part : Gives (fun a => holds a = true) p)
include part

theorem Gives.maybe : Gives (fun found => found.all holds = true) (maybe p) := by
  intro cs found rest taken
  cases read : p cs with
  | none =>
    rw [maybe_fails read] at taken
    cases taken
    rfl
  | some pair =>
    rw [maybe_takes read] at taken
    cases taken
    exact part cs _ _ read

theorem Gives.many : Gives (fun items => items.all holds = true) (many p) := by
  intro cs items rest found
  fun_induction Parser.many p cs generalizing items rest with
  | case1 cs failed => cases found; rfl
  | case2 cs a mid read shorter others rest' more ih =>
    cases found
    exact Bool.and_eq_true_iff.mpr ⟨part cs a mid read, ih others rest' more⟩
  | case3 cs a mid read shorter more ih => cases found
  | case4 cs a mid read idle => cases found; rfl

theorem Gives.many1 : Gives (fun items => items.all holds = true) (many1 p) := by
  refine part.bind fun first fit => ?_
  refine part.many.bind fun others fits => ?_
  exact .pure (Bool.and_eq_true_iff.mpr ⟨fit, fits⟩)

theorem Gives.sepBy1 (separator : Parser β) :
    Gives (fun items => (!items.isEmpty && items.all holds) = true) (sepBy1 separator p) := by
  refine part.bind fun first fit => ?_
  refine (Gives.many (.after separator fun _ => part)).bind fun others fits => ?_
  exact .pure (Bool.and_eq_true_iff.mpr ⟨rfl, Bool.and_eq_true_iff.mpr ⟨fit, fits⟩⟩)

end

theorem Gives.nested {wrap : Parser (α → α)} (core : Gives fits p)
    (wraps : Gives (fun f => ∀ a, fits a → fits (f a)) wrap) : Gives fits (nested wrap p) := by
  intro cs a rest found
  fun_induction Parser.nested wrap p cs generalizing a rest with
  | case1 cs unwrapped => exact core cs a rest found
  | case2 cs f mid outer shorter b rest' inner ih =>
    cases found
    exact wraps cs f mid outer b (ih b rest' inner)
  | case3 cs f mid outer shorter failed ih => exact core cs a rest found
  | case4 cs f mid outer idle => exact core cs a rest found

theorem Gives.token (part : Gives fits p) : Gives fits (token p) :=
  .after blanks fun _ => part

theorem ident_gives : Gives (fun name : Name => name.isIdentifier = true) ident := by
  intro cs name rest found
  cases cs with
  | nil => cases found
  | cons c cs =>
    rw [ident] at found
    split at found
    · rename_i start
      cases found
      rw [Name.isIdentifier, String.toList_ofList]
      exact Bool.and_eq_true_iff.mpr ⟨start, List.all_takeWhile⟩
    · cases found

theorem Gives.parseAll {cs : List Char} {a : α} (part : Gives fits p) (found : parseAll p cs = some a) : fits a := by
  rw [Parser.parseAll] at found
  cases read : p cs with
  | none => rw [read] at found; cases found
  | some pair =>
    obtain ⟨b, _ | ⟨c, rest⟩⟩ := pair
    · rw [read] at found
      cases found
      exact part cs a [] read
    · rw [read] at found
      cases found

theorem Gives.parseFront {cs : List Char} {a : α} (part : Gives fits p) (found : parseFront p cs = some a) : fits a := by
  obtain ⟨⟨b, rest⟩, read, same⟩ := Option.map_eq_some_iff.mp found
  exact same ▸ part cs b rest read

end Reader.Parser

/-! ### Productions -/

namespace Reader.Grammar

open Reader.Parser

theorem nameList_gives : Gives (fun names => areIdentifiers names = true) nameList := by
  refine .after _ fun _ => ?_
  refine .bind (.sepBy1 (.token ident_gives) _) fun names spelled => ?_
  refine .after _ fun _ => ?_
  exact .pure spelled

theorem label_gives : Gives (fun name : Name => name.isIdentifier = true) label :=
  .after _ fun _ => .token ident_gives

theorem genericType_gives : Gives (fun label => label.all Name.isIdentifier = true) genericType :=
  .after _ fun _ => .maybe label_gives

theorem elementCore_gives : Gives (fun type => type.isSpelled = true) elementCore := by
  refine .orElse (.after _ fun _ => .pure rfl) ?_
  refine .orElse (.bind genericType_gives fun label spelled => .pure spelled) ?_
  exact .bind ident_gives fun name spelled => .pure spelled

theorem elementType_gives : Gives (fun type => type.isSpelled = true) elementType := by
  refine .nested elementCore_gives ?_
  refine .after _ fun head => ?_
  exact .pure fun element spelled => spelled

theorem paramCore_gives : Gives (fun type => type.isSpelled = true) paramCore := by
  refine .orElse (.after _ fun _ => .pure rfl) ?_
  refine .orElse (.bind genericType_gives fun label spelled => .pure spelled) ?_
  exact .bind ident_gives fun name spelled => .pure spelled

theorem paramType_gives : Gives (fun type => type.isSpelled = true) paramType := by
  refine .nested paramCore_gives (.orElse ?_ ?_)
  · refine .after _ fun _ => ?_
    refine .bind (.maybe label_gives) fun label labelled => ?_
    refine .after _ fun _ => ?_
    refine .after _ fun _ => ?_
    exact .pure fun element spelled => Bool.and_eq_true_iff.mpr ⟨labelled, spelled⟩
  · refine .after _ fun head => ?_
    exact .pure fun element spelled => spelled

theorem enumerationType_gives : Gives (fun values => areIdentifiers values = true) enumerationType := by
  refine .after _ fun _ => ?_
  refine .after _ fun _ => ?_
  refine .after _ fun _ => ?_
  exact nameList_gives

theorem selectType_gives : Gives (fun alternatives => areIdentifiers alternatives = true) selectType := by
  refine .after _ fun _ => ?_
  refine .after _ fun _ => ?_
  exact nameList_gives

theorem typeBody_gives : Gives (fun body => body.isSpelled = true) typeBody := by
  refine .orElse (.bind enumerationType_gives fun values spelled => .pure spelled) ?_
  refine .orElse (.bind selectType_gives fun alternatives spelled => .pure spelled) ?_
  refine .orElse ?_ ?_
  · refine .after _ fun head => ?_
    exact .bind elementType_gives fun element spelled => .pure spelled
  refine .orElse (.after _ fun _ => .pure rfl) ?_
  exact .bind ident_gives fun name spelled => .pure spelled

theorem typeDecl_gives :
    Gives (fun decl => (decl.name.isIdentifier && decl.body.isSpelled) = true) typeDecl := by
  refine .after _ fun _ => ?_
  refine .bind (.token ident_gives) fun name named => ?_
  refine .after _ fun _ => ?_
  refine .bind (.token typeBody_gives) fun body spelled => ?_
  refine .after _ fun _ => ?_
  refine .after _ fun _ => ?_
  refine .after _ fun _ => ?_
  exact .pure (Bool.and_eq_true_iff.mpr ⟨named, spelled⟩)

/-- The names of a choice are read a second time, from the text of the expression. -/
theorem supertypeClause_gives : Gives (fun clause => clause.isSpelled = true) supertypeClause := by
  refine .after _ fun isAbstract => ?_
  refine .after _ fun isSupertype => ?_
  split
  · refine .after _ fun expression => ?_
    refine .pure ?_
    have oneOf_gives : Gives (fun names => areIdentifiers names = true) oneOf := .after _ fun _ => nameList_gives
    rw [SupertypeClause.isSpelled]
    cases expression with
    | none => rfl
    | some text =>
      dsimp only [Option.bind_some]
      cases found : parseFront oneOf text with
      | none => rfl
      | some names => exact oneOf_gives.parseFront found
  · exact .fail

theorem subtypeClause_gives : Gives (fun names => areIdentifiers names = true) subtypeClause := by
  refine .after _ fun _ => ?_
  refine .after _ fun _ => ?_
  exact nameList_gives

theorem attributeName_gives : Gives (fun name => name.isSpelled = true) attributeName := by
  refine .orElse ?_ (.bind ident_gives fun name spelled => .pure spelled)
  refine .after _ fun _ => ?_
  refine .after _ fun _ => ?_
  refine .bind (.token ident_gives) fun entity qualified => ?_
  refine .after _ fun _ => ?_
  refine .bind (.token ident_gives) fun attr spelled => ?_
  exact .pure (Bool.and_eq_true_iff.mpr ⟨qualified, spelled⟩)

theorem explicitClause_gives : Gives (fun clause => clause.isSpelled = true) explicitClause := by
  refine .bind (.sepBy1 (.token attributeName_gives) _) fun names spelled => ?_
  refine .after _ fun _ => ?_
  refine .after _ fun optional => ?_
  refine .bind (.token elementType_gives) fun type typed => ?_
  refine .after _ fun _ => ?_
  exact .pure (Bool.and_eq_true_iff.mpr ⟨spelled, typed⟩)

theorem derivedClause_gives : Gives (fun clause => clause.isSpelled = true) derivedClause := by
  refine .bind attributeName_gives fun name spelled => ?_
  refine .after _ fun _ => ?_
  refine .bind (.token elementType_gives) fun type typed => ?_
  refine .after _ fun _ => ?_
  refine .after _ fun _ => ?_
  refine .after _ fun text => ?_
  refine .after _ fun _ => ?_
  exact .pure (Bool.and_eq_true_iff.mpr ⟨spelled, typed⟩)

theorem inverseClause_gives : Gives (fun clause => clause.isSpelled = true) inverseClause := by
  refine .bind attributeName_gives fun name spelled => ?_
  refine .after _ fun _ => ?_
  refine .after _ fun aggregate => ?_
  refine .bind (.token ident_gives) fun entity named => ?_
  refine .after _ fun _ => ?_
  refine .after _ fun _ => ?_
  refine .bind (.token ident_gives) fun forAttr answered => ?_
  refine .after _ fun _ => ?_
  exact .pure (Bool.and_eq_true_iff.mpr ⟨Bool.and_eq_true_iff.mpr ⟨spelled, named⟩, answered⟩)

theorem all_getD {α : Type} {holds : α → Bool} {found : Option (List α)} (all : found.all (·.all holds) = true) :
    (found.getD []).all holds = true := by
  cases found with
  | none => rfl
  | some items => exact all

theorem entityDecl_gives : Gives (fun decl => decl.isSpelled = true) entityDecl := by
  refine .after _ fun _ => ?_
  refine .bind (.token ident_gives) fun name named => ?_
  refine .bind (.maybe (.token supertypeClause_gives)) fun supertype above => ?_
  refine .bind (.maybe (.token subtypeClause_gives)) fun subtypeOf below => ?_
  refine .after _ fun _ => ?_
  refine .bind (.many (.token explicitClause_gives)) fun explicit stored => ?_
  refine .bind (.maybe (.after _ fun _ => .many1 (.token derivedClause_gives))) fun derived computed => ?_
  refine .bind (.maybe (.after _ fun _ => .many1 (.token inverseClause_gives))) fun inverse shown => ?_
  refine .after _ fun _ => ?_
  refine .after _ fun _ => ?_
  refine .pure ?_
  simp only [EntityDecl.isSpelled, Bool.and_eq_true]
  refine ⟨⟨⟨⟨⟨named, above⟩, ?_⟩, stored⟩, all_getD computed⟩, all_getD shown⟩
  cases subtypeOf with
  | none => rfl
  | some names => exact (Bool.and_eq_true_iff.mp below).2

theorem parameterClause_gives : Gives (fun clause => clause.isSpelled = true) parameterClause := by
  refine .bind (.sepBy1 (.token ident_gives) _) fun names spelled => ?_
  refine .after _ fun _ => ?_
  refine .bind (.token paramType_gives) fun type typed => ?_
  exact .pure (Bool.and_eq_true_iff.mpr ⟨spelled, typed⟩)

theorem parameterList_gives : Gives (fun clauses => clauses.all ParameterClause.isSpelled = true) parameterList := by
  refine .after _ fun _ => ?_
  refine .bind (.sepBy1 (.token parameterClause_gives) _) fun clauses spelled => ?_
  refine .after _ fun _ => ?_
  exact .pure (Bool.and_eq_true_iff.mp spelled).2

theorem functionHead_gives : Gives (fun decl => (Declaration.function decl).isSpelled = true) functionHead := by
  refine .after _ fun _ => ?_
  refine .bind (.token ident_gives) fun name named => ?_
  refine .bind (.maybe parameterList_gives) fun parameters spelled => ?_
  refine .after _ fun _ => ?_
  refine .bind (.token paramType_gives) fun returnType typed => ?_
  refine .after _ fun _ => ?_
  refine .pure ?_
  simp only [Declaration.isSpelled, Bool.and_eq_true]
  exact ⟨⟨named, all_getD spelled⟩, typed⟩

theorem ruleHead_gives : Gives (fun name : Name => name.isIdentifier = true) ruleHead :=
  .after _ fun _ => .token ident_gives

theorem schemaHeader_gives : Gives (fun name : Name => name.isIdentifier = true) schemaHeader := by
  refine .after _ fun _ => ?_
  refine .bind (.token ident_gives) fun name named => ?_
  refine .after _ fun _ => ?_
  refine .after _ fun _ => ?_
  exact .pure named

end Reader.Grammar

/-! ### Blocks and texts -/

namespace Reader

theorem Block.declaration?_spelled {block : Block} {found : Option Declaration}
    (read : block.declaration? = .ok found) : found.all (·.isSpelled) = true := by
  obtain ⟨kind, line, text⟩ := block
  have spelled {α : Type} (wrap : α → Declaration) {parsed : Option α} {fault : ReadError}
      (fits : ∀ a, parsed = some a → (wrap a).isSpelled = true)
      (read : (match parsed.map (some ∘ wrap) with
        | some declaration => Except.ok declaration
        | none => .error fault) = .ok found) : found.all (·.isSpelled) = true := by
    cases parsed with
    | none => cases read
    | some a => cases read; exact fits a rfl
  unfold Block.declaration? at read
  cases kind with
  | type => exact spelled .type (fun _ parsed => Grammar.typeDecl_gives.parseAll parsed) read
  | entity => exact spelled .entity (fun _ parsed => Grammar.entityDecl_gives.parseAll parsed) read
  | function => exact spelled .function (fun _ parsed => Grammar.functionHead_gives.parseFront parsed) read
  | rule => exact spelled .rule (fun _ parsed => Grammar.ruleHead_gives.parseFront parsed) read
  | procedure => cases read; rfl
  | constant => cases read; rfl
  | subtypeConstraint => cases read; rfl

theorem declarations_spelled {blocks : List Block} {ending : Ending} {found : List Declaration}
    (read : declarations blocks ending = .ok found) : found.all (·.isSpelled) = true := by
  induction blocks generalizing found with
  | nil =>
    rw [declarations] at read
    cases fault : ReadError.ofEnding? ending with
    | none => rw [fault] at read; cases read; rfl
    | some fault' => rw [fault] at read; cases read
  | cons block blocks ih =>
    rw [declarations] at read
    cases first : block.declaration? with
    | error fault => rw [first] at read; cases read
    | ok decl =>
      cases others : declarations blocks ending with
      | error fault => rw [first, others] at read; cases read
      | ok decls =>
        rw [first, others] at read
        cases read
        rw [List.all_append, ih others, Bool.and_true]
        cases decl with
        | none => rfl
        | some decl => exact Bool.and_eq_true_iff.mpr ⟨Block.declaration?_spelled first, rfl⟩

end Reader

theorem Schema.isSpelled_of_read {text : String} {schema : Schema} (found : Schema.read text = .ok schema) :
    schema.isSpelled = true := by
  rcases readPlain_cases (strip .plain text.toList) with unheaded | ⟨header, body, name, -, named, read⟩
  · rw [Schema.read, unheaded] at found
    cases found
  · rw [Schema.read, read] at found
    cases inside : declarationsFrom _ body with
    | error fault => rw [inside] at found; cases found
    | ok decls =>
      rw [inside] at found
      cases found
      exact Bool.and_eq_true_iff.mpr ⟨Grammar.schemaHeader_gives.parseAll named, declarations_spelled inside⟩

end Express
