import Express.Schema
import Express.Reader.Parser

/-!
# The grammar of declarations

One parser for each production. Constraint clauses and function bodies are taken without being looked at.
-/

namespace Express.Reader.Grammar

open Reader.Parser

/-! ### Types -/

/-- `(a, b, c)` -/
def nameList : Parser (List Name) := do
  symbol '('
  let names ← sepBy1 (symbol ',') (token ident)
  symbol ')'
  return names

/-- The width of a string or the precision of a number. -/
def width : Parser Unit := do
  symbol '('
  let _ ← takeWhile (· != ')')
  char ')'
  let _ ← given (token (keyword "FIXED"))

def simpleType : Parser SimpleType := do
  let type ← constant SimpleType.all SimpleType.keyword
  let _ ← given width
  return type

def bounds : Parser String := do
  symbol '['
  let text ← takeWhile (· != ']')
  char ']'
  return String.ofList (text.filter (!Text.isBlank ·))

/-- A collection type up to its element type. -/
def collectionHead : Parser CollectionHead := do
  let kind ← constant AggregateKind.all AggregateKind.keyword
  let bounds ← maybe bounds
  token (keyword "OF")
  let optionalElements ← given (token (keyword "OPTIONAL"))
  let unique ← given (token (keyword "UNIQUE"))
  blanks
  return { kind, bounds, optionalElements, unique }

/-- A colon and the label behind it. -/
def label : Parser Name := do
  symbol ':'
  token ident

def genericType : Parser (Option Name) := do
  keyword "GENERIC"
  maybe label

def elementCore : Parser ElementType :=
  (do return .simple (← simpleType)) <|> (do return .generic (← genericType)) <|> (do return .named (← ident))

def elementType : Parser ElementType :=
  nested (do return .collection (← collectionHead)) elementCore

/-- An `AGGREGATE` or collection up to its element type. -/
def paramWrap : Parser (ParamType → ParamType) :=
  (do
    keyword "AGGREGATE"
    let label ← maybe label
    token (keyword "OF")
    blanks
    return .aggregate label) <|>
  (do
    let head ← collectionHead
    return .collection head.kind head.bounds)

def paramCore : Parser ParamType :=
  (do return .simple (← simpleType)) <|> (do return .generic (← genericType)) <|> (do return .named (← ident))

def paramType : Parser ParamType :=
  nested paramWrap paramCore

def extensible : Parser Unit := do
  keyword "EXTENSIBLE"
  blanks

def enumerationType : Parser (List Name) := do
  let _ ← given extensible
  keyword "ENUMERATION"
  token (keyword "OF")
  nameList

def selectType : Parser (List Name) := do
  let _ ← given extensible
  keyword "SELECT"
  nameList

def typeBody : Parser TypeBody :=
  (do return .enumeration (← enumerationType)) <|>
  (do return .select (← selectType)) <|>
  (do
    let head ← collectionHead
    return .collection head (← elementType)) <|>
  (do return .simple (← simpleType)) <|>
  (do return .named (← ident))

/-! ### Entities -/

/-- The text up to the parenthesis that closes one already opened, with `depth` more to be closed before it. -/
def closing : Nat → Parser (List Char)
  | _, [] => none
  | 0, ')' :: cs => some ([], cs)
  | depth, c :: cs =>
    let depth := if c = '(' then depth + 1 else if c = ')' then depth - 1 else depth
    (closing depth cs).map fun (inner, rest) => (c :: inner, rest)

/-- The text between balanced parentheses. -/
def parenthesised : Parser (List Char) := do
  char '('
  closing 0

/-- The names of a leading `ONEOF (…)`. -/
def oneOf : Parser (List Name) := do
  token (keyword "ONEOF")
  nameList

def subtypeExpression : Parser (List Char) := do
  token (keyword "OF")
  token parenthesised

def supertypeClause : Parser SupertypeClause := do
  let isAbstract ← given (keyword "ABSTRACT")
  let isSupertype ← given (token (keyword "SUPERTYPE"))
  if isAbstract || isSupertype then
    let expression ← maybe subtypeExpression
    return {
      isAbstract
      choice := expression.bind (parseFront oneOf)
      expression := expression.map fun text => String.ofList (Text.singleSpaced text) }
  else fail

def subtypeClause : Parser (List Name) := do
  keyword "SUBTYPE"
  token (keyword "OF")
  nameList

def attributeName : Parser AttributeName :=
  (do
    keyword "SELF"
    symbol '\\'
    let entity ← token ident
    symbol '.'
    let attr ← token ident
    return .qualified entity attr) <|>
  (do return .simple (← ident))

def explicitClause : Parser ExplicitClause := do
  let names ← sepBy1 (symbol ',') (token attributeName)
  symbol ':'
  let optional ← given (token (keyword "OPTIONAL"))
  let type ← token elementType
  symbol ';'
  return { names, optional, type }

/-- By how much a character changes the bracket depth. -/
def bracketStep (c : Char) : Int :=
  if c = '(' ∨ c = '[' ∨ c = '\x7b' then 1
  else if c = ')' ∨ c = ']' ∨ c = '\x7d' then -1
  else 0

/-- The text up to the semicolon that ends an expression: one outside string literals and brackets. -/
def expressionText (quoted : Bool) (depth : Int) : Parser (List Char)
  | [] => none
  | c :: cs =>
    if c = ';' ∧ !quoted ∧ depth ≤ 0 then some ([], c :: cs)
    else
      let depth := if quoted then depth else depth + bracketStep c
      let quoted := if c = '\'' then !quoted else quoted
      (expressionText quoted depth cs).map fun (text, rest) => (c :: text, rest)

def derivedClause : Parser DerivedClause := do
  let name ← attributeName
  symbol ':'
  let type ← token elementType
  symbol ':'
  char '='
  let text ← token (expressionText false 0)
  char ';'
  return { name, type, expression := String.ofList (Text.trimRight text) }

def inverseAggregate : Parser InverseAggregate := do
  let kind ← constant [.set, .bag] AggregateKind.keyword
  let bounds ← maybe bounds
  token (keyword "OF")
  return { kind, bounds }

/-- The entity in front of an inverse clause's attribute, and the dot. -/
def owner : Parser Unit := do
  let _ ← token ident
  symbol '.'

def inverseClause : Parser InverseClause := do
  let name ← attributeName
  symbol ':'
  let aggregate ← maybe (token inverseAggregate)
  let entity ← token ident
  token (keyword "FOR")
  let _ ← given owner
  let forAttr ← token ident
  symbol ';'
  return { name, aggregate, entity, forAttr }

/-! ### Declarations -/

def typeDecl : Parser TypeDecl := do
  keyword "TYPE"
  let name ← token ident
  symbol '='
  let body ← token typeBody
  symbol ';'
  blanks
  let _ ← given (do keyword "WHERE"; rest)
  return { name, body }

def entityDecl : Parser EntityDecl := do
  keyword "ENTITY"
  let name ← token ident
  let supertype ← maybe (token supertypeClause)
  let subtypeOf ← maybe (token subtypeClause)
  symbol ';'
  let explicit ← many (token explicitClause)
  let derived ← maybe (do token (keyword "DERIVE"); many1 (token derivedClause))
  let inverse ← maybe (do token (keyword "INVERSE"); many1 (token inverseClause))
  blanks
  let _ ← given (do keyword "UNIQUE" <|> keyword "WHERE"; rest)
  return {
    name, supertype, explicit
    subtypeOf := subtypeOf.getD []
    derived := derived.getD []
    inverse := inverse.getD [] }

def parameterClause : Parser ParameterClause := do
  let names ← sepBy1 (symbol ',') (token ident)
  symbol ':'
  let type ← token paramType
  return { names, type }

def parameterList : Parser (List ParameterClause) := do
  symbol '('
  let clauses ← sepBy1 (symbol ';') (token parameterClause)
  symbol ')'
  return clauses

/-- A function up to the semicolon behind its result type. -/
def functionHead : Parser FunctionDecl := do
  keyword "FUNCTION"
  let name ← token ident
  let parameters ← maybe parameterList
  symbol ':'
  let returnType ← token paramType
  symbol ';'
  return { name, parameters := parameters.getD [], returnType }

/-- A rule up to its name. -/
def ruleHead : Parser Name := do
  keyword "RULE"
  token ident

/-- A schema's name and version text, without the semicolon. -/
def schemaHeader : Parser Name := do
  keyword "SCHEMA"
  let name ← token ident
  let _ ← given (do symbol '\''; let _ ← takeWhile (· != '\''); char '\'')
  blanks
  return name

end Express.Reader.Grammar
