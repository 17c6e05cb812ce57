import Express.Reader.Block
import Express.Schema

/-!
# Canonical texts

How a schema is written down: keywords in upper case, single spaces, everything on one line. `isWritable` says which
schemas can be told from such a text.
-/

namespace Express

open Reader

/-! ### Texts -/

def parens (text : String) : String :=
  "(" ++ text ++ ")"

/-- `(a, b, c)` -/
def nameListText (names : List Name) : String :=
  parens (", ".intercalate names)

/-- A text with a keyword in front of it, if the flag is set. -/
def flagged (flag : Bool) (word text : String) : String :=
  if flag then word ++ " " ++ text else text

def labelText : Option Name → String
  | none => ""
  | some label => " : " ++ label

def boundsText : Option String → String
  | none => ""
  | some bounds => " [" ++ bounds ++ "]"

/-- A collection of what the given text stands for. -/
def CollectionHead.canonical (head : CollectionHead) (element : String) : String :=
  head.kind.keyword ++ boundsText head.bounds ++ " OF " ++
    flagged head.optionalElements "OPTIONAL" (flagged head.unique "UNIQUE" element)

def ElementType.canonical : ElementType → String
  | .collection head element => head.canonical element.canonical
  | .simple type => type.keyword
  | .named name => name
  | .generic label => "GENERIC" ++ labelText label

def ParamType.canonical : ParamType → String
  | .simple type => type.keyword
  | .named name => name
  | .generic label => "GENERIC" ++ labelText label
  | .collection kind bounds element => CollectionHead.canonical { kind, bounds } element.canonical
  | .aggregate label element => "AGGREGATE" ++ labelText label ++ " OF " ++ element.canonical

def TypeBody.canonical : TypeBody → String
  | .simple type => type.keyword
  | .collection head element => head.canonical element.canonical
  | .named name => name
  | .enumeration values => "ENUMERATION OF " ++ nameListText values
  | .select alternatives => "SELECT " ++ nameListText alternatives

def TypeDecl.canonical (decl : TypeDecl) : String :=
  "TYPE " ++ decl.name ++ " = " ++ decl.body.canonical ++ ";"

/-- `ONEOF (a, b)` -/
def oneOfText (choice : List Name) : String :=
  "ONEOF " ++ nameListText choice

def choiceText : Option (List Name) → String
  | none => ""
  | some choice => " OF " ++ parens (oneOfText choice)

def SupertypeClause.canonical (clause : SupertypeClause) : String :=
  flagged clause.isAbstract "ABSTRACT" ("SUPERTYPE" ++ choiceText clause.choice)

def ExplicitClause.canonical (clause : ExplicitClause) : String :=
  ", ".intercalate (clause.names.map (·.text)) ++ " : " ++ flagged clause.optional "OPTIONAL" clause.type.canonical ++ ";"

def DerivedClause.canonical (clause : DerivedClause) : String :=
  clause.name.text ++ " : " ++ clause.type.canonical ++ " := " ++ clause.expression ++ ";"

def aggregateText (entity : Name) : Option InverseAggregate → String
  | none => entity
  | some aggregate => aggregate.kind.keyword ++ boundsText aggregate.bounds ++ " OF " ++ entity

def InverseClause.canonical (clause : InverseClause) : String :=
  clause.name.text ++ " : " ++ aggregateText clause.entity clause.aggregate ++ " FOR " ++ clause.forAttr ++ ";"

/-- Texts with a space in front of each. -/
def spaced (texts : List String) : String :=
  String.join (texts.map (" " ++ ·))

/-- A section of an entity: nothing, or its keyword and its clauses. -/
def sectionText (keyword : String) (clauses : List String) : String :=
  if clauses.isEmpty then "" else " " ++ keyword ++ spaced clauses

def subtypeText (parents : List Name) : String :=
  if parents.isEmpty then "" else " SUBTYPE OF " ++ nameListText parents

def EntityDecl.canonical (decl : EntityDecl) : String :=
  "ENTITY " ++ decl.name ++ spaced (decl.supertype.map (·.canonical)).toList ++ subtypeText decl.subtypeOf ++ ";" ++
    spaced (decl.explicit.map (·.canonical)) ++ sectionText "DERIVE" (decl.derived.map (·.canonical)) ++
    sectionText "INVERSE" (decl.inverse.map (·.canonical))

def ParameterClause.canonical (clause : ParameterClause) : String :=
  ", ".intercalate clause.names ++ " : " ++ clause.type.canonical

def parametersText (clauses : List ParameterClause) : String :=
  if clauses.isEmpty then "" else " " ++ parens ("; ".intercalate (clauses.map (·.canonical)))

def FunctionDecl.canonical (decl : FunctionDecl) : String :=
  "FUNCTION " ++ decl.name ++ parametersText decl.parameters ++ " : " ++ decl.returnType.canonical ++ ";"

namespace Declaration

def blockKind : Declaration → BlockKind
  | .type _ => .type
  | .entity _ => .entity
  | .function _ => .function
  | .rule _ => .rule

/-- The text of a declaration up to its `END_…`. -/
def body : Declaration → String
  | .type decl => decl.canonical
  | .entity decl => decl.canonical
  | .function decl => decl.canonical
  | .rule name => "RULE " ++ name ++ " FOR " ++ nameListText [name] ++ ";"

def canonical (declaration : Declaration) : String :=
  declaration.body ++ " " ++ declaration.blockKind.endKeyword ++ ";"

end Declaration

def Schema.canonical (schema : Schema) : String :=
  "SCHEMA " ++ schema.name ++ ";" ++ spaced (schema.declarations.map (·.canonical)) ++ " END_SCHEMA;"

/-! ### What can be written -/

namespace Reader

def keywords : List String :=
  BlockKind.all.map (·.keyword) ++ AggregateKind.all.map (·.keyword) ++ SimpleType.all.map (·.keyword) ++
    ["SCHEMA", "USE", "REFERENCE", "ENUMERATION", "SELECT", "EXTENSIBLE", "OF", "FIXED", "OPTIONAL", "UNIQUE", "GENERIC",
      "AGGREGATE", "ABSTRACT", "SUPERTYPE", "SUBTYPE", "ONEOF", "SELF", "DERIVE", "INVERSE", "WHERE", "FOR"]

/-- The words that the productions for types look for. -/
def typeKeywords : List String :=
  AggregateKind.all.map (·.keyword) ++ SimpleType.all.map (·.keyword) ++
    ["AGGREGATE", "GENERIC", "OF", "OPTIONAL", "UNIQUE", "FIXED", "EXTENSIBLE", "ENUMERATION", "SELECT"]

def endWords : List String :=
  "END_SCHEMA" :: BlockKind.all.map (·.endKeyword)

/-- The identifier that `cs` starts in the middle of, and those after it. -/
def splitIdentifiers : List Char → List Char × List (List Char)
  | [] => ([], [])
  | c :: cs =>
    let (word, others) := splitIdentifiers cs
    if Name.isPart c then (c :: word, others) else ([], if word.isEmpty then others else word :: others)

/-- The maximal stretches of letters, digits and underscores. -/
def identifiers (cs : List Char) : List (List Char) :=
  let (word, others) := splitIdentifiers cs
  if word.isEmpty then others else word :: others

/-- No identifier of the text is one of the upper-case words in any case. -/
def avoids (words : List String) (cs : List Char) : Bool :=
  (identifiers cs).all fun word => String.ofList (Text.upper word) ∉ words

/-- Neither `(*` nor `--` is in the text. -/
def isUnremarked : List Char → Bool
  | c :: d :: cs => !(c == '(' && d == '*') && !(c == '-' && d == '-') && isUnremarked (d :: cs)
  | _ => true

/-- No literal, no remark and none of the upper-case words is in the text. -/
def isQuiet (words : List String) (cs : List Char) : Bool :=
  '\'' ∉ cs && isUnremarked cs && avoids words cs

/-- The text of an expression: trimmed, with as many brackets closed as opened, and free of what would cut it. -/
def isExpression (cs : List Char) : Bool :=
  Text.trim cs == cs && cs.countP (· ∈ ['(', '[', '\x7b']) == cs.countP (· ∈ [')', ']', '\x7d']) &&
    ';' ∉ cs && isQuiet endWords cs

end Reader

def Name.isIdentifier (name : Name) : Bool :=
  match name.toList with
  | [] => false
  | c :: cs => isStart c && cs.all isPart

/-- An identifier that is none of the upper-case words in any case. -/
def Name.isNoneOf (words : List String) (name : Name) : Bool :=
  name.isIdentifier && String.ofList (Text.upper name.toList) ∉ words

/-- An identifier that is no keyword in any case. -/
def Name.isWritable (name : Name) : Bool :=
  name.isIdentifier && String.ofList (Text.upper name.toList) ∉ keywords ++ endWords

/-- Names of a list that is not empty. -/
def areWritable (names : List Name) : Bool :=
  !names.isEmpty && names.all (·.isWritable)

def areBounds (bounds : String) : Bool :=
  bounds.toList.all fun c => c.isDigit || c == '?' || c == ':'

/-- The bounds are as asked for, and the names are writable. -/
def ElementType.isWritable (fits : String → Bool) : ElementType → Bool
  | .collection head element => head.bounds.all fits && element.isWritable fits
  | .simple _ => true
  | .named name => name.isWritable
  | .generic label => label.all (·.isWritable)

def ParamType.isWritable (fits : String → Bool) : ParamType → Bool
  | .simple _ => true
  | .named name => name.isWritable
  | .generic label => label.all (·.isWritable)
  | .collection _ bounds element => bounds.all fits && element.isWritable fits
  | .aggregate label element => label.all (·.isWritable) && element.isWritable fits

def TypeBody.isWritable : TypeBody → Bool
  | .simple _ => true
  | .collection head element => (ElementType.collection head element).isWritable areBounds
  | .named name => name.isWritable
  | .enumeration values => areWritable values
  | .select alternatives => areWritable alternatives

/-- The expression is the text of the choice, if there is one. -/
def SupertypeClause.isWritable (clause : SupertypeClause) : Bool :=
  match clause.choice with
  | none => clause.expression.isNone
  | some choice => areWritable choice && clause.expression == some (oneOfText choice)

def AttributeName.isWritable : AttributeName → Bool
  | .simple name => name.isWritable
  | .qualified entity attr => entity.isWritable && attr.isWritable

def ExplicitClause.isWritable (clause : ExplicitClause) : Bool :=
  !clause.names.isEmpty && clause.names.all (·.isWritable) && clause.type.isWritable areBounds

def DerivedClause.isWritable (clause : DerivedClause) : Bool :=
  clause.name.isWritable && clause.type.isWritable areBounds && isExpression clause.expression.toList

def InverseAggregate.isWritable (aggregate : InverseAggregate) : Bool :=
  aggregate.kind ∈ [AggregateKind.set, .bag] && aggregate.bounds.all areBounds

def InverseClause.isWritable (clause : InverseClause) : Bool :=
  clause.name.isWritable && clause.entity.isWritable && clause.forAttr.isWritable &&
    clause.aggregate.all (·.isWritable)

def EntityDecl.isWritable (decl : EntityDecl) : Bool :=
  decl.name.isWritable && decl.supertype.all (·.isWritable) && decl.subtypeOf.all (·.isWritable) &&
    decl.explicit.all (·.isWritable) && decl.derived.all (·.isWritable) && decl.inverse.all (·.isWritable)

def ParameterClause.isWritable (clause : ParameterClause) : Bool :=
  areWritable clause.names && clause.type.isWritable areBounds

def Declaration.isWritable : Declaration → Bool
  | .type decl => decl.name.isWritable && decl.body.isWritable
  | .entity decl => decl.isWritable
  | .function decl => decl.name.isWritable && decl.parameters.all (·.isWritable) &&
    decl.returnType.isWritable areBounds
  | .rule name => name.isWritable

def Schema.isWritable (schema : Schema) : Bool :=
  schema.name.isWritable && schema.declarations.all (·.isWritable)

/-! ### Types by themselves -/

/-- Neither a blank nor the bracket behind the bounds is in them. -/
def isTight (bounds : String) : Bool :=
  bounds.toList.all fun c => c != ']' && !Text.isBlank c

/-- The type can be told from its text, wherever that stands: its bounds are tight, its labels are identifiers, and its
names are identifiers but none of the words that types are written with. -/
def ElementType.isReadable : ElementType → Bool
  | .collection head element => head.bounds.all isTight && element.isReadable
  | .simple _ => true
  | .named name => name.isNoneOf typeKeywords
  | .generic label => label.all (·.isIdentifier)

def ParamType.isReadable : ParamType → Bool
  | .simple _ => true
  | .named name => name.isNoneOf typeKeywords
  | .generic label => label.all (·.isIdentifier)
  | .collection _ bounds element => bounds.all isTight && element.isReadable
  | .aggregate label element => label.all (·.isIdentifier) && element.isReadable

end Express
