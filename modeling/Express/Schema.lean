import Express.Name

/-!
# Schemas

The declarations of a schema as they are written: defined types, entities, function heads and rule names. Names are
kept as spelled and nothing is resolved.
-/

namespace Express

inductive SimpleType where
  | binary
  | boolean
  | integer
  | logical
  | number
  | real
  | string
  deriving DecidableEq, Repr

namespace SimpleType

def all : List SimpleType :=
  [.binary, .boolean, .integer, .logical, .number, .real, .string]

def keyword : SimpleType → String
  | .binary => "BINARY"
  | .boolean => "BOOLEAN"
  | .integer => "INTEGER"
  | .logical => "LOGICAL"
  | .number => "NUMBER"
  | .real => "REAL"
  | .string => "STRING"

/-- The simple type with exactly this upper-case keyword. -/
def ofKeyword? (word : String) : Option SimpleType :=
  all.find? (·.keyword == word)

end SimpleType

inductive AggregateKind where
  | array
  | list
  | set
  | bag
  deriving DecidableEq, Repr

namespace AggregateKind

def all : List AggregateKind :=
  [.array, .list, .set, .bag]

def keyword : AggregateKind → String
  | .array => "ARRAY"
  | .list => "LIST"
  | .set => "SET"
  | .bag => "BAG"

end AggregateKind

/-- `LIST [1:?] OF OPTIONAL UNIQUE`: all of a collection type but its elements. Bounds are kept without blanks. -/
structure CollectionHead where
  kind : AggregateKind
  bounds : Option String := none
  optionalElements : Bool := false
  unique : Bool := false
  deriving DecidableEq, Repr

/-- Types of attributes and of the elements of collections. -/
inductive ElementType where
  | collection (head : CollectionHead) (element : ElementType)
  | simple (type : SimpleType)
  | named (name : Name)
  | generic (label : Option Name)
  deriving DecidableEq, Repr

namespace ElementType

/-- The nesting depth of collections. -/
def rank : ElementType → Nat
  | .collection _ element => element.rank + 1
  | _ => 0

/-- The type below all collections. -/
def innermost : ElementType → ElementType
  | .collection _ element => element.innermost
  | other => other

end ElementType

/-- Types of parameters and results. Flags of collections are not kept. -/
inductive ParamType where
  | simple (type : SimpleType)
  | named (name : Name)
  | generic (label : Option Name)
  | collection (kind : AggregateKind) (bounds : Option String) (element : ParamType)
  | aggregate (label : Option Name) (element : ParamType)
  deriving DecidableEq, Repr

/-- The right-hand side of a type declaration. -/
inductive TypeBody where
  | simple (type : SimpleType)
  | collection (head : CollectionHead) (element : ElementType)
  | named (name : Name)
  | enumeration (values : List Name)
  | select (alternatives : List Name)
  deriving DecidableEq, Repr

structure TypeDecl where
  name : Name
  body : TypeBody
  deriving DecidableEq, Repr

/-- `ABSTRACT SUPERTYPE OF (…)`. The choice holds the names of a leading `ONEOF (…)`; the expression is the text in the
parentheses with single spaces. -/
structure SupertypeClause where
  isAbstract : Bool
  choice : Option (List Name) := none
  expression : Option String := none
  deriving DecidableEq, Repr

/-- A new attribute's name, or the path `SELF\entity.attr` of a redeclared one. -/
inductive AttributeName where
  | simple (name : Name)
  | qualified (entity attr : Name)
  deriving DecidableEq, Repr

namespace AttributeName

def base : AttributeName → Name
  | .simple name => name
  | .qualified _ attr => attr

def qualifier? : AttributeName → Option Name
  | .simple _ => none
  | .qualified entity _ => some entity

def text : AttributeName → String
  | .simple name => name
  | .qualified entity attr => "SELF\\" ++ entity ++ "." ++ attr

end AttributeName

structure ExplicitClause where
  names : List AttributeName
  optional : Bool := false
  type : ElementType
  deriving DecidableEq, Repr

structure DerivedClause where
  name : AttributeName
  type : ElementType
  expression : String
  deriving DecidableEq, Repr

structure InverseAggregate where
  kind : AggregateKind
  bounds : Option String := none
  deriving DecidableEq, Repr

structure InverseClause where
  name : AttributeName
  aggregate : Option InverseAggregate := none
  entity : Name
  forAttr : Name
  deriving DecidableEq, Repr

structure EntityDecl where
  name : Name
  supertype : Option SupertypeClause := none
  subtypeOf : List Name := []
  explicit : List ExplicitClause := []
  derived : List DerivedClause := []
  inverse : List InverseClause := []
  deriving DecidableEq, Repr

namespace EntityDecl

def isAbstract (decl : EntityDecl) : Bool :=
  decl.supertype.any (·.isAbstract)

/-- The subtypes named by the supertype clause's choice. -/
def children (decl : EntityDecl) : List Name :=
  (decl.supertype.bind (·.choice)).getD []

end EntityDecl

/-- `a, b : REAL` declares two parameters. -/
structure ParameterClause where
  names : List Name
  type : ParamType
  deriving DecidableEq, Repr

structure FunctionDecl where
  name : Name
  parameters : List ParameterClause := []
  returnType : ParamType
  deriving DecidableEq, Repr

inductive Declaration where
  | type (decl : TypeDecl)
  | entity (decl : EntityDecl)
  | function (decl : FunctionDecl)
  | rule (name : Name)
  deriving DecidableEq, Repr

namespace Declaration

def name : Declaration → Name
  | .type decl => decl.name
  | .entity decl => decl.name
  | .function decl => decl.name
  | .rule name => name

def asType? : Declaration → Option TypeDecl
  | .type decl => some decl
  | _ => none

def asEntity? : Declaration → Option EntityDecl
  | .entity decl => some decl
  | _ => none

def asFunction? : Declaration → Option FunctionDecl
  | .function decl => some decl
  | _ => none

end Declaration

structure Schema where
  name : Name
  declarations : List Declaration
  deriving DecidableEq, Repr

namespace Schema

def types (schema : Schema) : List TypeDecl :=
  schema.declarations.filterMap (·.asType?)

def entities (schema : Schema) : List EntityDecl :=
  schema.declarations.filterMap (·.asEntity?)

def functions (schema : Schema) : List FunctionDecl :=
  schema.declarations.filterMap (·.asFunction?)

def type? (schema : Schema) (name : Name) : Option TypeDecl :=
  schema.types.find? (·.name == name)

def entity? (schema : Schema) (name : Name) : Option EntityDecl :=
  schema.entities.find? (·.name == name)

end Schema

end Express
