import Express.TypeRef

/-!
# Definitions

What a model holds under a name: an entity, an enumeration, a select or a wrapper around another type. Definitions
refer to each other by name.
-/

namespace Express

inductive Kind where
  | entity
  | enumeration
  | select
  | wrapper
  deriving DecidableEq, Repr

namespace Kind

/-- The kind with its article, for messages. -/
def phrase : Kind → String
  | .entity => "an entity"
  | .enumeration => "an enumeration"
  | .select => "a select"
  | .wrapper => "a defined type"

def key : Kind → String
  | .entity => "entity"
  | .enumeration => "enum"
  | .select => "select"
  | .wrapper => "wrapper"

/-- The kind as a single word, for notices. -/
def title : Kind → String
  | .entity => "Entity"
  | .enumeration => "Enum"
  | .select => "Select"
  | .wrapper => "Wrapper"

end Kind

structure Attribute where
  name : Name
  type : TypeRef
  optional : Bool := false
  derived : Bool := false
  inverse : Bool := false
  /-- A derived attribute that takes the place of an inherited one. -/
  hidesParent : Bool := false
  /-- The entity whose explicit attribute this one redeclares. -/
  redeclares : Option Name := none
  deriving DecidableEq, Repr

namespace Attribute

/-- Has a place of its own in constructors and records. -/
def isPositional (attr : Attribute) : Bool :=
  !attr.derived && !attr.inverse && attr.redeclares.isNone

/-- Holds a value that is set and not computed. -/
def isStored (attr : Attribute) : Bool :=
  !attr.inverse && !attr.derived

def parameterName (attr : Attribute) : Name :=
  attr.name.parameter

end Attribute

structure Entity where
  name : Name
  isAbstract : Bool := false
  parents : List Name := []
  children : List Name := []
  attributes : List Attribute := []
  /-- Stands in for a name that has been used and not declared. -/
  isPlaceholder : Bool := false
  deriving DecidableEq, Repr

namespace Entity

def placeholder (name : Name) : Entity :=
  { name, isPlaceholder := true }

/-- The one parent that is inherited from: the first declared. -/
def parent? (entity : Entity) : Option Name :=
  entity.parents.head?

def attribute? (entity : Entity) (name : Name) : Option Attribute :=
  entity.attributes.find? (·.name == name)

end Entity

structure Enumeration where
  name : Name
  literals : List Name
  deriving DecidableEq, Repr

structure Select where
  name : Name
  alternatives : List Name
  deriving DecidableEq, Repr

structure Wrapper where
  name : Name
  wrapped : TypeRef
  deriving DecidableEq, Repr

inductive Definition where
  | entity (e : Entity)
  | enumeration (e : Enumeration)
  | select (s : Select)
  | wrapper (w : Wrapper)
  deriving DecidableEq, Repr

namespace Definition

def name : Definition → Name
  | .entity e => e.name
  | .enumeration e => e.name
  | .select s => s.name
  | .wrapper w => w.name

def kind : Definition → Kind
  | .entity _ => .entity
  | .enumeration _ => .enumeration
  | .select _ => .select
  | .wrapper _ => .wrapper

def asEntity? : Definition → Option Entity
  | .entity e => some e
  | _ => none

def asSelect? : Definition → Option Select
  | .select s => some s
  | _ => none

def isPlaceholder : Definition → Bool
  | .entity e => e.isPlaceholder
  | _ => false

end Definition

structure Parameter where
  name : Name
  type : TypeRef
  deriving DecidableEq, Repr

structure FunctionSignature where
  name : Name
  returnType : TypeRef
  parameters : List Parameter
  deriving DecidableEq, Repr

namespace FunctionSignature

def isGeneric (function : FunctionSignature) : Bool :=
  function.returnType.isGeneric || function.parameters.any (·.type.isGeneric)

end FunctionSignature

/-- An inverse attribute `owner.ownerAttr` shows the instances of `target` whose `targetAttr` refers to its owner. -/
structure ReverseLink where
  owner : Name
  ownerAttr : Name
  target : Name
  targetAttr : Name
  deriving DecidableEq, Repr

/-! ### JSON -/

def Attribute.toJson (attr : Attribute) : Json :=
  .obj ([("name", .str attr.name), ("ty", attr.type.toJson), ("optional", .bool attr.optional),
    ("derived", .bool attr.derived), ("inverse", .bool attr.inverse), ("hides_parent", .bool attr.hidesParent)] ++
    Json.member? "redeclares" .str attr.redeclares)

def Entity.members (entity : Entity) : List (String × Json) :=
  [("name", .str entity.name), ("is_abstract", .bool entity.isAbstract), ("parents", .strs entity.parents),
    ("children", .strs entity.children), ("attributes", .arr (entity.attributes.map (·.toJson)))] ++
    if entity.isPlaceholder then [("placeholder", .bool true)] else []

def Definition.toJson (definition : Definition) : Json :=
  .obj (("kind", .str definition.kind.key) :: match definition with
    | .entity e => e.members
    | .enumeration e => [("name", .str e.name), ("literals", .strs e.literals)]
    | .select s => [("name", .str s.name), ("alternatives", .strs s.alternatives)]
    | .wrapper w => [("name", .str w.name), ("wrapped", w.wrapped.toJson)])

def Parameter.toJson (parameter : Parameter) : Json :=
  .obj [("name", .str parameter.name), ("ty", parameter.type.toJson)]

def FunctionSignature.members (function : FunctionSignature) : List (String × Json) :=
  [("name", .str function.name), ("return_type", function.returnType.toJson),
    ("parameters", .arr (function.parameters.map (·.toJson)))]

def ReverseLink.toJson (link : ReverseLink) : Json :=
  .obj [("owning_entity", .str link.owner), ("owning_attribute", .str link.ownerAttr),
    ("target_entity", .str link.target), ("target_attribute", .str link.targetAttr)]

end Express
