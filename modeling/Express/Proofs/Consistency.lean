import Express.Schema
import Express.Settings
import Mathlib.Data.List.Nodup
import Mathlib.Logic.Relation

/-!
# Consistent schemas

What a schema has to satisfy to become a model, said of its declarations alone: no draft, no slots and no order of
declarations take part.
-/

namespace Express

/-! ### What declarations name -/

namespace ElementType

/-- The definition that a type refers to below all collections, if it is neither simple nor generic. -/
def reference? (type : ElementType) : Option Name :=
  match type.innermost with
  | .named name => if (SimpleType.ofKeyword? name).isNone then some name else none
  | _ => none

end ElementType

namespace ParamType

/-- Whether an `AGGREGATE` is part of the type. -/
def hasAggregate : ParamType → Bool
  | .aggregate _ _ => true
  | .collection _ _ element => element.hasAggregate
  | _ => false

end ParamType

namespace FunctionDecl

def usesAggregate (decl : FunctionDecl) : Bool :=
  decl.returnType.hasAggregate || decl.parameters.any (·.type.hasAggregate)

end FunctionDecl

namespace InverseClause

def reference? (clause : InverseClause) : Option Name :=
  if (SimpleType.ofKeyword? clause.entity).isNone then some clause.entity else none

end InverseClause

namespace EntityDecl

/-- The definitions that attribute types refer to, attribute by attribute: explicit ones once for each of their names,
then derived ones, then inverse ones. -/
def attributeReferences (decl : EntityDecl) : List Name :=
  (decl.explicit.flatMap fun clause => clause.names.flatMap fun _ => clause.type.reference?.toList) ++
    decl.derived.filterMap (·.type.reference?) ++ decl.inverse.filterMap (·.reference?)

/-- Every definition that the entity refers to. -/
def references (decl : EntityDecl) : List Name :=
  decl.children ++ decl.subtypeOf ++ decl.attributeReferences

/-- The names that the entity uses as those of entities: children, parents and the targets of inverse attributes. -/
def entityUses (decl : EntityDecl) : List Name :=
  decl.children ++ decl.subtypeOf ++ decl.inverse.map (·.entity)

/-- The entity declares or redeclares an explicit attribute of that name. -/
def Stores (decl : EntityDecl) (attr : Name) : Prop :=
  ∃ clause ∈ decl.explicit, ∃ name ∈ clause.names, name.base = attr

end EntityDecl

namespace Declaration

/-- The name that a type or an entity is declared under. -/
def registers? : Declaration → Option Name
  | .type decl => some decl.name
  | .entity decl => some decl.name
  | _ => none

/-- Every name that gets a slot, in the order in which the declaration names them. -/
def mentions : Declaration → List Name
  | .type decl => [decl.name]
  | .entity decl => decl.name :: decl.references
  | _ => []

end Declaration

/-! ### Consistency -/

namespace Schema

/-- The names of the declared types and entities. -/
def registered (schema : Schema) : List Name :=
  schema.declarations.filterMap (·.registers?)

def DeclaresEntity (schema : Schema) (name : Name) : Prop :=
  ∃ decl ∈ schema.entities, decl.name = name

/-- Inheritance follows the first parent of a declared entity. -/
def Inherits (schema : Schema) (entity parent : Name) : Prop :=
  ∃ decl ∈ schema.entities, decl.name = entity ∧ decl.subtypeOf.head? = some parent

/-- An entity or one that it inherits from, over any number of steps. -/
def Ancestor (schema : Schema) : Name → Name → Prop :=
  Relation.ReflTransGen schema.Inherits

/-- What is used as an entity and declared is declared as an entity. -/
def UsesEntities (schema : Schema) : Prop :=
  ∀ decl ∈ schema.entities, ∀ name ∈ decl.entityUses, name ∈ schema.registered → schema.DeclaresEntity name

/-- A target has the forward attribute of an inverse one, if it is declared and so is all that it inherits from. -/
def Answers (schema : Schema) (target attr : Name) : Prop :=
  schema.DeclaresEntity target → (∀ above, schema.Ancestor target above → above ∈ schema.registered) →
    ∃ owner ∈ schema.entities, schema.Ancestor target owner.name ∧ owner.Stores attr

structure Consistent (settings : Settings) (schema : Schema) : Prop where
  distinct : schema.registered.Nodup
  distinctFunctions : (schema.functions.map (·.name)).Nodup
  noAggregate : ∀ decl ∈ schema.functions, decl.usesAggregate = false
  entityUses : schema.UsesEntities
  acyclic : ∀ name, ¬ Relation.TransGen schema.Inherits name name
  /-- In strict mode every name is declared. -/
  declared : settings.strict = true → ∀ decl ∈ schema.entities, ∀ name ∈ decl.references, name ∈ schema.registered
  forward : ∀ decl ∈ schema.entities, ∀ clause ∈ decl.inverse, schema.Answers clause.entity clause.forAttr

end Schema

end Express
