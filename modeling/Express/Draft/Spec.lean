import Express.Model.Error
import Express.Settings

/-!
# What declarations say

Declarations as definitions, attributes to be attached and signatures. Types are described first and checked when they
are used, since an attribute may also be described by hand.
-/

namespace Express

def TypeSpec.resolve (spec : TypeSpec) : Except ModelError TypeRef :=
  match spec.typeRef? with
  | some type => .ok type
  | none => .error (.invalidTypeRef spec.base spec.isCollection spec.rank)

inductive Role where
  | explicit
  | derived
  /-- Shows what refers to the owner through `forAttr`. -/
  | inverse (forAttr : Name)
  deriving DecidableEq, Repr

namespace Role

def forAttr? : Role → Option Name
  | .inverse forAttr => some forAttr
  | _ => none

end Role

/-- An attribute to be attached to an entity. -/
structure AttributeSpec where
  name : AttributeName
  type : TypeSpec
  optional : Bool := false
  role : Role := .explicit
  deriving DecidableEq, Repr

namespace AttributeSpec

/-- The attribute, once its type is known to be consistent. A qualified name redeclares an explicit attribute and lets
a derived one hide what it derives. -/
def attach (spec : AttributeSpec) (type : TypeRef) : Attribute where
  name := spec.name.base
  type := type
  optional := spec.optional
  derived := spec.role == .derived
  inverse := spec.role.forAttr?.isSome
  hidesParent := spec.role == .derived && spec.name.qualifier?.isSome
  redeclares := if spec.role = .explicit then spec.name.qualifier? else none

end AttributeSpec

namespace ElementType

/-- The described type. A generic type is called by the name that the settings give. -/
def spec (settings : Settings) : ElementType → TypeSpec
  | .collection _ element =>
    let inner := element.spec settings
    { inner with rank := inner.rank + 1, isCollection := true }
  | .simple type => { base := type.keyword }
  | .named name => { base := name }
  | .generic _ => { base := settings.genericName, isGeneric := true }

end ElementType

namespace ParamType

/-- The type of a parameter or result, unless an `AGGREGATE` is part of it. -/
def typeRef? (settings : Settings) : ParamType → Option TypeRef
  | .simple type => some (.ofSimple type)
  | .named name => some (.named name)
  | .generic _ => some (.generic settings.genericName)
  | .collection _ _ element => (element.typeRef? settings).map (·.nested 1)
  | .aggregate _ _ => none

end ParamType

namespace TypeDecl

def definition (settings : Settings) (decl : TypeDecl) : Except ModelError Definition :=
  match decl.body with
  | .simple type => .ok (.wrapper { name := decl.name, wrapped := .ofSimple type })
  | .collection head element => do
    let wrapped ← ((ElementType.collection head element).spec settings).resolve
    return .wrapper { name := decl.name, wrapped }
  | .named target => .ok (.wrapper { name := decl.name, wrapped := .named target })
  | .enumeration literals => .ok (.enumeration { name := decl.name, literals })
  | .select alternatives => .ok (.select { name := decl.name, alternatives })

end TypeDecl

/-- One attribute for each name of the clause. -/
def ExplicitClause.specs (settings : Settings) (clause : ExplicitClause) : List AttributeSpec :=
  clause.names.map fun name => { name, type := clause.type.spec settings, optional := clause.optional }

def DerivedClause.spec (settings : Settings) (clause : DerivedClause) : AttributeSpec where
  name := clause.name
  type := clause.type.spec settings
  role := .derived

/-- An inverse attribute holds one instance, or a collection of them if the clause has an aggregate. -/
def InverseClause.spec (clause : InverseClause) : AttributeSpec where
  name := clause.name
  type := { base := clause.entity, isCollection := clause.aggregate.isSome, rank := clause.aggregate.isSome.toNat }
  role := .inverse clause.forAttr

namespace EntityDecl

/-- The entity before its attributes are attached. -/
def bare (decl : EntityDecl) : Entity where
  name := decl.name
  isAbstract := decl.isAbstract
  parents := decl.subtypeOf
  children := decl.children

/-- The attributes in the order in which they are attached: explicit ones name by name, derived ones, inverse ones. -/
def attributes (settings : Settings) (decl : EntityDecl) : List AttributeSpec :=
  decl.explicit.flatMap (ExplicitClause.specs settings) ++ decl.derived.map (DerivedClause.spec settings) ++
    decl.inverse.map InverseClause.spec

/-- A supertype expression that does not start with a choice has no effect. -/
def ignoredExpression? (decl : EntityDecl) : Option String :=
  match decl.supertype with
  | some clause => if clause.choice.isNone then clause.expression else none
  | none => none

end EntityDecl

namespace ParameterClause

/-- The parameters of a clause, all of the same type. -/
def parameters? (settings : Settings) (clause : ParameterClause) : Option (List Parameter) :=
  (clause.type.typeRef? settings).map fun type => clause.names.map fun name => { name, type }

end ParameterClause

namespace FunctionDecl

def unsupported (decl : FunctionDecl) : ModelError :=
  .unsupportedShape decl.name "AGGREGATE OF parameter type"

/-- The types of the result and of every parameter. -/
def signature (settings : Settings) (decl : FunctionDecl) : Except ModelError FunctionSignature :=
  match decl.returnType.typeRef? settings with
  | none => .error decl.unsupported
  | some returnType =>
    match decl.parameters.mapM (ParameterClause.parameters? settings) with
    | none => .error decl.unsupported
    | some parameters => .ok { name := decl.name, returnType, parameters := parameters.flatten }

end FunctionDecl

end Express
