import Express.Model.Ancestry

/-!
# Attribute layout

How the attributes along an entity's chain are laid out in constructors and in records. Only positional attributes take
part, the root's first.
-/

namespace Express.Model

/-- The positional attributes along the chain, without the optional ones unless they are asked for. -/
def allAttributes (model : Model) (name : Name) (withOptional : Bool) : Except LookupError (List Attribute) := do
  let chain ← model.ancestors name
  return (chain.flatMap fun entity => entity.attributes.filter (·.isPositional)).filter
    fun attr => withOptional || !attr.optional

/-- The stored attribute of that name nearest to the entity. -/
def forwardAttribute (model : Model) (entity attr : Name) : Except LookupError (Option Attribute) := do
  let chain ← model.ancestors entity
  return (chain.reverse.flatMap (·.attributes)).find? fun a => a.name == attr && a.isStored

/-! ### Constructors -/

/-- Whether some attribute may be left out of a constructor call. -/
def needsSecondOverload (model : Model) (name : Name) : Except LookupError Bool := do
  return (← model.allAttributes name true).any (·.optional)

/-- The parameters of each constructor: without the optional ones, and with them if there are any. -/
def overloads (model : Model) (name : Name) : Except LookupError (List (List Attribute)) := do
  let required ← model.allAttributes name false
  if ← model.needsSecondOverload name then
    return [required, ← model.allAttributes name true]
  else return [required]

/-- The parameter types of the constructors by which a record is recognised. An abstract entity has none, an empty
list is none, and the second counts only if it differs from the first. -/
def signatures (model : Model) (name : Name) : Except LookupError (List (List TypeRef)) := do
  if (← model.entity name).isAbstract then return []
  let required := (← model.allAttributes name false).map (·.type)
  let all := (← model.allAttributes name true).map (·.type)
  let first := if required.isEmpty then [] else [required]
  let second := if all.isEmpty || first.head? == some all then [] else [all]
  return first ++ second

/-! ### Records -/

/-- A position in a record. It is hidden if an entity further down derives its attribute anew. -/
structure RecordField where
  attr : Attribute
  hidden : Bool
  deriving DecidableEq, Repr

def derivesAnew (entity : Entity) (attr : Name) : Bool :=
  entity.attributes.any fun a => a.derived && a.hidesParent && a.name == attr

/-- The fields of a chain, given from the root on. -/
def fieldsOf : List Entity → List RecordField
  | [] => []
  | entity :: below =>
    (entity.attributes.filter (·.isPositional)).map
      (fun attr => { attr, hidden := below.any (derivesAnew · attr.name) }) ++ fieldsOf below

def recordFields (model : Model) (name : Name) : Except LookupError (List RecordField) := do
  return fieldsOf (← model.ancestors name)

end Express.Model
