import Express.Model.Layout
import Express.Notice

/-!
# Wiring

An inverse attribute is filled by the instances that refer to its owner. Each reverse link against an entity gives one
rule, which an instance of that entity runs once its own attributes have values.
-/

namespace Express

/-- What a referring instance does: put itself into one instance or into each, as the only value or behind others. -/
inductive WiringAction where
  | assign
  | append
  | assignEach
  | appendEach
  deriving DecidableEq, Repr

namespace WiringAction

/-- The action for a forward and an inverse attribute of these types. -/
def between (forward inverse : TypeRef) : WiringAction :=
  match forward.isCollection, inverse.isCollection with
  | false, false => .assign
  | false, true => .append
  | true, false => .assignEach
  | true, true => .appendEach

def appends : WiringAction → Bool
  | .append | .appendEach => true
  | .assign | .assignEach => false

def iterates : WiringAction → Bool
  | .assignEach | .appendEach => true
  | .assign | .append => false

def key : WiringAction → String
  | .assign => "assign"
  | .append => "append"
  | .assignEach => "assign_each"
  | .appendEach => "append_each"

def title : WiringAction → String
  | .assign => "Assign"
  | .append => "Append"
  | .assignEach => "AssignEach"
  | .appendEach => "AppendEach"

end WiringAction

structure WiringRule where
  entity : Name
  attr : Name
  /-- The entity with the inverse attribute. -/
  owner : Name
  ownerAttr : Name
  action : WiringAction
  deriving DecidableEq, Repr

def WiringRule.toJson (rule : WiringRule) : Json :=
  .obj [("entity", .str rule.entity), ("attribute", .str rule.attr), ("counterpart_entity", .str rule.owner),
    ("counterpart_attribute", .str rule.ownerAttr), ("action", .str rule.action.key)]

namespace Model

/-- The rule of a link as seen from an entity, unless the entity lacks the forward attribute. -/
def ruleOf (model : Model) (entity : Name) (link : ReverseLink) : Except LookupError (Option WiringRule) := do
  match ← model.forwardAttribute entity link.targetAttr with
  | none => return none
  | some forward =>
    let owner ← model.entity link.owner
    match owner.attributes.find? fun attr => attr.inverse && attr.name == link.ownerAttr with
    | none => return none
    | some inverse =>
      return some
        { entity
          attr := link.targetAttr
          owner := link.owner
          ownerAttr := link.ownerAttr
          action := .between forward.type inverse.type }

/-- The rules of the links against exactly this entity. -/
def ownWiringRules (model : Model) (entity : Name) : Except LookupError (List WiringRule) := do
  return (← (model.linksTo entity).mapM (model.ruleOf entity)).filterMap id

/-- The rules that an instance runs: those of each entity of its chain, the root's first. -/
def wiringRules (model : Model) (entity : Name) : Except LookupError (List WiringRule) := do
  let chain ← model.ancestors entity
  return (← chain.mapM fun level => model.ownWiringRules level.name).flatten

/-- The links against an entity that give no rule since the forward attribute is missing. -/
def ownWiringNotices (model : Model) (entity : Name) : List Notice :=
  (model.linksTo entity).filterMap fun link =>
    match model.forwardAttribute entity link.targetAttr with
    | .ok none => some (.linkWithoutForward entity link.targetAttr)
    | _ => none

def wiringNotices (model : Model) (entity : Name) : List Notice :=
  match model.ancestors entity with
  | .ok chain => chain.flatMap fun level => model.ownWiringNotices level.name
  | .error _ => []

end Model

end Express
