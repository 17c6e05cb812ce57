import Express.Model

/-!
# Ancestry

An entity inherits from its first declared parent only, so its ancestors form a chain.
-/

namespace Express.Model

/-- The chain from the root down to `entity`. It ends at a parent that has been visited or is not an entity. -/
def climb (model : Model) : Nat → List Name → Entity → List Entity
  | 0, _, entity => [entity]
  | fuel + 1, visited, entity =>
    match entity.parent? with
    | none => [entity]
    | some parent =>
      if parent ∈ visited then [entity]
      else match model.find? parent with
        | some (.entity above) => model.climb fuel (parent :: visited) above ++ [entity]
        | _ => [entity]

/-- The entity's ancestors from the root on, and the entity itself. A chain without repetition is no longer than the
list of definitions. -/
def ancestors (model : Model) (name : Name) : Except LookupError (List Entity) := do
  let entity ← model.entity name
  return model.climb model.definitions.length [entity.name] entity

/-- Whether going from parent to parent comes back to an entity already visited. -/
def revisits (model : Model) : Nat → List Name → Entity → Bool
  | 0, _, _ => false
  | fuel + 1, visited, entity =>
    match entity.parent? with
    | none => false
    | some parent =>
      if parent ∈ visited then true
      else match model.find? parent with
        | some (.entity above) => model.revisits fuel (parent :: visited) above
        | _ => false

/-- Whether the entity's line of parents runs into a circle. -/
def onCycle (model : Model) (entity : Entity) : Bool :=
  model.revisits (model.definitions.length + 1) [entity.name] entity

/-- Whether an entity is another one or inherits from it. -/
def isSubtypeOf (model : Model) (entity ancestor : Name) : Except LookupError Bool := do
  return (← model.ancestors entity).any (·.name == ancestor)

end Express.Model
