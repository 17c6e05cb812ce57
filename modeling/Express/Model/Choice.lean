import Express.Model

/-!
# Selects

The alternatives of a select may be selects themselves, in circles too. `leaves` follows them down to the names that
are not selects. The other way round, an index gives the selects that name an alternative.
-/

namespace Express.Model

/-- Selects entered so far and the leaves found so far. -/
structure Harvest where
  visited : List Name
  leaves : List Name

/-- Goes through alternatives in order, entering each select once. The fuel bounds the depth. -/
def harvest (model : Model) (fuel : Nat) (alternatives : List Name) (found : Harvest) : Harvest :=
  match alternatives with
  | [] => found
  | name :: others =>
    match model.find? name with
    | some (.select select) =>
      if select.name ∈ found.visited then model.harvest fuel others found
      else match fuel with
        | 0 => model.harvest 0 others found
        | fuel + 1 =>
          model.harvest (fuel + 1) others
            (model.harvest fuel select.alternatives { found with visited := select.name :: found.visited })
    | _ =>
      if name ∈ found.leaves then model.harvest fuel others found
      else model.harvest fuel others { found with leaves := found.leaves ++ [name] }
termination_by (fuel, alternatives.length)

/-- The names below a select that are not selects, each at its first occurrence. Every level of depth enters a select,
so there are no more levels than definitions. -/
def leaves (model : Model) (name : Name) : Except LookupError (List Name) := do
  let select ← model.select name
  return (model.harvest model.definitions.length select.alternatives { visited := [select.name], leaves := [] }).leaves

/-! ### The index of alternatives -/

/-- Records that `select` names `alternative`. -/
def noteMembership (select alternative : Name) : List (Name × List Name) → List (Name × List Name)
  | [] => [(alternative, [select])]
  | (name, selects) :: others =>
    if name = alternative then (name, if select ∈ selects then selects else selects ++ [select]) :: others
    else (name, selects) :: noteMembership select alternative others

/-- For each alternative of a select, the selects that name it. -/
def membershipsOf (selects : List Select) : List (Name × List Name) :=
  selects.foldl (fun index select => select.alternatives.foldl (fun index a => noteMembership select.name a index) index) []

/-- The selects that name `alternative` directly, in registration order. -/
def selectsContaining (model : Model) (alternative : Name) : List Name :=
  (model.memberships.lookup alternative).getD []

end Express.Model
