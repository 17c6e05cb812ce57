import Express.Model.Index
import Express.Settings

/-!
# Models

The definitions of a schema in registration order, each in a slot of its own, with the functions and the reverse links
of all inverse attributes. Lookups by name go through the indexes and tell an unknown name from a name of another kind.
-/

namespace Express

inductive LookupError where
  | unknownType (name : Name)
  | wrongKind (name : Name) (expected found : Kind)
  | unknownFunction (name : Name)
  deriving DecidableEq, Repr

def LookupError.message : LookupError → String
  | .unknownType name => s!"`{name}` is not registered in the model"
  | .wrongKind name expected found => s!"`{name}` is {found.phrase}, not {expected.phrase}"
  | .unknownFunction name => s!"function `{name}` is not registered in the model"

structure Model where
  schema : Name := ""
  settings : Settings := {}
  /-- In registration order; a definition's position is its slot. -/
  definitions : List Definition := []
  /-- The slot of each definition. -/
  index : Index := {}
  links : ReverseIndex := .empty
  functions : List FunctionSignature := []
  /-- The position of each function. -/
  functionIndex : Index := {}
  /-- For each alternative of a select, the selects that name it. -/
  memberships : List (Name × List Name) := []
  deriving DecidableEq, Repr

namespace Model

/-! ### Lookup -/

def slot? (model : Model) (name : Name) : Option Nat :=
  model.index.get? name

def find? (model : Model) (name : Name) : Option Definition :=
  (model.slot? name).bind fun slot => model.definitions[slot]?

def contains (model : Model) (name : Name) : Bool :=
  (model.slot? name).isSome

def get (model : Model) (name : Name) : Except LookupError Definition :=
  match model.find? name with
  | some definition => .ok definition
  | none => .error (.unknownType name)

def entity (model : Model) (name : Name) : Except LookupError Entity := do
  match ← model.get name with
  | .entity e => .ok e
  | other => .error (.wrongKind name .entity other.kind)

def enumeration (model : Model) (name : Name) : Except LookupError Enumeration := do
  match ← model.get name with
  | .enumeration e => .ok e
  | other => .error (.wrongKind name .enumeration other.kind)

def select (model : Model) (name : Name) : Except LookupError Select := do
  match ← model.get name with
  | .select s => .ok s
  | other => .error (.wrongKind name .select other.kind)

def wrapper (model : Model) (name : Name) : Except LookupError Wrapper := do
  match ← model.get name with
  | .wrapper w => .ok w
  | other => .error (.wrongKind name .wrapper other.kind)

def functionSlot? (model : Model) (name : Name) : Option Nat :=
  model.functionIndex.get? name

def function (model : Model) (name : Name) : Except LookupError FunctionSignature :=
  match (model.functionSlot? name).bind fun slot => model.functions[slot]? with
  | some function => .ok function
  | none => .error (.unknownFunction name)

/-! ### Listings -/

def entities (model : Model) : List Entity :=
  model.definitions.filterMap (·.asEntity?)

def selects (model : Model) : List Select :=
  model.definitions.filterMap (·.asSelect?)

def names (model : Model) : List Name :=
  model.definitions.map (·.name)

/-- The names that are used and not declared. -/
def placeholders (model : Model) : List Name :=
  (model.definitions.filter (·.isPlaceholder)).map (·.name)

/-! ### Reverse links -/

/-- The links against an entity, in declaration order. -/
def linksTo (model : Model) (target : Name) : List ReverseLink :=
  model.links.linksTo target

/-- All links, by the name of their target and then in declaration order. -/
def sortedLinks (model : Model) : List ReverseLink :=
  model.links.all

/-- The entities that some link is against, by name. -/
def linkTargets (model : Model) : List Name :=
  model.links.targets

end Model

end Express
