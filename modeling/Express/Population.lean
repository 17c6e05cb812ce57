import Express.Outcome
import Express.Wiring

/-!
# Populations

Instances of a model's entities with values for their attributes. Stored attributes are set; inverse attributes are
filled by wiring only.
-/

namespace Express

inductive PopulationError where
  | lookup (e : LookupError)
  | abstractEntity (entity : Name)
  | unknownAttribute (entity attr : Name)
  | cardinalityMismatch (entity attr : Name)
  | unknownInstance (id : Nat)
  deriving DecidableEq, Repr

def PopulationError.message : PopulationError → String
  | .lookup e => e.message
  | .abstractEntity entity => s!"cannot instantiate abstract entity `{entity}`"
  | .unknownAttribute entity attr => s!"`{entity}` has no attribute `{attr}`"
  | .cardinalityMismatch entity attr => s!"{entity}.{attr}: value does not match the attribute's cardinality"
  | .unknownInstance id => s!"no instance with id {id}"

/-- What an attribute of an instance holds. -/
inductive Slot where
  | empty
  | one (id : Nat)
  | many (ids : List Nat)
  deriving DecidableEq, Repr

namespace Slot

def ids : Slot → List Nat
  | .empty => []
  | .one id => [id]
  | .many ids => ids

def contains (slot : Slot) (id : Nat) : Bool :=
  slot.ids.contains id

/-- Adds an instance at the end, unless it is one of several already. -/
def append (slot : Slot) (id : Nat) : Slot :=
  match slot with
  | .empty => .many [id]
  | .one other => .many [other, id]
  | .many ids => if ids.contains id then .many ids else .many (ids ++ [id])

/-- Whether an attribute of this type may hold the slot. -/
def fits (slot : Slot) (type : TypeRef) : Bool :=
  match slot with
  | .empty => true
  | .one _ => !type.isCollection
  | .many _ => type.isCollection

end Slot

structure Instance where
  entity : Name
  /-- The attributes that have been given a value. -/
  slots : List (Name × Slot) := []
  deriving DecidableEq, Repr

namespace Instance

def slot (inst : Instance) (attr : Name) : Slot :=
  (inst.slots.lookup attr).getD .empty

/-- Replaces the value for a key, or adds the key at the end. -/
def insert (attr : Name) (value : Slot) : List (Name × Slot) → List (Name × Slot)
  | [] => [(attr, value)]
  | (key, old) :: others => if key = attr then (key, value) :: others else (key, old) :: insert attr value others

def put (inst : Instance) (attr : Name) (value : Slot) : Instance :=
  { inst with slots := insert attr value inst.slots }

end Instance

/-- Instances in order of creation; an instance's position is its id. -/
structure Population where
  instances : List Instance := []
  notices : List Notice := []

namespace Population

variable (model : Model)

def instance? (population : Population) (id : Nat) : Except PopulationError Instance :=
  match population.instances[id]? with
  | some inst => .ok inst
  | none => .error (.unknownInstance id)

def entityOf (population : Population) (id : Nat) : Except PopulationError Name :=
  (population.instance? id).map (·.entity)

def get (population : Population) (id : Nat) (attr : Name) : Except PopulationError Slot :=
  (population.instance? id).map (·.slot attr)

/-- Changes a slot of an instance. -/
def update (population : Population) (id : Nat) (attr : Name) (change : Slot → Slot) : Population :=
  { population with instances := population.instances.modify id fun inst => inst.put attr (change (inst.slot attr)) }

/-- A new instance without values. -/
def create (population : Population) (entity : Name) : Outcome PopulationError Population Nat :=
  match model.entity entity with
  | .error e => (.error (.lookup e), population)
  | .ok found =>
    if found.isAbstract then (.error (.abstractEntity entity), population)
    else (.ok population.instances.length,
      { population with instances := population.instances ++ [{ entity := found.name }] })

/-- The value may be stored: the attribute is there, its cardinality fits and every instance referred to exists. -/
def checkValue (population : Population) (id : Nat) (attr : Name) (value : Slot) : Except PopulationError Unit := do
  let entity ← population.entityOf id
  match model.forwardAttribute entity attr with
  | .error e => .error (.lookup e)
  | .ok none => .error (.unknownAttribute entity attr)
  | .ok (some found) =>
    if value.fits found.type then value.ids.forM fun id => do let _ ← population.instance? id
    else .error (.cardinalityMismatch entity attr)

/-- Stores a value for an explicit attribute. -/
def set (population : Population) (id : Nat) (attr : Name) (value : Slot) : Outcome PopulationError Population Unit :=
  match population.checkValue model id attr value with
  | .error e => (.error e, population)
  | .ok () => (.ok (), population.update id attr fun _ => value)

/-- Puts instance `id` of an entity into an instance that it refers to, if that has the inverse attribute. -/
def wireTarget (id : Nat) (entity : Name) (rule : WiringRule) (population : Population) (target : Nat) :
    Outcome PopulationError Population Unit :=
  match population.entityOf target with
  | .error e => (.error e, population)
  | .ok targetEntity =>
    match model.isSubtypeOf targetEntity rule.owner with
    | .error e => (.error (.lookup e), population)
    | .ok false => (.ok (), population)
    | .ok true =>
      let notice := .wire entity rule.attr rule.owner rule.ownerAttr rule.action.title
      let population := { population with notices := population.notices ++ [notice] }
      (.ok (), population.update target rule.ownerAttr fun slot =>
        if rule.action.appends then slot.append id else .one id)

/-- Runs one rule for instance `id` on every instance that its attribute refers to. -/
def wireRule (id : Nat) (entity : Name) (population : Population) (rule : WiringRule) :
    Outcome PopulationError Population Unit :=
  match population.get id rule.attr with
  | .error e => (.error e, population)
  | .ok slot => runAll (wireTarget model id entity rule) population slot.ids

/-- Runs all rules of an instance's entity. -/
def wire (population : Population) (id : Nat) : Outcome PopulationError Population Unit :=
  match population.entityOf id with
  | .error e => (.error e, population)
  | .ok entity =>
    let population := { population with notices := population.notices ++ model.wiringNotices entity }
    match model.wiringRules entity with
    | .error e => (.error (.lookup e), population)
    | .ok rules => runAll (wireRule model id entity) population rules

/-- A new instance with values for some attributes, wired. A failure leaves the instance behind. -/
def construct (population : Population) (entity : Name) (values : List (Name × Slot)) :
    Outcome PopulationError Population Nat :=
  match population.create model entity with
  | (.error e, population) => (.error e, population)
  | (.ok id, population) =>
    match runAll (fun population (attr, value) => population.set model id attr value) population values with
    | (.error e, population) => (.error e, population)
    | (.ok (), population) =>
      match population.wire model id with
      | (.error e, population) => (.error e, population)
      | (.ok (), population) => (.ok id, population)

end Population

end Express
