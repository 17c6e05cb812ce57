import Express.Model.Choice
import Express.Outcome
import Express.Wiring

/-!
# Pages

Everything that a rendering backend has to know about one definition. `Model.drive` hands a page for each declared
definition to a backend, in registration order, and then the functions and the names of all pages.
-/

namespace Express

structure EntityPage where
  entity : Entity
  /-- The parameters of each constructor along the whole chain. -/
  constructors : List (List Attribute)
  signatures : List (List TypeRef)
  wiring : List WiringRule
  fields : List Model.RecordField
  selects : List Name
  deriving DecidableEq, Repr

structure EnumerationPage where
  enumeration : Enumeration
  selects : List Name
  deriving DecidableEq, Repr

structure Alternative where
  name : Name
  /-- Absent for a name without a definition. -/
  kind : Option Kind
  isForeign : Bool
  deriving DecidableEq, Repr

structure SelectPage where
  name : Name
  alternatives : List Alternative
  leaves : List Name
  selects : List Name
  deriving DecidableEq, Repr

structure WrapperPage where
  wrapper : Wrapper
  selects : List Name
  deriving DecidableEq, Repr

inductive Page where
  | entity (page : EntityPage)
  | enumeration (page : EnumerationPage)
  | select (page : SelectPage)
  | wrapper (page : WrapperPage)
  deriving DecidableEq, Repr

namespace Page

def name : Page → Name
  | .entity p => p.entity.name
  | .enumeration p => p.enumeration.name
  | .select p => p.name
  | .wrapper p => p.wrapper.name

def kind : Page → Kind
  | .entity _ => .entity
  | .enumeration _ => .enumeration
  | .select _ => .select
  | .wrapper _ => .wrapper

end Page

namespace Model

def entityPage (model : Model) (name : Name) : Except LookupError EntityPage := do
  let entity ← model.entity name
  return {
    entity
    constructors := ← model.overloads name
    signatures := ← model.signatures name
    wiring := ← model.wiringRules name
    fields := ← model.recordFields name
    selects := model.selectsContaining name }

def enumerationPage (model : Model) (name : Name) : Except LookupError EnumerationPage := do
  let enumeration ← model.enumeration name
  return { enumeration, selects := model.selectsContaining name }

def selectPage (model : Model) (name : Name) : Except LookupError SelectPage := do
  let select ← model.select name
  return {
    name := select.name
    alternatives := select.alternatives.map fun alternative =>
      { name := alternative
        kind := (model.find? alternative).map (·.kind)
        isForeign := model.settings.isForeign alternative }
    leaves := ← model.leaves name
    selects := model.selectsContaining name }

def wrapperPage (model : Model) (name : Name) : Except LookupError WrapperPage := do
  let wrapper ← model.wrapper name
  return { wrapper, selects := model.selectsContaining name }

/-- The page of a definition of the model. -/
def page (model : Model) : Definition → Except LookupError Page
  | .entity e => (model.entityPage e.name).map .entity
  | .enumeration e => (model.enumerationPage e.name).map .enumeration
  | .select s => (model.selectPage s.name).map .select
  | .wrapper w => (model.wrapperPage w.name).map .wrapper

/-- What is told while the page of a definition is put together. -/
def pageNotices (model : Model) : Definition → List Notice
  | .entity e => model.wiringNotices e.name
  | _ => []

end Model

/-! ### Backends -/

/-- Takes what is rendered, with a state of its own. -/
structure Backend (σ ε : Type) where
  note : Notice → σ → σ
  page : Page → σ → Except ε σ
  functions : List FunctionSignature → σ → Except ε σ
  manifest : List Name → σ → Except ε σ

inductive RenderError (ε : Type) where
  | lookup (e : LookupError)
  | backend (e : ε)
  deriving DecidableEq, Repr

def RenderError.message {ε : Type} (text : ε → String) : RenderError ε → String
  | .lookup e => e.message
  | .backend e => "backend failed: " ++ text e

/-- The state of a backend and the names rendered so far. -/
structure Rendered (σ : Type) where
  state : σ
  names : List Name := []

namespace Backend

variable {σ ε : Type}

/-- Makes a call, leaving the state alone if it fails. -/
def call (action : σ → Except ε σ) (state : σ) : Outcome (RenderError ε) σ Unit :=
  match action state with
  | .ok state => (.ok (), state)
  | .error e => (.error (.backend e), state)

/-- Renders one definition and puts its name down. Placeholders are skipped. -/
def render (backend : Backend σ ε) (model : Model) (rendered : Rendered σ) (definition : Definition) :
    Outcome (RenderError ε) (Rendered σ) Unit :=
  if definition.isPlaceholder then
    (.ok (), { rendered with state := backend.note (.placeholderSkipped definition.name) rendered.state })
  else
    let state := (model.pageNotices definition).foldl (fun state notice => backend.note notice state) rendered.state
    match model.page definition with
    | .error e => (.error (.lookup e), { rendered with state })
    | .ok page =>
      match call (backend.page page) state with
      | (.error e, state) => (.error e, { rendered with state })
      | (.ok (), state) => (.ok (), { state, names := rendered.names ++ [definition.name] })

end Backend

/-- Renders a model up to the first failure. -/
def Model.drive {σ ε : Type} (model : Model) (backend : Backend σ ε) (state : σ) : Outcome (RenderError ε) σ Unit :=
  match runAll (backend.render model) { state } model.definitions with
  | (.error e, rendered) => (.error e, rendered.state)
  | (.ok (), rendered) =>
    match Backend.call (backend.functions model.functions) rendered.state with
    | (.error e, state) => (.error e, state)
    | (.ok (), state) => Backend.call (backend.manifest rendered.names) state

end Express
