import Express.Draft.Spec
import Express.Model
import Express.Notice
import Express.Outcome

/-!
# Drafts

A model while it is being put together, one declaration after the other. A name that is used before it is declared gets
a placeholder entity, and its declaration later takes over the placeholder's slot. The first failure of any step is
remembered, and a draft with a failure never becomes a model.
-/

namespace Express

structure Draft where
  model : Model
  /-- The names of the types and entities declared so far, in order. -/
  declared : List Name := []
  /-- Each placeholder's name and the entity that used it first. -/
  referrers : List (Name × Name) := []
  /-- The names that have to be entities when the draft is finished. -/
  entityUses : List Name := []
  failure : Option ModelError := none
  notices : List Notice := []

namespace Draft

def empty (settings : Settings) : Draft where
  model := { settings }

def note (draft : Draft) (notice : Notice) : Draft :=
  { draft with notices := draft.notices ++ [notice] }

/-- Gives a definition the next slot. -/
def append (draft : Draft) (definition : Definition) : Draft :=
  { draft with model := { draft.model with
      definitions := draft.model.definitions ++ [definition]
      index := draft.model.index.insert definition.name draft.model.definitions.length } }

/-- Puts a definition into a slot. -/
def replace (draft : Draft) (slot : Nat) (definition : Definition) : Draft :=
  { draft with model := { draft.model with definitions := draft.model.definitions.set slot definition } }

/-- Makes sure that a name has a slot. -/
def resolve (draft : Draft) (name referrer : Name) : Draft :=
  if draft.model.contains name then draft
  else
    let draft := draft.note (.placeholder name referrer)
    { draft with referrers := draft.referrers ++ [(name, referrer)] }.append (.entity (.placeholder name))

/-- Uses a name as a parent or child of an entity. -/
def relate (draft : Draft) (referrer name : Name) : Draft :=
  let draft := draft.resolve name referrer
  { draft with entityUses := draft.entityUses ++ [name] }

/-- Declares a definition, in the slot of its placeholder if it has one. -/
def declare (draft : Draft) (definition : Definition) : Outcome ModelError Draft Nat :=
  let name := definition.name
  if draft.declared.contains name then (.error (.duplicateDeclaration name), draft)
  else
    let draft := { draft with declared := draft.declared ++ [name] }.note (.declaration name definition.kind)
    match draft.model.slot? name with
    | some slot => (.ok slot, draft.replace slot definition)
    | none => (.ok draft.model.definitions.length, draft.append definition)

/-- The type of an attribute that may be attached to a declared entity. -/
def attributeType (draft : Draft) (entity : Name) (spec : AttributeSpec) : Except ModelError TypeRef :=
  if !(draft.model.contains entity && draft.declared.contains entity) then .error (.undeclared entity spec.name.base)
  else if spec.type.isCollection && spec.type.rank == 0 then .error (.collectionWithoutRank entity spec.name.base)
  else if spec.role.forAttr?.isSome && spec.optional then .error (.optionalInverse entity spec.name.base)
  else spec.type.resolve

/-- Records the link of an inverse attribute. -/
def link (draft : Draft) (entity : Name) (spec : AttributeSpec) : Draft :=
  match spec.role with
  | .inverse forAttr =>
    let link : ReverseLink :=
      { owner := entity, ownerAttr := spec.name.base, target := spec.type.base, targetAttr := forAttr }
    let draft := draft.note (.reverseLink link)
    { draft with
      entityUses := draft.entityUses ++ [link.target]
      model := { draft.model with links := draft.model.links.insert link } }
  | _ => draft

/-- Makes sure that the name of an attribute's type has a slot, unless it is a simple or generic one. -/
def withType (draft : Draft) (entity : Name) (spec : AttributeSpec) : Draft :=
  if spec.type.namesDefinition then draft.resolve spec.type.base entity else draft

/-- Attaches an attribute behind those that the entity has. -/
def attach (draft : Draft) (entity : Name) (spec : AttributeSpec) : Outcome ModelError Draft Unit :=
  match draft.attributeType entity spec with
  | .error e => (.error e, draft)
  | .ok type =>
    let slot? := draft.model.slot? entity
    let draft := draft.withType entity spec
    match slot?, slot?.bind fun slot => draft.model.definitions[slot]? with
    | some slot, some (.entity e) =>
      let entire := { e with attributes := e.attributes ++ [spec.attach type] }
      (.ok (), (draft.replace slot (.entity entire)).link entity spec)
    | some _, some other => (.error (.kindMismatch entity .entity other.kind), draft)
    | _, _ => (.error (.undeclared entity spec.name.base), draft)

/-- Remembers the first failure. -/
def guarded {α : Type} (outcome : Outcome ModelError Draft α) : Outcome ModelError Draft α :=
  match outcome with
  | (.error e, draft) => (.error e, { draft with failure := draft.failure.or (some e) })
  | _ => outcome

/-! ### Steps -/

def addType (draft : Draft) (decl : TypeDecl) : Outcome ModelError Draft Nat :=
  guarded <| match decl.definition draft.model.settings with
    | .error e => (.error e, draft)
    | .ok definition => draft.declare definition

/-- Reports a supertype expression that has no effect. -/
def noteIgnored (draft : Draft) (decl : EntityDecl) : Draft :=
  match decl.ignoredExpression? with
  | some expression => draft.note (.expressionIgnored decl.name expression)
  | none => draft

/-- Relates a declared entity to its children and parents and attaches its attributes. -/
def complete (draft : Draft) (decl : EntityDecl) : Outcome ModelError Draft Unit :=
  runAll (·.attach decl.name) ((decl.children ++ decl.subtypeOf).foldl (·.relate decl.name) draft)
    (decl.attributes draft.model.settings)

def addEntity (draft : Draft) (decl : EntityDecl) : Outcome ModelError Draft Nat :=
  guarded <| match (draft.noteIgnored decl).declare (.entity decl.bare) with
    | (.error e, draft) => (.error e, draft)
    | (.ok slot, draft) =>
      match draft.complete decl with
      | (.error e, draft) => (.error e, draft)
      | (.ok (), draft) => (.ok slot, draft)

def addFunction (draft : Draft) (decl : FunctionDecl) : Outcome ModelError Draft Unit :=
  guarded <|
    if (draft.model.functionSlot? decl.name).isSome then (.error (.duplicateDeclaration decl.name), draft)
    else match decl.signature draft.model.settings with
      | .error e => (.error e, draft)
      | .ok function =>
        let draft := draft.note (.function decl.name function.parameters.length)
        (.ok (), { draft with model := { draft.model with
          functions := draft.model.functions ++ [function]
          functionIndex := draft.model.functionIndex.insert decl.name draft.model.functions.length } })

/-- Attaches an attribute to an entity that is already declared. -/
def addAttribute (draft : Draft) (entity : Name) (spec : AttributeSpec) : Outcome ModelError Draft Unit :=
  guarded (draft.attach entity spec)

/-- A step whose answer does not matter. -/
def unitary {α : Type} : Outcome ModelError Draft α → Outcome ModelError Draft Unit
  | (.ok _, draft) => (.ok (), draft)
  | (.error e, draft) => (.error e, draft)

def addDeclaration (draft : Draft) : Declaration → Outcome ModelError Draft Unit
  | .type decl => unitary (draft.addType decl)
  | .entity decl => unitary (draft.addEntity decl)
  | .function decl => draft.addFunction decl
  | .rule name => (.ok (), draft.note (.ruleSkipped name))

/-- Takes over a schema's name and its declarations up to the first that fails. -/
def addSchema (draft : Draft) (schema : Schema) : Outcome ModelError Draft Unit :=
  runAll addDeclaration { draft with model := { draft.model with schema := schema.name } } schema.declarations

end Draft

end Express
