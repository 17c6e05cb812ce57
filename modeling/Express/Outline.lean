import Express.Fingerprint
import Express.Json.Printer
import Express.Page

/-!
# Outlines

The outline of a model: one JSON document for each declared definition, the functions, and a manifest that lists the
documents. Bodies have their keys in order.
-/

namespace Express

structure OutlineOptions where
  /-- Stands in a record for a field that a subtype derives anew. -/
  hiddenMarker : String := "*"
  pretty : Bool := true
  deriving DecidableEq, Repr

namespace OutlineOptions

def toJson (options : OutlineOptions) : Json :=
  .obj [("hidden_marker", .str options.hiddenMarker), ("pretty", .bool options.pretty)]

def ofJson? (whole : Json) : Option OutlineOptions := do
  let record ← Json.record? ["hidden_marker", "pretty"] whole
  let standard : OutlineOptions := {}
  return {
    hiddenMarker := ← record.defaulted "hidden_marker" standard.hiddenMarker Json.str?
    pretty := ← record.defaulted "pretty" standard.pretty Json.bool? }

def layout (options : OutlineOptions) : Json.Layout :=
  if options.pretty then .indented else .compact

end OutlineOptions

structure Document where
  name : Name
  kind : Kind
  body : Json

structure ManifestEntry where
  name : Name
  artifact : String
  deriving DecidableEq, Repr

structure Manifest where
  schema : Name
  /-- The fingerprint of the text that the model was made from. -/
  digest : Option String := none
  entries : List ManifestEntry := []
  deriving DecidableEq, Repr

structure Outline where
  documents : List Document
  functions : Json
  manifest : Manifest

/-! ### JSON -/

def Document.toJson (document : Document) : Json :=
  .obj [("name", .str document.name), ("kind", .str document.kind.key), ("body", document.body)]

def ManifestEntry.toJson (entry : ManifestEntry) : Json :=
  .obj [("name", .str entry.name), ("artifact", .str entry.artifact)]

def Manifest.toJson (manifest : Manifest) : Json :=
  .obj ([("schema", .str manifest.schema)] ++ Json.member? "digest" .str manifest.digest ++
    [("entries", .arr (manifest.entries.map (·.toJson)))])

namespace Outline

def toJson (outline : Outline) : Json :=
  .obj [("documents", .arr (outline.documents.map (·.toJson))), ("functions", outline.functions),
    ("manifest", outline.manifest.toJson)]

def text (outline : Outline) (layout : Json.Layout) : String :=
  outline.toJson.render layout

def document? (outline : Outline) (name : Name) : Option Document :=
  outline.documents.find? (·.name == name)

end Outline

/-- An attribute as a property, with the name of its parameter. -/
def Attribute.toPropertyJson (attr : Attribute) : Json :=
  .obj ([("name", .str attr.name), ("parameter_name", .str attr.parameterName), ("ty", attr.type.toJson),
    ("optional", .bool attr.optional), ("derived", .bool attr.derived), ("inverse", .bool attr.inverse),
    ("hides_parent", .bool attr.hidesParent)] ++ Json.member? "redeclares" .str attr.redeclares)

def Alternative.toJson (alternative : Alternative) : Json :=
  .obj [("name", .str alternative.name), ("kind", Json.ofOption (fun kind => .str kind.key) alternative.kind),
    ("opaque", .bool alternative.isForeign)]

def FunctionSignature.toOutlineJson (function : FunctionSignature) : Json :=
  .obj (function.members ++ [("generic", .bool function.isGeneric)])

namespace Page

def body (options : OutlineOptions) (page : Page) : Json :=
  Json.sortKeys <| .obj <| match page with
    | .entity p =>
      [("name", .str p.entity.name),
        ("abstract", .bool p.entity.isAbstract),
        ("base", Json.ofOption .str p.entity.parent?),
        ("parents", .strs p.entity.parents),
        ("children", .strs p.entity.children),
        ("properties", .arr (p.entity.attributes.map (·.toPropertyJson))),
        ("constructors", .arr (p.constructors.map fun parameters => .strs (parameters.map (·.parameterName)))),
        ("signatures", .arr (p.signatures.map fun types => .strs (types.map (·.text)))),
        ("wiring", .arr (p.wiring.map (·.toJson))),
        ("record", .strs (p.fields.map fun field => if field.hidden then options.hiddenMarker else field.attr.name)),
        ("selects", .strs p.selects)]
    | .enumeration p =>
      [("name", .str p.enumeration.name), ("literals", .strs p.enumeration.literals), ("selects", .strs p.selects)]
    | .select p =>
      [("name", .str p.name), ("alternatives", .arr (p.alternatives.map (·.toJson))), ("flattened", .strs p.leaves),
        ("selects", .strs p.selects)]
    | .wrapper p =>
      [("name", .str p.wrapper.name), ("wrapped", p.wrapper.wrapped.toJson), ("selects", .strs p.selects)]

end Page

/-! ### Rendering -/

namespace Outline

/-- An outline while it is being rendered. -/
structure Progress where
  outline : Outline
  notices : List Notice := []

def start (schema : Name) (source : Option String) : Progress where
  outline := {
    documents := []
    functions := .arr []
    manifest := { schema, digest := source.map Fingerprint.ofText } }

def note (notice : Notice) (progress : Progress) : Progress :=
  { progress with notices := progress.notices ++ [notice] }

def addPage (options : OutlineOptions) (page : Page) (progress : Progress) : Progress :=
  let document := { name := page.name, kind := page.kind, body := page.body options }
  note (.document page.name page.kind)
    { progress with outline := { progress.outline with documents := progress.outline.documents ++ [document] } }

def setFunctions (functions : List FunctionSignature) (progress : Progress) : Progress :=
  let functions := Json.sortKeys (.arr (functions.map (·.toOutlineJson)))
  { progress with outline := { progress.outline with functions } }

def setEntries (names : List Name) (progress : Progress) : Progress :=
  let entries := names.map fun name => { name, artifact := name ++ ".json" }
  { progress with outline := { progress.outline with manifest := { progress.outline.manifest with entries } } }

/-- The backend that makes outlines. It refuses nothing. -/
def backend (options : OutlineOptions) : Backend Progress Empty where
  note := note
  page page progress := .ok (addPage options page progress)
  functions functions progress := .ok (setFunctions functions progress)
  manifest names progress := .ok (setEntries names progress)

/-- The outline of a model, with the digest of its source if that is given, and the notices made on the way. -/
def render (model : Model) (options : OutlineOptions) (source : Option String) :
    Outcome (RenderError Empty) (List Notice) Outline :=
  match model.drive (backend options) (start model.schema source) with
  | (.ok (), progress) => (.ok progress.outline, progress.notices)
  | (.error e, progress) => (.error e, progress.notices)

end Outline

end Express
