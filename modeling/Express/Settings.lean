import Express.Name
import Express.Json.Record

/-!
# Settings

How a model is built. Every setting has a default, so a settings document may leave any of them out.
-/

namespace Express

structure Settings where
  /-- The name that stands for a generic type. -/
  genericName : Name := "T"
  /-- Select alternatives that are literals outside the model. -/
  foreignAlternatives : List Name := ["IfcNullStyle"]
  /-- Whether a name that is used but never declared is an error. -/
  strict : Bool := false
  deriving DecidableEq, Repr

namespace Settings

def isForeign (settings : Settings) (name : Name) : Bool :=
  settings.foreignAlternatives.contains name

def toJson (settings : Settings) : Json :=
  .obj [("generic_placeholder", .str settings.genericName),
    ("opaque_select_alternatives", .strs settings.foreignAlternatives),
    ("strict_references", .bool settings.strict)]

def ofJson? (whole : Json) : Option Settings := do
  let record ← Json.record? ["generic_placeholder", "opaque_select_alternatives", "strict_references"] whole
  let standard : Settings := {}
  return {
    genericName := ← record.defaulted "generic_placeholder" standard.genericName Json.str?
    foreignAlternatives :=
      ← record.defaulted "opaque_select_alternatives" standard.foreignAlternatives (Json.list? Json.str?)
    strict := ← record.defaulted "strict_references" standard.strict Json.bool? }

end Settings

end Express
