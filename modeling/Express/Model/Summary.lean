import Express.Model

/-!
# Summaries

How many definitions of each kind a model has.
-/

namespace Express

structure Summary where
  entities : Nat
  placeholders : Nat
  enumerations : Nat
  selects : Nat
  wrappers : Nat
  links : Nat
  functions : Nat
  deriving DecidableEq, Repr

namespace Summary

def counts (summary : Summary) : List (String × Nat) :=
  [("entities", summary.entities), ("placeholders", summary.placeholders), ("enums", summary.enumerations),
    ("selects", summary.selects), ("wrappers", summary.wrappers), ("inverse_links", summary.links),
    ("functions", summary.functions)]

def text (summary : Summary) : String :=
  " ".intercalate (summary.counts.map fun (label, count) => label ++ "=" ++ toString count)

def toJson (summary : Summary) : Json :=
  .obj (summary.counts.map fun (label, count) => (label, .nat count))

end Summary

def Model.summary (model : Model) : Summary where
  entities := model.definitions.countP fun d => d.kind == .entity && !d.isPlaceholder
  placeholders := model.definitions.countP (·.isPlaceholder)
  enumerations := model.definitions.countP (·.kind == .enumeration)
  selects := model.definitions.countP (·.kind == .select)
  wrappers := model.definitions.countP (·.kind == .wrapper)
  links := model.links.length
  functions := model.functions.length

end Express
