import Express.Definition

/-!
# Notices

What the library tells about its work while it does it. Each notice has a level, a fixed message and named fields.
-/

namespace Express

inductive Level where
  | debug
  | info
  | warn
  deriving DecidableEq, Repr

namespace Level

def text : Level → String
  | .debug => "DEBUG"
  | .info => "INFO"
  | .warn => "WARN"

def severity : Level → Nat
  | .debug => 0
  | .info => 1
  | .warn => 2

end Level

inductive Notice where
  | ruleSkipped (rule : Name)
  | expressionIgnored (entity : Name) (expression : String)
  | reverseLink (link : ReverseLink)
  | function (name : Name) (parameters : Nat)
  | declaration (name : Name) (kind : Kind)
  | placeholder (name referrer : Name)
  | caseDiffers (name declared referrer : Name)
  | neverDeclared (name referrer : Name)
  | linkNotValidated (link : ReverseLink)
  | modelBuilt (schema : Name) (summary : String)
  | linkWithoutForward (entity attr : Name)
  | wire (source attr target inverse : Name) (action : String)
  | placeholderSkipped (name : Name)
  | document (name : Name) (kind : Kind)
  deriving DecidableEq, Repr

namespace Notice

def level : Notice → Level
  | .ruleSkipped .. | .expressionIgnored .. | .caseDiffers .. | .neverDeclared .. | .linkNotValidated ..
  | .linkWithoutForward .. => .warn
  | .modelBuilt .. => .info
  | _ => .debug

def message : Notice → String
  | .ruleSkipped .. => "rule bodies are not modelled; skipping"
  | .expressionIgnored .. => "only ONEOF supertype choices populate children; expression ignored"
  | .reverseLink .. => "inverse link"
  | .function .. => "function"
  | .declaration .. => "declaration"
  | .placeholder .. => "placeholder"
  | .caseDiffers .. => "reference differs from the declaration only in case"
  | .neverDeclared .. => "referenced but never declared"
  | .linkNotValidated .. => "inverse target has undeclared ancestry; not validated"
  | .modelBuilt .. => "semantic model built"
  | .linkWithoutForward .. => "inverse names an attribute the entity does not have; no wiring"
  | .wire .. => "wire"
  | .placeholderSkipped .. => "skipping placeholder"
  | .document .. => "outline document"

def fields : Notice → List (String × String)
  | .ruleSkipped rule => [("rule", rule)]
  | .expressionIgnored entity expression => [("entity", entity), ("expression", expression)]
  | .reverseLink link =>
    [("entity", link.owner), ("attribute", link.ownerAttr), ("target_entity", link.target),
      ("for_attribute", link.targetAttr)]
  | .function name parameters => [("function", name), ("params", toString parameters)]
  | .declaration name kind => [("name", name), ("kind", kind.title)]
  | .placeholder name referrer => [("name", name), ("referenced_by", referrer)]
  | .caseDiffers name declared referrer =>
    [("name", name), ("declared_as", declared), ("referenced_by", referrer)]
  | .neverDeclared name referrer => [("name", name), ("referenced_by", referrer)]
  | .linkNotValidated link =>
    [("entity", link.owner), ("attribute", link.ownerAttr), ("target_entity", link.target)]
  | .modelBuilt schema summary => [("schema", schema), ("summary", summary)]
  | .linkWithoutForward entity attr => [("entity", entity), ("attribute", attr)]
  | .wire source attr target inverse action =>
    [("from", source), ("attribute", attr), ("to", target), ("inverse", inverse), ("action", action)]
  | .placeholderSkipped name => [("name", name)]
  | .document name kind => [("name", name), ("kind", kind.title)]

end Notice

end Express
