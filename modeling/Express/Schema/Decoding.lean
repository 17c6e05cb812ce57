import Express.Json.Record
import Express.Schema

/-!
# Schemas from JSON

Flags and lists of a record have defaults and may be left out. A tag inside a declaration may also be given by its
position among the variants.
-/

namespace Express

open Json (Record record? variant? tagName? keyword? str? bool? list?)

def SimpleType.ofJson? : Json → Option SimpleType :=
  keyword? all keyword

def AggregateKind.ofJson? : Json → Option AggregateKind :=
  keyword? all keyword

def ElementType.tags : List String :=
  ["collection", "simple", "named", "generic"]

def CollectionHead.fields : List String :=
  ["kind", "bounds", "optional_elements", "unique", "element"]

/-- The fields of a collection type's record other than its element. -/
def CollectionHead.ofRecord? {whole : Json} (record : Record whole) : Option CollectionHead := do
  return {
    kind := ← record.required "kind" AggregateKind.ofJson?
    bounds := ← record.optional "bounds" str?
    optionalElements := ← record.defaulted "optional_elements" false bool?
    unique := ← record.defaulted "unique" false bool? }

def ElementType.ofJson? (whole : Json) : Option ElementType := do
  let variant ← variant? "tag" whole
  match ← tagName? tags true variant.tag with
  | "collection" =>
    let outer ← record? ["ty"] variant.content.1
    let type ← outer.get? "ty"
    let record ← record? CollectionHead.fields type.1
    let head ← CollectionHead.ofRecord? record
    let element ← record.get? "element"
    return .collection head (← ElementType.ofJson? element.1)
  | "simple" =>
    let record ← record? ["ty"] variant.content.1
    return .simple (← record.required "ty" SimpleType.ofJson?)
  | "named" =>
    let record ← record? ["name"] variant.content.1
    return .named (← record.required "name" str?)
  | _ =>
    let record ← record? ["label"] variant.content.1
    return .generic (← record.optional "label" str?)
termination_by sizeOf whole
decreasing_by
  have := variant.content.2
  have := type.2
  have := element.2
  omega

def ParamType.tags : List String :=
  ["simple", "named", "generic", "collection", "aggregate"]

def ParamType.ofJson? (whole : Json) : Option ParamType := do
  let variant ← variant? "tag" whole
  match ← tagName? tags true variant.tag with
  | "simple" =>
    let record ← record? ["ty"] variant.content.1
    return .simple (← record.required "ty" SimpleType.ofJson?)
  | "named" =>
    let record ← record? ["name"] variant.content.1
    return .named (← record.required "name" str?)
  | "generic" =>
    let record ← record? ["label"] variant.content.1
    return .generic (← record.optional "label" str?)
  | "collection" =>
    let record ← record? ["kind", "bounds", "element"] variant.content.1
    let kind ← record.required "kind" AggregateKind.ofJson?
    let bounds ← record.optional "bounds" str?
    let element ← record.get? "element"
    return .collection kind bounds (← ParamType.ofJson? element.1)
  | _ =>
    let record ← record? ["label", "element"] variant.content.1
    let label ← record.optional "label" str?
    let element ← record.get? "element"
    return .aggregate label (← ParamType.ofJson? element.1)
termination_by sizeOf whole
decreasing_by
  all_goals
    have := variant.content.2
    have := element.2
    omega

def TypeBody.tags : List String :=
  ["simple", "collection", "named", "enumeration", "select"]

def TypeBody.ofJson? (whole : Json) : Option TypeBody := do
  let variant ← variant? "tag" whole
  match ← tagName? tags true variant.tag with
  | "simple" =>
    let record ← record? ["ty"] variant.content.1
    return .simple (← record.required "ty" SimpleType.ofJson?)
  | "collection" =>
    let outer ← record? ["ty"] variant.content.1
    let type ← outer.get? "ty"
    let record ← record? CollectionHead.fields type.1
    return .collection (← CollectionHead.ofRecord? record) (← record.required "element" ElementType.ofJson?)
  | "named" =>
    let record ← record? ["name"] variant.content.1
    return .named (← record.required "name" str?)
  | "enumeration" =>
    let record ← record? ["values"] variant.content.1
    return .enumeration (← record.required "values" (list? str?))
  | _ =>
    let record ← record? ["alternatives"] variant.content.1
    return .select (← record.required "alternatives" (list? str?))

def SupertypeClause.ofJson? (whole : Json) : Option SupertypeClause := do
  let record ← record? ["is_abstract", "choice", "expr_text"] whole
  return {
    isAbstract := ← record.required "is_abstract" bool?
    choice := ← record.optional "choice" (list? str?)
    expression := ← record.optional "expr_text" str? }

def AttributeName.tags : List String :=
  ["simple", "qualified"]

def AttributeName.ofJson? (whole : Json) : Option AttributeName := do
  let variant ← variant? "tag" whole
  match ← tagName? tags true variant.tag with
  | "simple" =>
    let record ← record? ["name"] variant.content.1
    return .simple (← record.required "name" str?)
  | _ =>
    let record ← record? ["entity", "attribute"] variant.content.1
    return .qualified (← record.required "entity" str?) (← record.required "attribute" str?)

def ExplicitClause.ofJson? (whole : Json) : Option ExplicitClause := do
  let record ← record? ["names", "optional", "ty"] whole
  return {
    names := ← record.required "names" (list? AttributeName.ofJson?)
    optional := ← record.defaulted "optional" false bool?
    type := ← record.required "ty" ElementType.ofJson? }

def DerivedClause.ofJson? (whole : Json) : Option DerivedClause := do
  let record ← record? ["name", "ty", "expr"] whole
  return {
    name := ← record.required "name" AttributeName.ofJson?
    type := ← record.required "ty" ElementType.ofJson?
    expression := ← record.required "expr" str? }

def InverseAggregate.ofJson? (whole : Json) : Option InverseAggregate := do
  let record ← record? ["kind", "bounds"] whole
  return {
    kind := ← record.required "kind" AggregateKind.ofJson?
    bounds := ← record.optional "bounds" str? }

def InverseClause.ofJson? (whole : Json) : Option InverseClause := do
  let record ← record? ["name", "aggregate", "entity", "for_attribute"] whole
  return {
    name := ← record.required "name" AttributeName.ofJson?
    aggregate := ← record.optional "aggregate" InverseAggregate.ofJson?
    entity := ← record.required "entity" str?
    forAttr := ← record.required "for_attribute" str? }

def ParameterClause.ofJson? (whole : Json) : Option ParameterClause := do
  let record ← record? ["names", "ty"] whole
  return {
    names := ← record.required "names" (list? str?)
    type := ← record.required "ty" ParamType.ofJson? }

def TypeDecl.ofJson? (whole : Json) : Option TypeDecl := do
  let record ← record? ["name", "body"] whole
  return {
    name := ← record.required "name" str?
    body := ← record.required "body" TypeBody.ofJson? }

def EntityDecl.ofJson? (whole : Json) : Option EntityDecl := do
  let record ← record? ["name", "supertype", "subtype_of", "explicit", "derived", "inverse"] whole
  return {
    name := ← record.required "name" str?
    supertype := ← record.optional "supertype" SupertypeClause.ofJson?
    subtypeOf := ← record.defaulted "subtype_of" [] (list? str?)
    explicit := ← record.defaulted "explicit" [] (list? ExplicitClause.ofJson?)
    derived := ← record.defaulted "derived" [] (list? DerivedClause.ofJson?)
    inverse := ← record.defaulted "inverse" [] (list? InverseClause.ofJson?) }

def FunctionDecl.ofJson? (whole : Json) : Option FunctionDecl := do
  let record ← record? ["name", "params", "return_type"] whole
  return {
    name := ← record.required "name" str?
    parameters := ← record.defaulted "params" [] (list? ParameterClause.ofJson?)
    returnType := ← record.required "return_type" ParamType.ofJson? }

def Declaration.tags : List String :=
  ["type", "entity", "function", "rule"]

def Declaration.ofJson? (whole : Json) : Option Declaration := do
  let variant ← variant? "kind" whole
  match ← tagName? tags false variant.tag with
  | "type" => return .type (← TypeDecl.ofJson? variant.content.1)
  | "entity" => return .entity (← EntityDecl.ofJson? variant.content.1)
  | "function" => return .function (← FunctionDecl.ofJson? variant.content.1)
  | _ =>
    let record ← record? ["name"] variant.content.1
    return .rule (← record.required "name" str?)

def Schema.ofJson? (whole : Json) : Option Schema := do
  let record ← record? ["name", "declarations"] whole
  return {
    name := ← record.required "name" str?
    declarations := ← record.required "declarations" (list? Declaration.ofJson?) }

end Express
