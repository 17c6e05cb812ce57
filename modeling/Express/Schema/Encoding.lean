import Express.Json
import Express.Schema

/-!
# Schemas as JSON

Unions carry their variant's name in the member `tag`, declarations in the member `kind`. Absent options are left out.
-/

namespace Express

def SimpleType.toJson (type : SimpleType) : Json :=
  .str type.keyword

def AggregateKind.toJson (kind : AggregateKind) : Json :=
  .str kind.keyword

def CollectionHead.toJson (head : CollectionHead) (element : Json) : Json :=
  .obj ([("kind", head.kind.toJson)] ++ Json.member? "bounds" .str head.bounds ++
    [("optional_elements", .bool head.optionalElements), ("unique", .bool head.unique), ("element", element)])

def ElementType.toJson : ElementType → Json
  | .collection head element => .obj [("tag", .str "collection"), ("ty", head.toJson element.toJson)]
  | .simple type => .obj [("tag", .str "simple"), ("ty", type.toJson)]
  | .named name => .obj [("tag", .str "named"), ("name", .str name)]
  | .generic label => .obj ([("tag", .str "generic")] ++ Json.member? "label" .str label)

def ParamType.toJson : ParamType → Json
  | .simple type => .obj [("tag", .str "simple"), ("ty", type.toJson)]
  | .named name => .obj [("tag", .str "named"), ("name", .str name)]
  | .generic label => .obj ([("tag", .str "generic")] ++ Json.member? "label" .str label)
  | .collection kind bounds element =>
    .obj ([("tag", .str "collection"), ("kind", kind.toJson)] ++ Json.member? "bounds" .str bounds ++
      [("element", element.toJson)])
  | .aggregate label element =>
    .obj ([("tag", .str "aggregate")] ++ Json.member? "label" .str label ++ [("element", element.toJson)])

def TypeBody.toJson : TypeBody → Json
  | .simple type => .obj [("tag", .str "simple"), ("ty", type.toJson)]
  | .collection head element => .obj [("tag", .str "collection"), ("ty", head.toJson element.toJson)]
  | .named name => .obj [("tag", .str "named"), ("name", .str name)]
  | .enumeration values => .obj [("tag", .str "enumeration"), ("values", .strs values)]
  | .select alternatives => .obj [("tag", .str "select"), ("alternatives", .strs alternatives)]

def SupertypeClause.toJson (clause : SupertypeClause) : Json :=
  .obj ([("is_abstract", .bool clause.isAbstract)] ++ Json.member? "choice" .strs clause.choice ++
    Json.member? "expr_text" .str clause.expression)

def AttributeName.toJson : AttributeName → Json
  | .simple name => .obj [("tag", .str "simple"), ("name", .str name)]
  | .qualified entity attr =>
    .obj [("tag", .str "qualified"), ("entity", .str entity), ("attribute", .str attr)]

def ExplicitClause.toJson (clause : ExplicitClause) : Json :=
  .obj [("names", .arr (clause.names.map (·.toJson))), ("optional", .bool clause.optional), ("ty", clause.type.toJson)]

def DerivedClause.toJson (clause : DerivedClause) : Json :=
  .obj [("name", clause.name.toJson), ("ty", clause.type.toJson), ("expr", .str clause.expression)]

def InverseAggregate.toJson (aggregate : InverseAggregate) : Json :=
  .obj ([("kind", aggregate.kind.toJson)] ++ Json.member? "bounds" .str aggregate.bounds)

def InverseClause.toJson (clause : InverseClause) : Json :=
  .obj ([("name", clause.name.toJson)] ++ Json.member? "aggregate" InverseAggregate.toJson clause.aggregate ++
    [("entity", .str clause.entity), ("for_attribute", .str clause.forAttr)])

def ParameterClause.toJson (clause : ParameterClause) : Json :=
  .obj [("names", .strs clause.names), ("ty", clause.type.toJson)]

def TypeDecl.members (decl : TypeDecl) : List (String × Json) :=
  [("name", .str decl.name), ("body", decl.body.toJson)]

def EntityDecl.members (decl : EntityDecl) : List (String × Json) :=
  [("name", .str decl.name)] ++ Json.member? "supertype" SupertypeClause.toJson decl.supertype ++
    [("subtype_of", .strs decl.subtypeOf),
      ("explicit", .arr (decl.explicit.map (·.toJson))),
      ("derived", .arr (decl.derived.map (·.toJson))),
      ("inverse", .arr (decl.inverse.map (·.toJson)))]

def FunctionDecl.members (decl : FunctionDecl) : List (String × Json) :=
  [("name", .str decl.name), ("params", .arr (decl.parameters.map (·.toJson))),
    ("return_type", decl.returnType.toJson)]

def Declaration.toJson : Declaration → Json
  | .type decl => .obj (("kind", .str "type") :: decl.members)
  | .entity decl => .obj (("kind", .str "entity") :: decl.members)
  | .function decl => .obj (("kind", .str "function") :: decl.members)
  | .rule name => .obj [("kind", .str "rule"), ("name", .str name)]

def Schema.toJson (schema : Schema) : Json :=
  .obj [("name", .str schema.name), ("declarations", .arr (schema.declarations.map (·.toJson)))]

end Express
