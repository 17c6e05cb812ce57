import Express.Schema.Decoding
import Express.Schema.Encoding
import Express.Proofs.Artifacts
import Express.Proofs.Variations

/-!
# Schemas through JSON

The form of a schema is its document with the fields that each object is declared with. From every variation of that
document the schema is read back, so a model built from it is the model that is built from the schema's text.
-/

namespace Express

open Json (Form Field)

/-! ### Types -/

def SimpleType.form (type : SimpleType) : Form :=
  .text type.keyword

def AggregateKind.form (kind : AggregateKind) : Form :=
  .text kind.keyword

def CollectionHead.form (head : CollectionHead) (element : Form) : Form :=
  .record [.given "kind" head.kind.form, .option "bounds" .text head.bounds,
    .flag "optional_elements" head.optionalElements, .flag "unique" head.unique, .given "element" element]

def ElementType.form : ElementType → Form
  | .collection head element => .variant "tag" "collection" [.given "ty" (head.form element.form)]
  | .simple type => .variant "tag" "simple" [.given "ty" type.form]
  | .named name => .variant "tag" "named" [.given "name" (.text name)]
  | .generic label => .variant "tag" "generic" [.option "label" .text label]

def ParamType.form : ParamType → Form
  | .simple type => .variant "tag" "simple" [.given "ty" type.form]
  | .named name => .variant "tag" "named" [.given "name" (.text name)]
  | .generic label => .variant "tag" "generic" [.option "label" .text label]
  | .collection kind bounds element =>
    .variant "tag" "collection" [.given "kind" kind.form, .option "bounds" .text bounds, .given "element" element.form]
  | .aggregate label element =>
    .variant "tag" "aggregate" [.option "label" .text label, .given "element" element.form]

def TypeBody.form : TypeBody → Form
  | .simple type => .variant "tag" "simple" [.given "ty" type.form]
  | .collection head element => .variant "tag" "collection" [.given "ty" (head.form element.form)]
  | .named name => .variant "tag" "named" [.given "name" (.text name)]
  | .enumeration values => .variant "tag" "enumeration" [.given "values" (.texts values)]
  | .select alternatives => .variant "tag" "select" [.given "alternatives" (.texts alternatives)]

@[simp]
theorem SimpleType.form_json (type : SimpleType) : type.form.json = type.toJson := rfl

@[simp]
theorem AggregateKind.form_json (kind : AggregateKind) : kind.form.json = kind.toJson := rfl

@[simp]
theorem CollectionHead.form_json (head : CollectionHead) (element : Form) :
    (head.form element).json = head.toJson element.json := by
  simp [form, toJson]

@[simp]
theorem ElementType.form_json (type : ElementType) : type.form.json = type.toJson := by
  induction type with
  | collection head element ih => simp [form, toJson, ih]
  | simple type => simp [form, toJson]
  | named name => simp [form, toJson]
  | generic label => simp [form, toJson]

@[simp]
theorem ParamType.form_json (type : ParamType) : type.form.json = type.toJson := by
  induction type with
  | simple type => simp [form, toJson]
  | named name => simp [form, toJson]
  | generic label => simp [form, toJson]
  | collection kind bounds element ih => simp [form, toJson, ih]
  | aggregate label element ih => simp [form, toJson, ih]

@[simp]
theorem TypeBody.form_json (body : TypeBody) : body.form.json = body.toJson := by
  cases body <;> simp [form, toJson]

theorem SimpleType.form_reads (type : SimpleType) : type.form.ReadsAs SimpleType.ofJson? type := by
  intro json varied
  cases varied
  cases type <;> rfl

theorem AggregateKind.form_reads (kind : AggregateKind) : kind.form.ReadsAs AggregateKind.ofJson? kind := by
  intro json varied
  cases varied
  cases kind <;> rfl

/-- All of a collection type but its element, which is found for its own reader. -/
theorem CollectionHead.form_reads {head : CollectionHead} {element : Form} {json : Json}
    (varied : (head.form element).Varies json) :
    ∃ record, Json.record? CollectionHead.fields json = some record ∧ CollectionHead.ofRecord? record = some head ∧
      (Field.given "element" element).Held record := by
  obtain ⟨record, read, held⟩ := varied.exists_record CollectionHead.fields (by simp [CollectionHead.fields]) (by decide)
  simp only [List.forall_mem_cons] at held
  obtain ⟨kind, bounds, optionalElements, unique, element, -⟩ := held
  refine ⟨record, read, ?_, element⟩
  simp only [CollectionHead.ofRecord?, kind.required head.kind.form_reads, bounds.optional Form.reads_text rfl,
    optionalElements.flag, unique.flag, Option.bind_eq_bind, Option.bind_some]
  rfl

theorem ElementType.form_reads (type : ElementType) : type.form.ReadsAs ElementType.ofJson? type := by
  induction type with
  | collection head element ih =>
    intro json varied
    obtain ⟨variant, found, named, outer, read, held⟩ :=
      varied.exists_variant_record (show "collection" ∈ tags by decide) ["ty"] rfl (by decide)
    obtain ⟨type, present, inner⟩ := (List.forall_mem_singleton.mp held).given_inv
    obtain ⟨record, collection, heads, held⟩ := CollectionHead.form_reads inner
    obtain ⟨part, last, deeper⟩ := held.given_inv
    rw [ElementType.ofJson?]
    simp only [found, named, read, present, collection, heads, last, ih part.1 deeper, Option.bind_eq_bind, Option.bind_some]
    rfl
  | simple type =>
    intro json varied
    obtain ⟨variant, found, named, record, read, given⟩ :=
      varied.exists_given (show "simple" ∈ tags by decide) (by decide) type.form_reads
    rw [ElementType.ofJson?]
    simp only [found, named, read, given, Option.bind_eq_bind, Option.bind_some]
    rfl
  | named name =>
    intro json varied
    obtain ⟨variant, found, named, record, read, given⟩ :=
      varied.exists_given (show "named" ∈ tags by decide) (by decide) (Form.reads_text name)
    rw [ElementType.ofJson?]
    simp only [found, named, read, given, Option.bind_eq_bind, Option.bind_some]
    rfl
  | generic label =>
    intro json varied
    obtain ⟨variant, found, named, record, read, given⟩ :=
      varied.exists_option (show "generic" ∈ tags by decide) (by decide) Form.reads_text rfl
    rw [ElementType.ofJson?]
    simp only [found, named, read, given, Option.bind_eq_bind, Option.bind_some]
    rfl

theorem ParamType.form_reads (type : ParamType) : type.form.ReadsAs ParamType.ofJson? type := by
  induction type with
  | simple type =>
    intro json varied
    obtain ⟨variant, found, named, record, read, given⟩ :=
      varied.exists_given (show "simple" ∈ tags by decide) (by decide) type.form_reads
    rw [ParamType.ofJson?]
    simp only [found, named, read, given, Option.bind_eq_bind, Option.bind_some]
    rfl
  | named name =>
    intro json varied
    obtain ⟨variant, found, named, record, read, given⟩ :=
      varied.exists_given (show "named" ∈ tags by decide) (by decide) (Form.reads_text name)
    rw [ParamType.ofJson?]
    simp only [found, named, read, given, Option.bind_eq_bind, Option.bind_some]
    rfl
  | generic label =>
    intro json varied
    obtain ⟨variant, found, named, record, read, given⟩ :=
      varied.exists_option (show "generic" ∈ tags by decide) (by decide) Form.reads_text rfl
    rw [ParamType.ofJson?]
    simp only [found, named, read, given, Option.bind_eq_bind, Option.bind_some]
    rfl
  | collection kind bounds element ih =>
    intro json varied
    obtain ⟨variant, found, named, record, read, held⟩ :=
      varied.exists_variant_record (show "collection" ∈ tags by decide) ["kind", "bounds", "element"] (by simp) (by decide)
    simp only [List.forall_mem_cons] at held
    obtain ⟨first, second, third, -⟩ := held
    obtain ⟨part, last, deeper⟩ := third.given_inv
    rw [ParamType.ofJson?]
    simp only [found, named, read, first.required kind.form_reads, second.optional Form.reads_text rfl, last,
      ih part.1 deeper, Option.bind_eq_bind, Option.bind_some]
    rfl
  | aggregate label element ih =>
    intro json varied
    obtain ⟨variant, found, named, record, read, held⟩ :=
      varied.exists_variant_record (show "aggregate" ∈ tags by decide) ["label", "element"] (by simp) (by decide)
    simp only [List.forall_mem_cons] at held
    obtain ⟨first, second, -⟩ := held
    obtain ⟨part, last, deeper⟩ := second.given_inv
    rw [ParamType.ofJson?]
    simp only [found, named, read, first.optional Form.reads_text rfl, last, ih part.1 deeper, Option.bind_eq_bind,
      Option.bind_some]
    rfl

theorem TypeBody.form_reads (body : TypeBody) : body.form.ReadsAs TypeBody.ofJson? body := by
  intro json varied
  rw [TypeBody.ofJson?]
  cases body with
  | simple type =>
    obtain ⟨variant, found, named, record, read, given⟩ :=
      varied.exists_given (show "simple" ∈ tags by decide) (by decide) type.form_reads
    simp only [found, named, read, given, Option.bind_eq_bind, Option.bind_some]
    rfl
  | collection head element =>
    obtain ⟨variant, found, named, outer, read, held⟩ :=
      varied.exists_variant_record (show "collection" ∈ tags by decide) ["ty"] rfl (by decide)
    obtain ⟨type, present, inner⟩ := (List.forall_mem_singleton.mp held).given_inv
    obtain ⟨record, collection, heads, held⟩ := CollectionHead.form_reads inner
    simp only [found, named, read, present, collection, heads, held.required element.form_reads, Option.bind_eq_bind,
      Option.bind_some]
    rfl
  | named name =>
    obtain ⟨variant, found, named, record, read, given⟩ :=
      varied.exists_given (show "named" ∈ tags by decide) (by decide) (Form.reads_text name)
    simp only [found, named, read, given, Option.bind_eq_bind, Option.bind_some]
    rfl
  | enumeration values =>
    obtain ⟨variant, found, named, record, read, given⟩ :=
      varied.exists_given (show "enumeration" ∈ tags by decide) (by decide) (Form.reads_texts values)
    simp only [found, named, read, given, Option.bind_eq_bind, Option.bind_some]
    rfl
  | select alternatives =>
    obtain ⟨variant, found, named, record, read, given⟩ :=
      varied.exists_given (show "select" ∈ tags by decide) (by decide) (Form.reads_texts alternatives)
    simp only [found, named, read, given, Option.bind_eq_bind, Option.bind_some]
    rfl

/-! ### Clauses -/

def SupertypeClause.form (clause : SupertypeClause) : Form :=
  .record [.given "is_abstract" (.atom (.bool clause.isAbstract)), .option "choice" .texts clause.choice,
    .option "expr_text" .text clause.expression]

def AttributeName.form : AttributeName → Form
  | .simple name => .variant "tag" "simple" [.given "name" (.text name)]
  | .qualified entity attr => .variant "tag" "qualified" [.given "entity" (.text entity), .given "attribute" (.text attr)]

def ExplicitClause.form (clause : ExplicitClause) : Form :=
  .record [.given "names" (.list (clause.names.map AttributeName.form)), .flag "optional" clause.optional,
    .given "ty" clause.type.form]

def DerivedClause.form (clause : DerivedClause) : Form :=
  .record [.given "name" clause.name.form, .given "ty" clause.type.form, .given "expr" (.text clause.expression)]

def InverseAggregate.form (aggregate : InverseAggregate) : Form :=
  .record [.given "kind" aggregate.kind.form, .option "bounds" .text aggregate.bounds]

def InverseClause.form (clause : InverseClause) : Form :=
  .record [.given "name" clause.name.form, .option "aggregate" InverseAggregate.form clause.aggregate,
    .given "entity" (.text clause.entity), .given "for_attribute" (.text clause.forAttr)]

def ParameterClause.form (clause : ParameterClause) : Form :=
  .record [.given "names" (.texts clause.names), .given "ty" clause.type.form]

@[simp]
theorem SupertypeClause.form_json (clause : SupertypeClause) : clause.form.json = clause.toJson := by
  simp [form, toJson, Form.json]

@[simp]
theorem AttributeName.form_json (name : AttributeName) : name.form.json = name.toJson := by
  cases name <;> simp [form, toJson]

@[simp]
theorem ExplicitClause.form_json (clause : ExplicitClause) : clause.form.json = clause.toJson := by
  simp [form, toJson]

@[simp]
theorem DerivedClause.form_json (clause : DerivedClause) : clause.form.json = clause.toJson := by
  simp [form, toJson]

@[simp]
theorem InverseAggregate.form_json (aggregate : InverseAggregate) : aggregate.form.json = aggregate.toJson := by
  simp [form, toJson]

@[simp]
theorem InverseClause.form_json (clause : InverseClause) : clause.form.json = clause.toJson := by
  simp [form, toJson]

@[simp]
theorem ParameterClause.form_json (clause : ParameterClause) : clause.form.json = clause.toJson := by
  simp [form, toJson]

theorem SupertypeClause.form_reads (clause : SupertypeClause) : clause.form.ReadsAs SupertypeClause.ofJson? clause := by
  intro json varied
  obtain ⟨record, read, held⟩ := varied.exists_record ["is_abstract", "choice", "expr_text"] (by simp) (by decide)
  simp only [List.forall_mem_cons] at held
  obtain ⟨isAbstract, choice, expression, -⟩ := held
  simp only [SupertypeClause.ofJson?, read, isAbstract.required (Form.reads_bool _), choice.optional Form.reads_texts rfl,
    expression.optional Form.reads_text rfl, Option.bind_eq_bind, Option.bind_some]
  rfl

theorem AttributeName.form_reads (name : AttributeName) : name.form.ReadsAs AttributeName.ofJson? name := by
  intro json varied
  rw [AttributeName.ofJson?]
  cases name with
  | simple name =>
    obtain ⟨variant, found, named, record, read, given⟩ :=
      varied.exists_given (show "simple" ∈ tags by decide) (by decide) (Form.reads_text name)
    simp only [found, named, read, given, Option.bind_eq_bind, Option.bind_some]
    rfl
  | qualified entity attr =>
    obtain ⟨variant, found, named, record, read, held⟩ :=
      varied.exists_variant_record (show "qualified" ∈ tags by decide) ["entity", "attribute"] rfl (by decide)
    simp only [List.forall_mem_cons] at held
    obtain ⟨first, second, -⟩ := held
    simp only [found, named, read, first.required (Form.reads_text entity), second.required (Form.reads_text attr),
      Option.bind_eq_bind, Option.bind_some]
    rfl

theorem ExplicitClause.form_reads (clause : ExplicitClause) : clause.form.ReadsAs ExplicitClause.ofJson? clause := by
  intro json varied
  obtain ⟨record, read, held⟩ := varied.exists_record ["names", "optional", "ty"] (by simp) (by decide)
  simp only [List.forall_mem_cons] at held
  obtain ⟨names, optional, type, -⟩ := held
  simp only [ExplicitClause.ofJson?, read, names.required (Form.reads_list fun name _ => name.form_reads), optional.flag,
    type.required clause.type.form_reads, Option.bind_eq_bind, Option.bind_some]
  rfl

theorem DerivedClause.form_reads (clause : DerivedClause) : clause.form.ReadsAs DerivedClause.ofJson? clause := by
  intro json varied
  obtain ⟨record, read, held⟩ := varied.exists_record ["name", "ty", "expr"] rfl (by decide)
  simp only [List.forall_mem_cons] at held
  obtain ⟨name, type, expression, -⟩ := held
  simp only [DerivedClause.ofJson?, read, name.required clause.name.form_reads, type.required clause.type.form_reads,
    expression.required (Form.reads_text _), Option.bind_eq_bind, Option.bind_some]
  rfl

theorem InverseAggregate.form_reads (aggregate : InverseAggregate) :
    aggregate.form.ReadsAs InverseAggregate.ofJson? aggregate := by
  intro json varied
  obtain ⟨record, read, held⟩ := varied.exists_record ["kind", "bounds"] (by simp) (by decide)
  simp only [List.forall_mem_cons] at held
  obtain ⟨kind, bounds, -⟩ := held
  simp only [InverseAggregate.ofJson?, read, kind.required aggregate.kind.form_reads,
    bounds.optional Form.reads_text rfl, Option.bind_eq_bind, Option.bind_some]
  rfl

theorem InverseClause.form_reads (clause : InverseClause) : clause.form.ReadsAs InverseClause.ofJson? clause := by
  intro json varied
  obtain ⟨record, read, held⟩ := varied.exists_record ["name", "aggregate", "entity", "for_attribute"] (by simp) (by decide)
  simp only [List.forall_mem_cons] at held
  obtain ⟨name, aggregate, entity, forAttr, -⟩ := held
  simp only [InverseClause.ofJson?, read, name.required clause.name.form_reads,
    aggregate.optional InverseAggregate.form_reads rfl, entity.required (Form.reads_text _),
    forAttr.required (Form.reads_text _), Option.bind_eq_bind, Option.bind_some]
  rfl

theorem ParameterClause.form_reads (clause : ParameterClause) : clause.form.ReadsAs ParameterClause.ofJson? clause := by
  intro json varied
  obtain ⟨record, read, held⟩ := varied.exists_record ["names", "ty"] rfl (by decide)
  simp only [List.forall_mem_cons] at held
  obtain ⟨names, type, -⟩ := held
  simp only [ParameterClause.ofJson?, read, names.required (Form.reads_texts _), type.required clause.type.form_reads,
    Option.bind_eq_bind, Option.bind_some]
  rfl

/-! ### Declarations -/

def TypeDecl.fields (decl : TypeDecl) : List Field :=
  [.given "name" (.text decl.name), .given "body" decl.body.form]

def EntityDecl.fields (decl : EntityDecl) : List Field :=
  [.given "name" (.text decl.name), .option "supertype" SupertypeClause.form decl.supertype,
    .items "subtype_of" (decl.subtypeOf.map .text), .items "explicit" (decl.explicit.map ExplicitClause.form),
    .items "derived" (decl.derived.map DerivedClause.form), .items "inverse" (decl.inverse.map InverseClause.form)]

def FunctionDecl.fields (decl : FunctionDecl) : List Field :=
  [.given "name" (.text decl.name), .items "params" (decl.parameters.map ParameterClause.form),
    .given "return_type" decl.returnType.form]

def Declaration.form : Declaration → Form
  | .type decl => .variant "kind" "type" decl.fields
  | .entity decl => .variant "kind" "entity" decl.fields
  | .function decl => .variant "kind" "function" decl.fields
  | .rule name => .variant "kind" "rule" [.given "name" (.text name)]

def Schema.form (schema : Schema) : Form :=
  .record [.given "name" (.text schema.name), .given "declarations" (.list (schema.declarations.map Declaration.form))]

@[simp]
theorem Declaration.form_json (declaration : Declaration) : declaration.form.json = declaration.toJson := by
  cases declaration with
  | type decl => simp [form, toJson, TypeDecl.fields, TypeDecl.members]
  | entity decl => simp [form, toJson, EntityDecl.fields, EntityDecl.members, Json.strs]
  | function decl => simp [form, toJson, FunctionDecl.fields, FunctionDecl.members]
  | rule name => simp [form, toJson]

theorem Schema.form_json (schema : Schema) : schema.form.json = schema.toJson := by
  simp [form, toJson]

theorem TypeDecl.fields_read (decl : TypeDecl) : (Form.record decl.fields).ReadsAs TypeDecl.ofJson? decl := by
  intro json varied
  obtain ⟨record, read, held⟩ := varied.exists_record ["name", "body"] rfl (by decide)
  simp only [TypeDecl.fields, List.forall_mem_cons] at held
  obtain ⟨name, body, -⟩ := held
  simp only [TypeDecl.ofJson?, read, name.required (Form.reads_text _), body.required decl.body.form_reads,
    Option.bind_eq_bind, Option.bind_some]
  rfl

theorem EntityDecl.fields_read (decl : EntityDecl) : (Form.record decl.fields).ReadsAs EntityDecl.ofJson? decl := by
  intro json varied
  obtain ⟨record, read, held⟩ :=
    varied.exists_record ["name", "supertype", "subtype_of", "explicit", "derived", "inverse"] (by simp [fields]) (by decide)
  simp only [EntityDecl.fields, List.forall_mem_cons] at held
  obtain ⟨name, supertype, subtypeOf, explicit, derived, inverse, -⟩ := held
  simp only [EntityDecl.ofJson?, read, name.required (Form.reads_text _),
    supertype.optional SupertypeClause.form_reads rfl, subtypeOf.items fun parent _ => Form.reads_text parent,
    explicit.items fun clause _ => clause.form_reads, derived.items fun clause _ => clause.form_reads,
    inverse.items fun clause _ => clause.form_reads, Option.bind_eq_bind, Option.bind_some]
  rfl

theorem FunctionDecl.fields_read (decl : FunctionDecl) : (Form.record decl.fields).ReadsAs FunctionDecl.ofJson? decl := by
  intro json varied
  obtain ⟨record, read, held⟩ := varied.exists_record ["name", "params", "return_type"] (by simp [fields]) (by decide)
  simp only [FunctionDecl.fields, List.forall_mem_cons] at held
  obtain ⟨name, parameters, returnType, -⟩ := held
  simp only [FunctionDecl.ofJson?, read, name.required (Form.reads_text _),
    parameters.items fun clause _ => clause.form_reads, returnType.required decl.returnType.form_reads,
    Option.bind_eq_bind, Option.bind_some]
  rfl

theorem Declaration.form_reads (declaration : Declaration) :
    declaration.form.ReadsAs Declaration.ofJson? declaration := by
  intro json varied
  rw [Declaration.ofJson?]
  cases declaration with
  | type decl =>
    obtain ⟨variant, found, named, content⟩ :=
      varied.exists_variant (show "type" ∈ tags by decide) (by simp [TypeDecl.fields])
    simp only [found, named, decl.fields_read _ content, Option.bind_eq_bind, Option.bind_some]
    rfl
  | entity decl =>
    obtain ⟨variant, found, named, content⟩ :=
      varied.exists_variant (show "entity" ∈ tags by decide) (by simp [EntityDecl.fields])
    simp only [found, named, decl.fields_read _ content, Option.bind_eq_bind, Option.bind_some]
    rfl
  | function decl =>
    obtain ⟨variant, found, named, content⟩ :=
      varied.exists_variant (show "function" ∈ tags by decide) (by simp [FunctionDecl.fields])
    simp only [found, named, decl.fields_read _ content, Option.bind_eq_bind, Option.bind_some]
    rfl
  | rule name =>
    obtain ⟨variant, found, named, record, read, given⟩ :=
      varied.exists_given (show "rule" ∈ tags by decide) (by decide) (Form.reads_text name)
    simp only [found, named, read, given, Option.bind_eq_bind, Option.bind_some]
    rfl

theorem Schema.form_reads (schema : Schema) : schema.form.ReadsAs Schema.ofJson? schema := by
  intro json varied
  obtain ⟨record, read, held⟩ := varied.exists_record ["name", "declarations"] rfl (by decide)
  simp only [List.forall_mem_cons] at held
  obtain ⟨name, declarations, -⟩ := held
  simp only [Schema.ofJson?, read, name.required (Form.reads_text _),
    declarations.required (Form.reads_list fun declaration _ => declaration.form_reads), Option.bind_eq_bind,
    Option.bind_some]
  rfl

/-! ### Main statement -/

/-- A schema is read back from its document and from every variation of it. So what is built from the document of a text
is what is compiled from the text. -/
theorem Schema.survives_json (schema : Schema) :
    schema.form.json = schema.toJson ∧ schema.form.Varies schema.toJson ∧
      (∀ json, schema.form.Varies json → Schema.ofJson? json = some schema) ∧
      ∀ settings text json, Schema.read text = .ok schema → schema.form.Varies json →
        ∃ decoded, Schema.ofJson? json = some decoded ∧ Model.compile settings text =
          ((Model.build settings decoded).1.mapError .build, (Model.build settings decoded).2) := by
  refine ⟨schema.form_json, schema.form_json ▸ schema.form.varies_json, schema.form_reads, ?_⟩
  intro settings text json read varied
  exact ⟨schema, schema.form_reads json varied, Model.compile_of_read read settings⟩

def quayText : String :=
  "SCHEMA quay; ENTITY berth; depth : OPTIONAL LIST OF REAL; END_ENTITY; END_SCHEMA;"

def quaySchema : Schema where
  name := "quay"
  declarations := [.entity {
    name := "berth"
    explicit := [{ names := [.simple "depth"], optional := true, type := .collection { kind := .list } (.simple .real) }] }]

/-- The members from last to first, without the fields that hold their default, and with two that are not declared: one
of them is called as the tags of other objects are. -/
def quayDocument : Json :=
  .obj [
    ("author", .null),
    ("declarations", .arr [.obj [
      ("explicit", .arr [.obj [
        ("ty", .obj [
          ("ty", .obj [
            ("tag", .nat 7),
            ("element", .obj [("ty", .str "REAL"), ("tag", .str "simple")]),
            ("kind", .str "LIST")]),
          ("tag", .str "collection")]),
        ("optional", .bool true),
        ("names", .arr [.obj [("name", .str "depth"), ("tag", .str "simple")]])]]),
      ("name", .str "berth"),
      ("kind", .str "entity")]]),
    ("name", .str "quay")]

theorem quayDocument_varies : quaySchema.form.Varies quayDocument := by
  refine .record (.cons (.given .atom) (.cons (.given (.list (.cons ?entity .nil))) .nil))
    (List.forall_mem_singleton.mpr (by decide)) (List.reverse_perm [_, _, _])
  refine .record (.cons (.given .atom) (.cons (.given .atom) (.cons .absent (.cons .dropped
    (.cons (.given (.list (.cons ?clause .nil))) (.cons .dropped (.cons .dropped .nil)))))))
    (List.forall_mem_nil _) (List.reverse_perm [_, _, _])
  refine .record (.cons (.given (.list (.cons ?name .nil))) (.cons (.given .atom) (.cons (.given ?type) .nil)))
    (List.forall_mem_nil _) (List.reverse_perm [_, _, _])
  case name =>
    exact .record (.cons (.given .atom) (.cons (.given .atom) .nil)) (List.forall_mem_nil _) (List.reverse_perm [_, _])
  case type =>
    refine .record (.cons (.given .atom) (.cons (.given ?collection) .nil)) (List.forall_mem_nil _)
      (List.reverse_perm [_, _])
    refine .record (.cons (.given .atom) (.cons .absent (.cons .dropped (.cons .dropped (.cons (.given ?element) .nil)))))
      (List.forall_mem_singleton.mpr (by decide)) (List.reverse_perm [_, _, _])
    exact .record (.cons (.given .atom) (.cons (.given .atom) .nil)) (List.forall_mem_nil _) (List.reverse_perm [_, _])

theorem Schema.quay_survives_json :
    Schema.read quayText = .ok quaySchema ∧ quaySchema.form.Varies quayDocument ∧
      Schema.ofJson? quayDocument = some quaySchema ∧
      ∃ decoded, Schema.ofJson? quayDocument = some decoded ∧ Model.compile {} quayText =
        ((Model.build {} decoded).1.mapError .build, (Model.build {} decoded).2) := by
  have read : Schema.read quayText = .ok quaySchema := by decide +kernel
  have survives := Schema.survives_json quaySchema
  exact ⟨read, quayDocument_varies, survives.2.2.1 _ quayDocument_varies,
    survives.2.2.2 {} _ _ read quayDocument_varies⟩

end Express
