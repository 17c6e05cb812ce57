import Express.Proofs.Acceptance
import Express.Proofs.DeclarationOrder
import Express.Proofs.Registry

/-!
# Meanings of types

A type means a name below some number of collections, and it means the same wherever a schema writes it: for an attribute,
on the right-hand side of a type declaration, for a parameter or a result (`resolves_alike`).
-/

namespace Express

/-! ### What a type means -/

namespace ElementType

/-- The same type for a parameter. The flags of collections are dropped. -/
def asParam : ElementType → ParamType
  | .collection head element => .collection head.kind head.bounds element.asParam
  | .simple type => .simple type
  | .named name => .named name
  | .generic label => .generic label

/-- What a type that is no collection is called, and whether that stands for any type. -/
inductive IsCalled (settings : Settings) : ElementType → Name → Bool → Prop where
  | simple (type : SimpleType) : IsCalled settings (.simple type) type.keyword false
  | named (name : Name) : IsCalled settings (.named name) name false
  | generic (label : Option Name) : IsCalled settings (.generic label) settings.genericName true

/-- The reference has the name of what is below all collections of the type, and their number. -/
structure Means (settings : Settings) (type : ElementType) (ref : TypeRef) : Prop where
  called : IsCalled settings type.innermost ref.base ref.isGeneric
  rank : ref.rank = type.rank
  collection : ref.isCollection = true ↔ ∃ head element, type = .collection head element
  wellFormed : ref.WellFormed

theorem spec_isCalled (settings : Settings) (type : ElementType) :
    IsCalled settings type.innermost (type.spec settings).base (type.spec settings).isGeneric := by
  induction type with
  | collection head element ih => exact ih
  | simple type => exact .simple type
  | named name => exact .named name
  | generic label => exact .generic label

theorem spec_rank (settings : Settings) (type : ElementType) : (type.spec settings).rank = type.rank := by
  induction type with
  | collection head element ih => exact congrArg (· + 1) ih
  | _ => rfl

theorem spec_means (settings : Settings) (type : ElementType) : type.Means settings (type.spec settings).typeRef where
  called := spec_isCalled settings type
  rank := spec_rank settings type
  collection := by cases type <;> simp [TypeSpec.typeRef, spec]
  wellFormed := by
    have sound : (type.spec settings).isCollection = _ := spec_sound settings type
    simp [TypeRef.WellFormed, TypeSpec.typeRef, sound]

/-- The descriptions of attributes count levels and the types of parameters are put below one level after the other. -/
theorem typeRef?_asParam (settings : Settings) (type : ElementType) :
    type.asParam.typeRef? settings = some (type.spec settings).typeRef := by
  induction type with
  | collection head element ih =>
    rw [asParam, ParamType.typeRef?, ih, Option.map_some, TypeRef.nested]
    simp [TypeSpec.typeRef, spec]
  | _ => rfl

end ElementType

/-! ### Where types are written -/

/-- The type that a right-hand side is, unless it lists values or alternatives. -/
def TypeBody.element? : TypeBody → Option ElementType
  | .simple type => some (.simple type)
  | .collection head element => some (.collection head element)
  | .named name => some (.named name)
  | .enumeration _ | .select _ => none

theorem TypeDecl.definition_of_element? {settings : Settings} {decl : TypeDecl} {type : ElementType}
    (written : decl.body.element? = some type) :
    decl.definition settings = .ok (.wrapper { name := decl.name, wrapped := (type.spec settings).typeRef }) := by
  unfold definition
  cases body : decl.body with
  | simple simple => rw [body] at written; cases written; rfl
  | collection head element =>
    rw [body] at written
    cases written
    dsimp only
    rw [(ElementType.spec_sound settings _).resolve]
    rfl
  | named name => rw [body] at written; cases written; rfl
  | enumeration values => rw [body] at written; cases written
  | select alternatives => rw [body] at written; cases written

namespace FunctionDecl

variable {settings : Settings} {decl : FunctionDecl} {function : FunctionSignature}

theorem exists_of_signature (signed : decl.signature settings = .ok function) :
    decl.returnType.typeRef? settings = some function.returnType ∧
      ∃ lists, decl.parameters.mapM (ParameterClause.parameters? settings) = some lists ∧
        function.parameters = lists.flatten := by
  unfold signature at signed
  cases result : decl.returnType.typeRef? settings with
  | none => rw [result] at signed; cases signed
  | some returnType =>
    rw [result] at signed
    dsimp only at signed
    cases parameters : decl.parameters.mapM (ParameterClause.parameters? settings) with
    | none => rw [parameters] at signed; cases signed
    | some lists =>
      rw [parameters] at signed
      cases signed
      exact ⟨rfl, lists, rfl, rfl⟩

theorem mem_of_mapM {clauses : List ParameterClause} {lists : List (List Parameter)}
    (mapped : clauses.mapM (ParameterClause.parameters? settings) = some lists) {clause : ParameterClause}
    (member : clause ∈ clauses) : ∃ list ∈ lists, clause.parameters? settings = some list := by
  induction clauses generalizing lists with
  | nil => cases member
  | cons first clauses ih =>
    rw [List.mapM_cons] at mapped
    cases parameters : first.parameters? settings with
    | none => rw [parameters] at mapped; cases mapped
    | some list =>
      cases others : clauses.mapM (ParameterClause.parameters? settings) with
      | none => rw [parameters, others] at mapped; cases mapped
      | some lists =>
        rw [parameters, others] at mapped
        cases mapped
        rcases List.mem_cons.mp member with rfl | later
        · exact ⟨list, List.mem_cons_self, parameters⟩
        · obtain ⟨found, listed, same⟩ := ih others later
          exact ⟨found, List.mem_cons_of_mem _ listed, same⟩

end FunctionDecl

namespace Model

/-- Wherever the schema writes the type, its model has the reference. -/
structure Carries (schema : Schema) (model : Model) (type : ElementType) (ref : TypeRef) : Prop where
  explicit : ∀ decl ∈ schema.entities, ∀ clause ∈ decl.explicit, clause.type = type → ∀ name ∈ clause.names,
    ∃ e, model.entity decl.name = .ok e ∧
      { name := name.base, type := ref, optional := clause.optional, redeclares := name.qualifier? } ∈ e.attributes
  derived : ∀ decl ∈ schema.entities, ∀ clause ∈ decl.derived, clause.type = type →
    ∃ e, model.entity decl.name = .ok e ∧
      { name := clause.name.base, type := ref, derived := true, hidesParent := clause.name.qualifier?.isSome } ∈
        e.attributes
  defined : ∀ decl ∈ schema.types, decl.body.element? = some type →
    model.wrapper decl.name = .ok { name := decl.name, wrapped := ref }
  parameter : ∀ decl ∈ schema.functions, ∀ clause ∈ decl.parameters, clause.type = type.asParam →
    ∀ name ∈ clause.names, ∃ function, model.function decl.name = .ok function ∧
      { name, type := ref } ∈ function.parameters
  result : ∀ decl ∈ schema.functions, decl.returnType = type.asParam →
    ∃ function, model.function decl.name = .ok function ∧ function.returnType = ref

namespace Reflects

variable {settings : Settings} {schema : Schema} {model : Model} (reflects : model.Reflects settings schema)
include reflects

theorem exists_entity {decl : EntityDecl} (member : decl ∈ schema.entities) :
    ∃ e, model.entity decl.name = .ok e ∧ e.attributes = (decl.attributes settings).map (·.attached) :=
  ⟨_, entity_eq_ok_iff.mpr (reflects.find?_entityDecl member), rfl⟩

theorem wrapper_eq {decl : TypeDecl} (member : decl ∈ schema.types) {type : ElementType}
    (written : decl.body.element? = some type) :
    model.wrapper decl.name = .ok { name := decl.name, wrapped := (type.spec settings).typeRef } := by
  have declared : .type decl ∈ schema.declarations := by
    obtain ⟨declaration, listed, same⟩ := List.mem_filterMap.mp member
    cases declaration <;> cases same
    exact listed
  have defines := @TypeDecl.definition_of_element? settings decl type written
  have known : decl.name ∈ model.names :=
    reflects.mem_names_iff.mpr (.inl (Schema.mem_registered_iff.mpr (.inl ⟨decl, declared, rfl⟩)))
  have defined := reflects.declared _ declared (.wrapper { name := decl.name, wrapped := (type.spec settings).typeRef })
    (by rw [Declaration.definition?, defines]; rfl)
  rw [wrapper, get, reflects.indexed.find?_eq_some_iff.mpr ⟨known, defined⟩]
  rfl

theorem exists_function (consistent : schema.Consistent settings) {decl : FunctionDecl}
    (member : decl ∈ schema.functions) :
    ∃ function, model.function decl.name = .ok function ∧ decl.signature settings = .ok function := by
  obtain ⟨function, signed⟩ := FunctionDecl.signature_ok settings (consistent.noAggregate decl member)
  refine ⟨function, reflects.indexed.function_eq_ok_iff.mpr ⟨?_, FunctionDecl.signature_name signed⟩, signed⟩
  obtain ⟨declaration, listed, same⟩ := List.mem_filterMap.mp member
  rw [reflects.functions]
  refine List.mem_filterMap.mpr ⟨declaration, listed, ?_⟩
  cases declaration <;> cases same
  rw [Declaration.signature?, signed]
  rfl

theorem carries (consistent : schema.Consistent settings) (type : ElementType) :
    model.Carries schema type (type.spec settings).typeRef where
  explicit := by
    rintro decl member clause own rfl name written
    obtain ⟨e, known, attributes⟩ := reflects.exists_entity member
    refine ⟨e, known, ?_⟩
    rw [attributes]
    refine List.mem_map.mpr ⟨_, EntityDecl.mem_attributes_iff.mpr (.inl ⟨clause, own, List.mem_map_of_mem written⟩), ?_⟩
    rfl
  derived := by
    rintro decl member clause own rfl
    obtain ⟨e, known, attributes⟩ := reflects.exists_entity member
    refine ⟨e, known, ?_⟩
    rw [attributes]
    exact List.mem_map.mpr ⟨_, EntityDecl.mem_attributes_iff.mpr (.inr (.inl ⟨clause, own, rfl⟩)), rfl⟩
  defined decl member written := reflects.wrapper_eq member written
  parameter := by
    intro decl member clause listed same name written
    obtain ⟨function, known, signed⟩ := reflects.exists_function consistent member
    obtain ⟨-, lists, mapped, parameters⟩ := FunctionDecl.exists_of_signature signed
    obtain ⟨list, among, made⟩ := FunctionDecl.mem_of_mapM mapped listed
    rw [ParameterClause.parameters?, same, ElementType.typeRef?_asParam] at made
    cases made
    refine ⟨function, known, ?_⟩
    rw [parameters]
    exact List.mem_flatten.mpr ⟨_, among, List.mem_map_of_mem written⟩
  result := by
    intro decl member same
    obtain ⟨function, known, signed⟩ := reflects.exists_function consistent member
    obtain ⟨result, -⟩ := FunctionDecl.exists_of_signature signed
    rw [same, ElementType.typeRef?_asParam] at result
    exact ⟨function, known, (Option.some.inj result).symm⟩

end Reflects

/-- Every type has one meaning. The description of an attribute of the type is never refused and comes to that meaning, so
does the type of a parameter that is written the same way, and so does each place of a model that a schema writes the
type in. -/
theorem resolves_alike (settings : Settings) (type : ElementType) :
    ∃ ref, type.Means settings ref ∧ (type.spec settings).resolve = .ok ref ∧
      type.asParam.typeRef? settings = some ref ∧
      ∀ schema model, (build settings schema).1 = .ok model → model.Carries schema type ref := by
  refine ⟨_, ElementType.spec_means settings type, (ElementType.spec_sound settings type).resolve,
    ElementType.typeRef?_asParam settings type, ?_⟩
  intro schema model built
  obtain ⟨consistent, reflects, -⟩ := consistent_of_build built
  exact reflects.carries consistent type

/-- Lists of sets of anything. -/
def batches : ElementType :=
  .collection { kind := .list } (.collection { kind := .set, unique := true } (.generic "item"))

def deliveryDecl : TypeDecl where
  name := "delivery"
  body := .collection { kind := .list } (.collection { kind := .set, unique := true } (.generic "item"))

def depotDecl : EntityDecl where
  name := "depot"
  explicit := [{ names := [.simple "stock"], type := batches }]

def sortedDecl : FunctionDecl where
  name := "sorted"
  parameters := [{ names := ["mixed"], type := batches.asParam }]
  returnType := batches.asParam

theorem batches_resolve_alike :
    (batches.spec {}).resolve = .ok ⟨"T", true, 2, true⟩ ∧
      ∃ model, (build {} ⟨"sorting", [.type deliveryDecl, .entity depotDecl, .function sortedDecl]⟩).1 = .ok model ∧
        model.wrapper "delivery" = .ok { name := "delivery", wrapped := ⟨"T", true, 2, true⟩ } ∧
        (∃ e, model.entity "depot" = .ok e ∧ { name := "stock", type := ⟨"T", true, 2, true⟩ } ∈ e.attributes) ∧
        ∃ function, model.function "sorted" = .ok function ∧ function.returnType = ⟨"T", true, 2, true⟩ := by
  have resolved : (batches.spec {}).resolve = .ok ⟨"T", true, 2, true⟩ := rfl
  obtain ⟨ref, -, same, -, everywhere⟩ := resolves_alike {} batches
  rw [resolved] at same
  cases same
  obtain ⟨model, built, -⟩ := exists_ok_of_map
    (show (build {} ⟨"sorting", [.type deliveryDecl, .entity depotDecl, .function sortedDecl]⟩).1.toOption.map (·.schema) =
      some "sorting" by decide +kernel)
  have carries := everywhere _ model built
  refine ⟨resolved, model, built, ?_, ?_, ?_⟩
  · exact carries.defined deliveryDecl (by decide) rfl
  · exact carries.explicit depotDecl (by decide) _ List.mem_cons_self rfl _ List.mem_cons_self
  · exact carries.result sortedDecl (by decide) rfl

end Model

end Express
