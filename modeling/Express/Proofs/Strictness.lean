import Express.Proofs.DeclarationOrder
import Express.Proofs.Referrers

/-!
# Strict mode

A strict build is a lenient one that leaves no placeholder. Where a lenient build leaves some, the strict one fails for
the first of them and names the entity that referred to it first (`strict_build`). The keyword of a simple type is
referred to by parents and children only: an attribute of such a type refers to nothing, so it is passed over
(`gauges_blames_sensor`).
-/

namespace Express

/-! ### Declarations under other settings

What declarations say depends on the settings through the name of generic types alone. -/

section Congr

variable {settings other : Settings}

theorem ElementType.spec_congr (same : settings.genericName = other.genericName) (type : ElementType) :
    type.spec settings = type.spec other := by
  induction type with
  | collection head element ih => rw [spec, spec, ih]
  | generic label => rw [spec, spec, same]
  | _ => rfl

theorem TypeDecl.definition_congr (same : settings.genericName = other.genericName) (decl : TypeDecl) :
    decl.definition settings = decl.definition other := by
  unfold definition
  cases decl.body with
  | collection head element =>
    dsimp only
    rw [ElementType.spec_congr same]
  | _ => rfl

theorem EntityDecl.attributes_congr (same : settings.genericName = other.genericName) (decl : EntityDecl) :
    decl.attributes settings = decl.attributes other := by
  have explicit : ExplicitClause.specs settings = ExplicitClause.specs other := by
    funext clause
    rw [ExplicitClause.specs, ExplicitClause.specs, ElementType.spec_congr same]
  have derived : DerivedClause.spec settings = DerivedClause.spec other := by
    funext clause
    rw [DerivedClause.spec, DerivedClause.spec, ElementType.spec_congr same]
  rw [attributes, attributes, explicit, derived]

theorem ParamType.typeRef?_congr (same : settings.genericName = other.genericName) (type : ParamType) :
    type.typeRef? settings = type.typeRef? other := by
  induction type with
  | collection kind bounds element ih => rw [typeRef?, typeRef?, ih]
  | generic label => rw [typeRef?, typeRef?, same]
  | _ => rfl

theorem FunctionDecl.signature_congr (same : settings.genericName = other.genericName) (decl : FunctionDecl) :
    decl.signature settings = decl.signature other := by
  have parameters : ParameterClause.parameters? settings = ParameterClause.parameters? other := by
    funext clause
    rw [ParameterClause.parameters?, ParameterClause.parameters?, ParamType.typeRef?_congr same]
  rw [signature, signature, ParamType.typeRef?_congr same, parameters]

namespace Declaration

theorem definition?_congr (same : settings.genericName = other.genericName) (declaration : Declaration) :
    declaration.definition? settings = declaration.definition? other := by
  cases declaration with
  | type decl => rw [definition?, definition?, TypeDecl.definition_congr same]
  | entity decl => rw [definition?, definition?, EntityDecl.definition, EntityDecl.definition, decl.attributes_congr same]
  | _ => rfl

theorem signature?_congr (same : settings.genericName = other.genericName) (declaration : Declaration) :
    declaration.signature? settings = declaration.signature? other := by
  cases declaration with
  | function decl => rw [signature?, signature?, FunctionDecl.signature_congr same]
  | _ => rfl

end Declaration

end Congr

namespace Draft

/-- In strict mode a draft that is content otherwise fails for its first placeholder. -/
theorem finish_undeclared {draft : Draft} {name : Name} {others : List Name} (indexed : draft.model.Indexed)
    (unfailed : draft.failure = none)
    (uses : ∀ name ∈ draft.entityUses, ∀ d, draft.model.find? name = some d → d.kind = .entity)
    (acyclic : draft.model.Acyclic) (strict : draft.model.settings.strict = true)
    (left : draft.model.placeholders = name :: others) :
    draft.finish.1 = .error (.undeclared name (draft.referrer name)) := by
  have checked := (checks_ok_iff draft).mpr
    ⟨(checkEntityUses_ok_iff draft).mpr uses, (checkCycles_ok_iff indexed).mpr acyclic⟩
  have refused : draft.checkPlaceholder name = (.error (.undeclared name (draft.referrer name)), draft) := by
    unfold checkPlaceholder
    dsimp only
    rw [if_pos strict]
  have stopped : draft.validate = (.error (.undeclared name (draft.referrer name)), draft) := by
    unfold validate
    rw [unfailed]
    dsimp only
    rw [checked]
    dsimp only
    rw [left, runAll, refused]
  rw [finish, stopped]

end Draft

/-! ### One model for both modes -/

namespace Model

variable {settings other : Settings} {schema : Schema} {model model' : Model}

namespace Reflects

/-- Under settings that call generic types alike the same contents reflect the schema. -/
theorem of_settings (reflects : model.Reflects settings schema) (same : settings.genericName = other.genericName) :
    { model with settings := other }.Reflects other schema where
  titled := reflects.titled
  settled := rfl
  names := reflects.names
  declared := fun declaration member d defined =>
    reflects.declared declaration member d ((declaration.definition?_congr same).trans defined)
  undeclared := reflects.undeclared
  links := reflects.links
  functions := by
    refine reflects.functions.trans ?_
    exact List.filterMap_congr fun declaration _ => declaration.signature?_congr same
  indexed := ⟨reflects.indexed.definitions, reflects.indexed.functions⟩

theorem definitions_eq (reflects : model.Reflects settings schema) (reflects' : model'.Reflects other schema)
    (same : settings.genericName = other.genericName) : model.definitions = model'.definitions := by
  have moved := reflects.of_settings same
  have definition : model.definition = model'.definition := moved.definition_perm reflects' (.refl _)
  rw [reflects.indexed.definitions_eq_map, reflects'.indexed.definitions_eq_map, reflects.names, reflects'.names,
    definition]

end Reflects

/-- Models of one schema differ in their settings only, if generic types are called alike. -/
theorem build_unique (built : (build settings schema).1 = .ok model) (built' : (build other schema).1 = .ok model')
    (same : settings.genericName = other.genericName) : model' = { model with settings := other } := by
  obtain ⟨_, reflects, noted⟩ := consistent_of_build built
  obtain ⟨_, reflects', noted'⟩ := consistent_of_build built'
  have moved := reflects.of_settings same
  have title : model'.schema = model.schema := reflects'.titled.trans reflects.titled.symm
  have definitions : model'.definitions = model.definitions := (reflects.definitions_eq reflects' same).symm
  have names : model'.names = model.names := reflects'.names.trans reflects.names.symm
  have links : model'.links = model.links := reflects'.links.trans reflects.links.symm
  have functions : model'.functions = model.functions := reflects'.functions.trans moved.functions.symm
  -- An index is settled by the names it lists.
  have index : model'.index = model.index := reflects'.indexed.definitions.unique (names ▸ reflects.indexed.definitions)
  have functionIndex : model'.functionIndex = model.functionIndex :=
    reflects'.indexed.functions.unique (functions ▸ reflects.indexed.functions)
  have memberships : model'.memberships = model.memberships := by
    rw [noted, noted', selects, selects, definitions]
  cases model'
  exact (Model.mk.injEq ..).mpr
    ⟨title, reflects'.settled, definitions, index, links, functions, functionIndex, memberships⟩

end Model

namespace Schema

variable {settings : Settings} {schema : Schema}

theorem consistent_strict_iff : schema.Consistent { settings with strict := true } ↔
    schema.Consistent { settings with strict := false } ∧
      ∀ decl ∈ schema.entities, ∀ name ∈ decl.references, name ∈ schema.registered := by
  constructor
  · rintro ⟨distinct, functions, supported, uses, acyclic, declared, forward⟩
    exact ⟨⟨distinct, functions, supported, uses, acyclic, fun on => (Bool.false_ne_true on).elim, forward⟩, declared rfl⟩
  · rintro ⟨⟨distinct, functions, supported, uses, acyclic, _, forward⟩, declared⟩
    exact ⟨distinct, functions, supported, uses, acyclic, fun _ => declared, forward⟩

end Schema

/-! ### What an entity names -/

/-- The name that a type is given by below all collections, be it a keyword or not. -/
def ElementType.name? (type : ElementType) : Option Name :=
  match type.innermost with
  | .named name => some name
  | _ => none

theorem ElementType.reference?_eq_filter (type : ElementType) :
    type.reference? = type.name?.filter fun name => (SimpleType.ofKeyword? name).isNone := by
  unfold reference? name?
  cases type.innermost <;> rfl

namespace EntityDecl

/-- The names that attribute types are given by, those of inverse attributes included. -/
def typeNames (decl : EntityDecl) : List Name :=
  (decl.explicit.flatMap fun clause => clause.names.flatMap fun _ => clause.type.name?.toList) ++
    decl.derived.filterMap (·.type.name?) ++ decl.inverse.map (·.entity)

/-- Every name that the entity uses for a child, a parent or the type of an attribute. -/
def namesUsed (decl : EntityDecl) : List Name :=
  decl.children ++ decl.subtypeOf ++ decl.typeNames

/-- Attributes refer to the names of their types, except for keywords. -/
theorem mem_attributeReferences_iff {decl : EntityDecl} {name : Name} :
    name ∈ decl.attributeReferences ↔ name ∈ decl.typeNames ∧ (SimpleType.ofKeyword? name).isNone = true := by
  have inverse : ∀ clause : InverseClause, clause.reference? = some name ↔
      clause.entity = name ∧ (SimpleType.ofKeyword? name).isNone = true := by
    intro clause
    unfold InverseClause.reference?
    by_cases keyword : (SimpleType.ofKeyword? clause.entity).isNone = true
    · rw [if_pos keyword, Option.some.injEq]
      exact ⟨fun same => ⟨same, same ▸ keyword⟩, fun both => both.1⟩
    · rw [if_neg keyword]
      exact ⟨fun none => (Option.some_ne_none _ none.symm).elim, fun both => (keyword (both.1 ▸ both.2)).elim⟩
  have typed : ∀ type : ElementType, type.reference? = some name ↔
      type.name? = some name ∧ (SimpleType.ofKeyword? name).isNone = true := by
    intro type
    rw [type.reference?_eq_filter, Option.filter_eq_some_iff]
  unfold attributeReferences typeNames
  simp only [List.mem_append, List.mem_flatMap, List.mem_filterMap, List.mem_map, Option.mem_toList, typed, inverse]
  grind

theorem mem_references_iff_of_plain {decl : EntityDecl} {name : Name}
    (plain : (SimpleType.ofKeyword? name).isNone = true) : name ∈ decl.references ↔ name ∈ decl.namesUsed := by
  rw [references, namesUsed, List.mem_append, List.mem_append (s := decl.children ++ decl.subtypeOf),
    mem_attributeReferences_iff]
  exact or_congr_right (and_iff_left plain)

theorem mem_references_iff_of_keyword {decl : EntityDecl} {name : Name}
    (keyword : (SimpleType.ofKeyword? name).isSome = true) :
    name ∈ decl.references ↔ name ∈ decl.children ++ decl.subtypeOf := by
  rw [references, List.mem_append, mem_attributeReferences_iff]
  refine or_iff_left fun both => ?_
  rw [Option.isNone_iff_eq_none.mp both.2] at keyword
  cases keyword

end EntityDecl

/-! ### Strict builds -/

namespace Model

variable {settings : Settings} {schema : Schema}

theorem build_strict_iff {model : Model} :
    (build { settings with strict := true } schema).1 = .ok model ↔
      ∃ lenient, (build { settings with strict := false } schema).1 = .ok lenient ∧ lenient.placeholders = [] ∧
        model = { lenient with settings := { settings with strict := true } } := by
  constructor
  · intro built
    obtain ⟨consistent, declared⟩ := Schema.consistent_strict_iff.mp (consistent_of_build built).1
    obtain ⟨lenient, builtLenient⟩ := exists_build consistent
    have reflects := (consistent_of_build builtLenient).2.1
    exact ⟨lenient, builtLenient, reflects.placeholders_eq_nil_iff.mpr declared, build_unique builtLenient built rfl⟩
  · rintro ⟨lenient, builtLenient, none, rfl⟩
    obtain ⟨consistent, reflects, _⟩ := consistent_of_build builtLenient
    have declared := reflects.placeholders_eq_nil_iff.mp none
    obtain ⟨model, built⟩ := exists_build (Schema.consistent_strict_iff.mpr ⟨consistent, declared⟩)
    rw [built, build_unique builtLenient built rfl]

/-- The strict build fails for the first placeholder, blamed on the first entity that refers to it. -/
theorem build_strict_error {lenient : Model} {name : Name} {others : List Name}
    (built : (build { settings with strict := false } schema).1 = .ok lenient)
    (left : lenient.placeholders = name :: others) :
    ∃ decl, schema.entities.find? (name ∈ ·.references) = some decl ∧
      (build { settings with strict := true } schema).1 = .error (.undeclared name decl.name) := by
  obtain ⟨consistent, reflects, _⟩ := consistent_of_build built
  obtain ⟨absent, user, listed, refers⟩ := reflects.mem_placeholders_iff.mp (left ▸ List.mem_cons_self)
  obtain ⟨decl, found⟩ : ∃ decl, schema.entities.find? (name ∈ ·.references) = some decl :=
    Option.isSome_iff_exists.mp (List.find?_isSome.mpr ⟨user, listed, by simpa using refers⟩)
  refine ⟨decl, found, ?_⟩
  obtain ⟨draft, added⟩ := (Draft.addSchema_ok_iff { settings with strict := true } schema).mpr
    ⟨consistent.distinct, consistent.distinctFunctions, consistent.noAggregate⟩
  obtain ⟨drafted, unfailed, used⟩ := Draft.addSchema_reflects added
  have uses : ∀ name ∈ draft.entityUses, ∀ d, draft.model.find? name = some d → d.kind = .entity := by
    intro name member
    rw [used] at member
    obtain ⟨decl, listed, member⟩ := Schema.mem_flatMap_entityUses.mp member
    exact drafted.entityUses_iff.mpr (consistent.entityUses decl listed name member)
  have acyclic : draft.model.Acyclic := by
    rw [Acyclic, drafted.inherits_eq]
    exact consistent.acyclic
  have strict : draft.model.settings.strict = true := by rw [drafted.settled]
  have first : draft.model.placeholders = name :: others := by
    rw [← left, placeholders, placeholders, drafted.definitions_eq reflects rfl]
  have blamed : draft.referrer name = decl.name := by
    rw [Draft.referrer, (Draft.addSchema_blamed added absent).recorded, found]
    rfl
  rw [build, added]
  dsimp only
  rw [Draft.finish_undeclared drafted.indexed unfailed uses acyclic strict first, blamed]

/-- A strict build gives the model of a lenient one without placeholders. If there are some, it fails for the first one
and names the first entity that uses it as a child, a parent or an attribute's type; for the keyword of a simple type,
the first that uses it as a child or a parent. -/
theorem strict_build (settings : Settings) (schema : Schema) :
    (∀ model, (build { settings with strict := true } schema).1 = .ok model ↔
      ∃ lenient, (build { settings with strict := false } schema).1 = .ok lenient ∧ lenient.placeholders = [] ∧
        model = { lenient with settings := { settings with strict := true } }) ∧
    ∀ lenient name others, (build { settings with strict := false } schema).1 = .ok lenient →
      lenient.placeholders = name :: others →
      ∃ decl, (build { settings with strict := true } schema).1 = .error (.undeclared name decl.name) ∧
        ((SimpleType.ofKeyword? name).isNone = true → schema.entities.find? (name ∈ ·.namesUsed) = some decl) ∧
        ((SimpleType.ofKeyword? name).isSome = true →
          schema.entities.find? (fun user => name ∈ user.children ++ user.subtypeOf) = some decl) := by
  refine ⟨fun model => build_strict_iff, ?_⟩
  intro lenient name others built left
  obtain ⟨decl, found, failed⟩ := build_strict_error built left
  refine ⟨decl, failed, ?_, ?_⟩
  · intro plain
    simp only [← EntityDecl.mem_references_iff_of_plain plain]
    exact found
  · intro keyword
    simp only [← EntityDecl.mem_references_iff_of_keyword keyword]
    exact found

/-- A note refers to a person that nobody declares. So does a letter behind it, whose parent is not declared either. -/
def post : Schema where
  name := "post"
  declarations :=
    [.entity { name := "note", explicit := [{ names := [.simple "writer"], type := .named "person" }] },
      .entity
        { name := "letter"
          subtypeOf := ["paper"]
          explicit := [{ names := [.simple "writer"], type := .named "person" }] }]

theorem post_strict_build :
    ∃ lenient, (build {} post).1 = .ok lenient ∧ lenient.placeholders = ["person", "paper"] ∧
      (build { strict := true } post).1 = .error (.undeclared "person" "note") := by
  obtain ⟨lenient, built, left⟩ := exists_ok_of_map (show (build {} post).1.toOption.map (·.placeholders) =
    some ["person", "paper"] by decide +kernel)
  obtain ⟨decl, failed, plain, _⟩ := (strict_build {} post).2 lenient "person" ["paper"] built left
  have first : (post.entities.find? ("person" ∈ ·.namesUsed)).map (·.name) = some "note" := by decide +kernel
  rw [plain (by decide +kernel)] at first
  have named : decl.name = "note" := Option.some.inj first
  exact ⟨lenient, built, left, by rw [failed, named]⟩

/-- A gauge's readings are of the type `REAL`, which a sensor has as its parent. -/
def gauges : Schema where
  name := "gauges"
  declarations :=
    [.entity { name := "gauge", inverse := [{ name := .simple "readings", entity := "REAL", forAttr := "source" }] },
      .entity { name := "sensor", subtypeOf := ["REAL"] }]

/-- The gauge uses the name first, but the sensor is blamed for it. -/
theorem gauges_blames_sensor :
    (build {} gauges).1.toOption.map (·.placeholders) = some ["REAL"] ∧
      (build { strict := true } gauges).1 = .error (.undeclared "REAL" "sensor") ∧
      (gauges.entities.find? ("REAL" ∈ ·.namesUsed)).map (·.name) = some "gauge" := by
  refine ⟨by decide +kernel, by decide +kernel, by decide +kernel⟩

end Model

end Express
