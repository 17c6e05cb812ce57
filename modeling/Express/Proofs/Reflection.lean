import Express.Proofs.Drafting
import Express.Proofs.Lineage

/-!
# Models that reflect a schema

What a model answers when it holds exactly what a schema declares: which names have a slot, which of them are entities
or placeholders, and who inherits from whom. Each answer is given in terms of the declarations.
-/

namespace Express

namespace Schema

theorem mem_entities_iff {schema : Schema} {decl : EntityDecl} :
    decl ∈ schema.entities ↔ .entity decl ∈ schema.declarations := by
  rw [entities, List.mem_filterMap]
  constructor
  · rintro ⟨declaration, member, same⟩
    cases declaration <;> cases same
    exact member
  · exact fun member => ⟨_, member, rfl⟩

theorem mem_registered_iff {schema : Schema} {name : Name} :
    name ∈ schema.registered ↔
      (∃ decl, .type decl ∈ schema.declarations ∧ decl.name = name) ∨ schema.DeclaresEntity name := by
  rw [registered, List.mem_filterMap]
  constructor
  · rintro ⟨declaration, member, same⟩
    cases declaration with
    | type decl => exact .inl ⟨decl, member, Option.some.inj same⟩
    | entity decl => exact .inr ⟨decl, mem_entities_iff.mpr member, Option.some.inj same⟩
    | _ => cases same
  · rintro (⟨decl, member, rfl⟩ | ⟨decl, member, rfl⟩)
    · exact ⟨_, member, rfl⟩
    · exact ⟨_, mem_entities_iff.mp member, rfl⟩

end Schema

namespace TypeDecl

theorem definition_kind_ne {settings : Settings} {decl : TypeDecl} {d : Definition}
    (h : decl.definition settings = .ok d) : d.kind ≠ .entity := by
  unfold definition at h
  split at h
  · cases h; exact Kind.noConfusion
  · rw [(ElementType.spec_sound settings _).resolve] at h; cases h; exact Kind.noConfusion
  all_goals cases h; exact Kind.noConfusion

end TypeDecl

namespace Model.Reflects

variable {settings : Settings} {schema : Schema} {model : Model}

theorem mem_names_iff (reflects : model.Reflects settings schema) {name : Name} :
    name ∈ model.names ↔ name ∈ schema.registered ∨ ∃ decl ∈ schema.entities, name ∈ decl.references := by
  rw [reflects.names, mem_foldl_mention, List.mem_flatMap, Schema.registered, List.mem_filterMap]
  constructor
  · rintro (none | ⟨declaration, member, mentioned⟩)
    · cases none
    · cases declaration with
      | type decl => exact .inl ⟨_, member, by rw [List.mem_singleton.mp mentioned]; rfl⟩
      | entity decl =>
        rcases List.mem_cons.mp mentioned with rfl | referred
        · exact .inl ⟨_, member, rfl⟩
        · exact .inr ⟨decl, Schema.mem_entities_iff.mpr member, referred⟩
      | _ => cases mentioned
  · rintro (⟨declaration, member, same⟩ | ⟨decl, member, referred⟩)
    · refine .inr ⟨declaration, member, ?_⟩
      cases declaration <;> cases same
      · exact List.mem_singleton_self _
      · exact List.mem_cons_self
    · exact .inr ⟨_, Schema.mem_entities_iff.mp member, List.mem_cons_of_mem _ referred⟩

theorem find?_entityDecl (reflects : model.Reflects settings schema) {decl : EntityDecl}
    (member : decl ∈ schema.entities) : model.find? decl.name = some (decl.definition settings) := by
  refine reflects.indexed.find?_eq_some_iff.mpr ⟨reflects.mem_names_iff.mpr (.inl ?_), ?_⟩
  · exact Schema.mem_registered_iff.mpr (.inr ⟨decl, member, rfl⟩)
  · exact reflects.declared _ (Schema.mem_entities_iff.mp member) _ rfl

/-- The declared entities are the declared names that are defined as entities. -/
theorem declaresEntity_iff (reflects : model.Reflects settings schema) {name : Name}
    (registered : name ∈ schema.registered) :
    schema.DeclaresEntity name ↔ (model.definition name).kind = .entity := by
  constructor
  · rintro ⟨decl, member, rfl⟩
    rw [definition_of_find? (reflects.find?_entityDecl member)]
    rfl
  · intro kind
    rcases Schema.mem_registered_iff.mp registered with ⟨decl, member, rfl⟩ | declared
    · obtain ⟨d, defines⟩ := decl.definition_ok settings
      have defined := reflects.declared _ member d (by rw [Declaration.definition?, defines]; rfl)
      rw [TypeDecl.definition_name defines] at defined
      rw [defined] at kind
      exact (TypeDecl.definition_kind_ne defines kind).elim
    · exact declared

theorem isPlaceholder_iff (reflects : model.Reflects settings schema) {name : Name} :
    (model.definition name).isPlaceholder = true ↔ name ∉ schema.registered := by
  constructor
  · intro placeholder registered
    have kind : (model.definition name).kind = .entity := by
      cases defined : model.definition name with
      | entity e => rfl
      | _ => rw [defined] at placeholder; cases placeholder
    obtain ⟨decl, member, rfl⟩ := (reflects.declaresEntity_iff registered).mpr kind
    rw [definition_of_find? (reflects.find?_entityDecl member)] at placeholder
    cases placeholder
  · intro absent
    rw [reflects.undeclared name absent]
    rfl

/-- An entity of the model is a declared one or a placeholder. -/
theorem entity_cases (reflects : model.Reflects settings schema) {name : Name} {e : Entity}
    (found : model.find? name = some (.entity e)) :
    (∃ decl ∈ schema.entities, decl.name = name ∧ decl.definition settings = .entity e) ∨
      (name ∉ schema.registered ∧ e = .placeholder name) := by
  obtain ⟨_, defined⟩ := reflects.indexed.find?_eq_some_iff.mp found
  by_cases registered : name ∈ schema.registered
  · obtain ⟨decl, member, rfl⟩ := (reflects.declaresEntity_iff registered).mpr (by rw [defined]; rfl)
    refine .inl ⟨decl, member, rfl, ?_⟩
    exact Option.some.inj ((reflects.find?_entityDecl member).symm.trans found)
  · rw [reflects.undeclared name registered] at defined
    cases defined
    exact .inr ⟨registered, rfl⟩

theorem inherits_iff (reflects : model.Reflects settings schema) {name parent : Name} :
    model.Inherits name parent ↔ schema.Inherits name parent := by
  constructor
  · rintro ⟨e, found, first⟩
    rcases reflects.entity_cases found with ⟨decl, member, named, defined⟩ | ⟨_, rfl⟩
    · cases defined
      exact ⟨decl, member, named, first⟩
    · cases first
  · rintro ⟨decl, member, rfl, first⟩
    exact ⟨_, reflects.find?_entityDecl member, first⟩

theorem inherits_eq (reflects : model.Reflects settings schema) : model.Inherits = schema.Inherits := by
  funext name parent
  exact propext reflects.inherits_iff

end Model.Reflects

end Express
