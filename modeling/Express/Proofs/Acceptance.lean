import Express.Proofs.Finishing
import Express.Proofs.Reflection

/-!
# Which schemas become models

`build_ok_iff` says that a schema becomes a model exactly if it is consistent. Each check of a finished draft is carried
over to the declarations that the draft reflects.
-/

namespace Express

namespace Schema

/-- What only entities contribute to is contributed by the declared entities. -/
theorem mem_flatMap_iff {α : Type} {schema : Schema} {parts : Declaration → List α} {item : α}
    (only : ∀ declaration, item ∈ parts declaration → ∃ decl, declaration = .entity decl) :
    item ∈ schema.declarations.flatMap parts ↔ ∃ decl ∈ schema.entities, item ∈ parts (.entity decl) := by
  rw [List.mem_flatMap]
  constructor
  · rintro ⟨declaration, member, part⟩
    obtain ⟨decl, rfl⟩ := only declaration part
    exact ⟨decl, mem_entities_iff.mpr member, part⟩
  · rintro ⟨decl, member, part⟩
    exact ⟨_, mem_entities_iff.mp member, part⟩

theorem mem_flatMap_entityUses {schema : Schema} {name : Name} :
    name ∈ schema.declarations.flatMap (·.entityUses) ↔ ∃ decl ∈ schema.entities, name ∈ decl.entityUses :=
  mem_flatMap_iff fun declaration used => by
    cases declaration with
    | entity decl => exact ⟨decl, rfl⟩
    | _ => cases used

theorem mem_flatMap_links {schema : Schema} {link : ReverseLink} :
    link ∈ schema.declarations.flatMap (·.links) ↔ ∃ decl ∈ schema.entities, link ∈ decl.links :=
  mem_flatMap_iff fun declaration linked => by
    cases declaration with
    | entity decl => exact ⟨decl, rfl⟩
    | _ => cases linked

end Schema

namespace EntityDecl

/-- The stored attributes of a declared entity are the explicit ones. -/
theorem stores_iff (settings : Settings) (decl : EntityDecl) (attr : Name) :
    (∃ a ∈ (decl.attributes settings).map (·.attached), a.name = attr ∧ a.isStored = true) ↔ decl.Stores attr := by
  constructor
  · rintro ⟨a, member, named, stored⟩
    obtain ⟨spec, listed, rfl⟩ := List.mem_map.mp member
    rcases mem_attributes_iff.mp listed with ⟨clause, own, listed⟩ | ⟨clause, _, rfl⟩ | ⟨clause, _, rfl⟩
    · obtain ⟨name, written, rfl⟩ := List.mem_map.mp listed
      exact ⟨clause, own, name, written, named⟩
    · cases stored
    · cases stored
  · rintro ⟨clause, own, name, written, named⟩
    have listed : _ ∈ decl.attributes settings :=
      mem_attributes_iff.mpr (.inl ⟨clause, own, List.mem_map_of_mem written⟩)
    exact ⟨_, List.mem_map_of_mem listed, named, rfl⟩

end EntityDecl

namespace Model.Reflects

variable {settings : Settings} {schema : Schema} {model : Model}

theorem entityUses_iff (reflects : model.Reflects settings schema) {name : Name} :
    (∀ d, model.find? name = some d → d.kind = .entity) ↔ (name ∈ schema.registered → schema.DeclaresEntity name) := by
  constructor
  · intro entities registered
    refine (reflects.declaresEntity_iff registered).mpr (entities _ (reflects.indexed.find?_of_mem ?_))
    exact reflects.mem_names_iff.mpr (.inl registered)
  · intro entity d found
    obtain ⟨_, rfl⟩ := reflects.indexed.find?_eq_some_iff.mp found
    by_cases registered : name ∈ schema.registered
    · exact (reflects.declaresEntity_iff registered).mp (entity registered)
    · rw [reflects.undeclared name registered]
      rfl

theorem mem_placeholders_iff (reflects : model.Reflects settings schema) {name : Name} :
    name ∈ model.placeholders ↔ name ∉ schema.registered ∧ ∃ decl ∈ schema.entities, name ∈ decl.references := by
  have listed : name ∈ model.placeholders ↔ name ∈ model.names ∧ (model.definition name).isPlaceholder = true := by
    rw [placeholders, reflects.indexed.definitions_eq_map, List.mem_map]
    constructor
    · rintro ⟨d, member, rfl⟩
      obtain ⟨member, placeholder⟩ := List.mem_filter.mp member
      obtain ⟨name, known, rfl⟩ := List.mem_map.mp member
      rw [reflects.indexed.definition_name]
      exact ⟨known, placeholder⟩
    · rintro ⟨known, placeholder⟩
      exact ⟨_, List.mem_filter.mpr ⟨List.mem_map_of_mem known, placeholder⟩, reflects.indexed.definition_name name⟩
  rw [listed, reflects.isPlaceholder_iff, reflects.mem_names_iff]
  constructor
  · rintro ⟨registered | referred, absent⟩
    · exact (absent registered).elim
    · exact ⟨absent, referred⟩
  · rintro ⟨absent, referred⟩
    exact ⟨.inr referred, absent⟩

theorem placeholders_eq_nil_iff (reflects : model.Reflects settings schema) :
    model.placeholders = [] ↔ ∀ decl ∈ schema.entities, ∀ name ∈ decl.references, name ∈ schema.registered := by
  rw [List.eq_nil_iff_forall_not_mem]
  constructor
  · intro none decl member name referred
    by_contra absent
    exact none name (reflects.mem_placeholders_iff.mpr ⟨absent, decl, member, referred⟩)
  · intro all name placeholder
    obtain ⟨absent, decl, member, referred⟩ := reflects.mem_placeholders_iff.mp placeholder
    exact absent (all decl member name referred)

/-! ### Forward attributes -/

/-- What an entity inherits from is an entity, if only as a placeholder. -/
theorem entity_above (reflects : model.Reflects settings schema) (uses : schema.UsesEntities) {name parent : Name}
    (inherits : schema.Inherits name parent) : ∃ above, model.find? parent = some (.entity above) := by
  obtain ⟨decl, member, _, first⟩ := inherits
  have listed : parent ∈ decl.subtypeOf := List.mem_of_mem_head? first
  have known : parent ∈ model.names := by
    refine reflects.mem_names_iff.mpr (.inr ⟨decl, member, ?_⟩)
    exact List.mem_append_left _ (List.mem_append_right _ listed)
  have kind : (model.definition parent).kind = .entity := by
    refine reflects.entityUses_iff.mpr (uses decl member parent ?_) _ (reflects.indexed.find?_of_mem known)
    exact List.mem_append_left _ (List.mem_append_right _ listed)
  have found := reflects.indexed.find?_of_mem known
  cases defined : model.definition parent with
  | entity above => exact ⟨above, by rw [found, defined]⟩
  | _ => rw [defined] at kind; cases kind

/-- Whatever is inherited from stands in the chain. -/
theorem exists_mem_chain (reflects : model.Reflects settings schema) (uses : schema.UsesEntities) {e : Entity}
    {chain : List Entity} (climbed : model.Chain e chain) (found : model.find? e.name = some (.entity e)) {name : Name}
    (reach : schema.Ancestor e.name name) : ∃ x ∈ chain, x.name = name := by
  rw [Schema.Ancestor, ← reflects.inherits_eq] at reach
  rcases Relation.ReflTransGen.cases_tail reach with same | ⟨_, _, step⟩
  · exact ⟨e, climbed.mem_self, same.symm⟩
  · obtain ⟨above, foundAbove⟩ := reflects.entity_above uses (reflects.inherits_iff.mp step)
    have named : above.name = name := reflects.indexed.find?_name foundAbove
    refine ⟨above, (climbed.mem_iff reflects.indexed found).mpr ⟨?_, ?_⟩, named⟩ <;> rw [named]
    · exact foundAbove
    · exact reach

/-- A chain is complete exactly if every ancestor is declared. -/
theorem completeChain_iff (reflects : model.Reflects settings schema) (uses : schema.UsesEntities) {e : Entity}
    {chain : List Entity} (climbed : model.Chain e chain) (found : model.find? e.name = some (.entity e)) :
    Draft.completeChain chain = true ↔ ∀ above, schema.Ancestor e.name above → above ∈ schema.registered := by
  obtain ⟨top, head, member, orphan⟩ := climbed.exists_head
  have complete : Draft.completeChain chain = true ↔ top.isPlaceholder = false ∧ top.parent? = none := by
    obtain ⟨others, rfl⟩ := List.head?_eq_some_iff.mp head
    simp [Draft.completeChain]
  rw [complete]
  constructor
  · rintro ⟨declared, _⟩ above reach
    by_contra absent
    obtain ⟨x, inChain, rfl⟩ := reflects.exists_mem_chain uses climbed found reach
    have foundLevel := ((climbed.mem_iff reflects.indexed found).mp inChain).1
    rcases reflects.entity_cases foundLevel with ⟨decl, known, named, _⟩ | ⟨_, placeholder⟩
    · exact absent (Schema.mem_registered_iff.mpr (.inr ⟨decl, known, named⟩))
    · -- A placeholder has no parents, so it is the head of the chain.
      rw [climbed.head_of_parentless inChain (by rw [placeholder]; rfl)] at head
      cases head
      rw [placeholder] at declared
      cases declared
  · intro declared
    obtain ⟨foundTop, reach⟩ := (climbed.mem_iff reflects.indexed found).mp member
    rw [reflects.inherits_eq] at reach
    constructor
    · rcases reflects.entity_cases foundTop with ⟨decl, _, _, defined⟩ | ⟨absent, _⟩
      · cases defined
        rfl
      · exact (absent (declared _ reach)).elim
    · cases first : top.parent? with
      | none => rfl
      | some parent =>
        have step : schema.Inherits top.name parent := reflects.inherits_iff.mp ⟨top, foundTop, first⟩
        obtain ⟨above, foundAbove⟩ := reflects.entity_above uses step
        exact (orphan parent above first foundAbove).elim

theorem stored_iff (reflects : model.Reflects settings schema) {e : Entity} {chain : List Entity}
    (climbed : model.Chain e chain) (found : model.find? e.name = some (.entity e)) {attr : Name} :
    (∃ x ∈ chain, ∃ a ∈ x.attributes, a.name = attr ∧ a.isStored = true) ↔
      ∃ owner ∈ schema.entities, schema.Ancestor e.name owner.name ∧ owner.Stores attr := by
  rw [Schema.Ancestor, ← reflects.inherits_eq]
  constructor
  · rintro ⟨x, member, stored⟩
    obtain ⟨foundX, reach⟩ := (climbed.mem_iff reflects.indexed found).mp member
    rcases reflects.entity_cases foundX with ⟨owner, known, named, defined⟩ | ⟨_, placeholder⟩
    · cases defined
      exact ⟨owner, known, reach, (owner.stores_iff settings attr).mp stored⟩
    · rw [placeholder] at stored
      obtain ⟨_, none, _⟩ := stored
      cases none
  · rintro ⟨owner, known, reach, stores⟩
    refine ⟨{ owner.bare with attributes := (owner.attributes settings).map (·.attached) }, ?_,
      (owner.stores_iff settings attr).mpr stores⟩
    exact (climbed.mem_iff reflects.indexed found).mpr ⟨reflects.find?_entityDecl known, reach⟩

theorem linkFits_iff (reflects : model.Reflects settings schema) (uses : schema.UsesEntities)
    (acyclic : model.Acyclic) {link : ReverseLink} :
    Draft.LinkFits model link ↔ schema.Answers link.target link.targetAttr := by
  constructor
  · rintro fits ⟨decl, known, named⟩ declared
    have found := reflects.find?_entityDecl known
    rw [← named] at declared ⊢
    obtain ⟨chain, climb, climbed⟩ := exists_chain reflects.indexed acyclic found
    rw [named] at climb
    refine (reflects.stored_iff climbed found).mp ((forwardAttribute_some_iff climb).mp (fits chain climb ?_))
    exact (reflects.completeChain_iff uses climbed found).mpr declared
  · intro answers chain climb complete
    obtain ⟨e, found⟩ : ∃ e, model.find? link.target = some (.entity e) := by
      rw [ancestors] at climb
      cases entity : model.entity link.target with
      | error e => rw [entity] at climb; cases climb
      | ok e => exact ⟨e, entity_eq_ok_iff.mp entity⟩
    have named : e.name = link.target := reflects.indexed.find?_name found
    obtain ⟨chain', climb', climbed⟩ := exists_chain reflects.indexed acyclic found
    obtain rfl : chain = chain' := Except.ok.inj (climb.symm.trans climb')
    rw [← named] at found
    have declared := (reflects.completeChain_iff uses climbed found).mp complete
    have entity : schema.DeclaresEntity e.name := by
      rcases reflects.entity_cases found with ⟨decl, known, same, _⟩ | ⟨absent, _⟩
      · exact ⟨decl, known, same⟩
      · exact (absent (declared _ .refl)).elim
    refine (forwardAttribute_some_iff climb).mpr ((reflects.stored_iff climbed found).mpr ?_)
    rw [← named] at answers
    exact answers entity declared

end Model.Reflects

/-! ### Building -/

namespace Model

variable {settings : Settings} {schema : Schema}

theorem valid_iff {draft : Draft} (added : (Draft.empty settings).addSchema schema = (.ok (), draft)) :
    draft.Valid ↔ schema.UsesEntities ∧ (∀ name, ¬ Relation.TransGen schema.Inherits name name) ∧
      (settings.strict = true → ∀ decl ∈ schema.entities, ∀ name ∈ decl.references, name ∈ schema.registered) ∧
      ∀ decl ∈ schema.entities, ∀ clause ∈ decl.inverse, schema.Answers clause.entity clause.forAttr := by
  obtain ⟨reflects, unfailed, used⟩ := Draft.addSchema_reflects added
  have acyclic : draft.model.Acyclic ↔ ∀ name, ¬ Relation.TransGen schema.Inherits name name := by
    rw [Acyclic, reflects.inherits_eq]
  constructor
  · rintro ⟨_, entities, uncycled, strict, fits⟩
    have uses : schema.UsesEntities := fun decl member name listed =>
      reflects.entityUses_iff.mp (entities name (by rw [used]; exact Schema.mem_flatMap_entityUses.mpr ⟨decl, member, listed⟩))
    refine ⟨uses, acyclic.mp uncycled, ?_, ?_⟩
    · intro on
      exact reflects.placeholders_eq_nil_iff.mp (strict (by rw [reflects.settled]; exact on))
    · intro decl member clause listed
      refine (reflects.linkFits_iff uses uncycled).mp (fits ⟨decl.name, clause.name.base, clause.entity, clause.forAttr⟩ ?_)
      rw [sortedLinks, reflects.links, ReverseIndex.mem_all_insertAll]
      exact .inr <| Schema.mem_flatMap_links.mpr ⟨decl, member, List.mem_map_of_mem listed⟩
  · rintro ⟨uses, uncycled, strict, forward⟩
    refine ⟨unfailed, ?_, acyclic.mpr uncycled, ?_, ?_⟩
    · intro name listed
      rw [used] at listed
      obtain ⟨decl, member, listed⟩ := Schema.mem_flatMap_entityUses.mp listed
      exact reflects.entityUses_iff.mpr (uses decl member name listed)
    · intro on
      rw [reflects.settled] at on
      exact reflects.placeholders_eq_nil_iff.mpr (strict on)
    · intro link listed
      rw [sortedLinks, reflects.links, ReverseIndex.mem_all_insertAll] at listed
      obtain ⟨decl, member, listed⟩ := Schema.mem_flatMap_links.mp (listed.resolve_left List.not_mem_nil)
      obtain ⟨clause, written, rfl⟩ := List.mem_map.mp listed
      exact (reflects.linkFits_iff uses (acyclic.mpr uncycled)).mpr (forward decl member clause written)

/-- A model comes only from a consistent schema, and holds what that says. -/
theorem consistent_of_build {model : Model} (built : (build settings schema).1 = .ok model) :
    schema.Consistent settings ∧ model.Reflects settings schema ∧ model.memberships = membershipsOf model.selects := by
  unfold build at built
  split at built
  · cases built
  · rename_i draft added
    have reflects := (Draft.addSchema_reflects added).1
    obtain ⟨valid, rfl⟩ := (Draft.finish_ok_iff reflects.indexed).mp built
    obtain ⟨distinct, distinctFunctions, noAggregate⟩ := (Draft.addSchema_ok_iff settings schema).mp ⟨draft, added⟩
    obtain ⟨uses, acyclic, declared, forward⟩ := (valid_iff added).mp valid
    refine ⟨⟨distinct, distinctFunctions, noAggregate, uses, acyclic, declared, forward⟩, ?_, rfl⟩
    exact ⟨reflects.titled, reflects.settled, reflects.names, reflects.declared, reflects.undeclared, reflects.links,
      reflects.functions, reflects.indexed.definitions, reflects.indexed.functions⟩

theorem exists_build (consistent : schema.Consistent settings) : ∃ model, (build settings schema).1 = .ok model := by
  obtain ⟨draft, added⟩ := (Draft.addSchema_ok_iff settings schema).mpr
    ⟨consistent.distinct, consistent.distinctFunctions, consistent.noAggregate⟩
  have indexed := (Draft.addSchema_reflects added).1.indexed
  have valid := (valid_iff added).mpr
    ⟨consistent.entityUses, consistent.acyclic, consistent.declared, consistent.forward⟩
  rw [build, added]
  exact ⟨_, (Draft.finish_ok_iff indexed).mpr ⟨valid, rfl⟩⟩

/-- A schema becomes a model exactly if it is consistent. -/
theorem build_ok_iff (settings : Settings) (schema : Schema) :
    (∃ model, (build settings schema).1 = .ok model) ↔ schema.Consistent settings := by
  constructor
  · rintro ⟨model, built⟩
    exact (consistent_of_build built).1
  · exact exists_build

end Model

end Express
