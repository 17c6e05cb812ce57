import Express.Proofs.Registry

/-!
# Well-formed models

Types, attributes, relatives and links of every finished model are in order (`wellFormed_of_finished`). In particular
the links are those of the inverse attributes, each once: the two lists are written apart and never get out of step.
-/

namespace Express

/-! ### Names with what belongs to them -/

theorem flatMap_foldl_mention {α : Type} {f : Name → List α} {names : List Name}
    (empty : ∀ name, name ∉ names → f name = []) (mentioned : List Name) :
    (mentioned.foldl mention names).flatMap f = names.flatMap f := by
  induction mentioned generalizing names with
  | nil => rfl
  | cons first mentioned ih =>
    have once : (mention names first).flatMap f = names.flatMap f := by
      by_cases present : first ∈ names
      · rw [mention_of_mem present]
      · rw [mention_of_not_mem present, List.flatMap_append, List.flatMap_singleton, empty first present,
          List.append_nil]
    rw [List.foldl_cons, ih, once]
    intro name absent
    exact empty name fun present => absent (mem_mention.mpr (.inl present))

/-- What is added under one of the names is added to the whole. -/
theorem flatMap_grown_perm {α : Type} {f g : Name → List α} {names : List Name} {name : Name} {more : List α}
    (distinct : names.Nodup) (member : name ∈ names) (other : ∀ n, n ≠ name → g n = f n)
    (grown : g name = f name ++ more) : (names.flatMap g).Perm (names.flatMap f ++ more) := by
  have first : names.Perm (name :: names.erase name) := List.perm_cons_erase member
  have rest : (names.erase name).flatMap g = (names.erase name).flatMap f := by
    refine List.flatMap_congr fun n listed => other n ?_
    exact (distinct.mem_erase_iff.mp listed).1
  calc (names.flatMap g).Perm ((name :: names.erase name).flatMap g) := first.flatMap_right g
    _ = f name ++ (more ++ (names.erase name).flatMap f) := by
      rw [List.flatMap_cons, grown, rest, List.append_assoc]
    List.Perm _ (f name ++ ((names.erase name).flatMap f ++ more)) := List.perm_append_comm.append_left _
    _ = (name :: names.erase name).flatMap f ++ more := by rw [List.flatMap_cons, List.append_assoc]
    List.Perm _ (names.flatMap f ++ more) := (first.symm.flatMap_right f).append_right more

/-- The inverse attributes of an entity, each with its owner and what it points at. -/
def inverseSources (owner : Name) (attributes : List Attribute) : List (Name × Name × Name) :=
  (attributes.filter (·.inverse)).map fun attr => (owner, attr.name, attr.type.base)

theorem inverseSources_append (owner : Name) (attributes others : List Attribute) :
    inverseSources owner (attributes ++ others) = inverseSources owner attributes ++ inverseSources owner others := by
  rw [inverseSources, List.filter_append, List.map_append]
  rfl

namespace ReverseLink

/-- The inverse attribute that a link comes from. -/
def source (link : ReverseLink) : Name × Name × Name :=
  (link.owner, link.ownerAttr, link.target)

end ReverseLink

namespace AttributeSpec

theorem link?_source (entity : Name) (spec : AttributeSpec) :
    ([spec].filterMap (·.link? entity)).map (·.source) = inverseSources entity [spec.attached] := by
  have inverse : spec.attached.inverse = spec.role.forAttr?.isSome := rfl
  unfold inverseSources
  cases role : spec.role.forAttr? with
  | none =>
    rw [role] at inverse
    simp [link?, role, inverse]
  | some forAttr =>
    rw [role] at inverse
    have target : spec.attached.type.base = spec.type.base := rfl
    have named : spec.attached.name = spec.name.base := rfl
    simp [link?, role, inverse, target, named, ReverseLink.source]

end AttributeSpec

namespace Draft

/-! ### What a move keeps -/

namespace View

structure Integrity (view : View) : Prop where
  types : ∀ name, ∀ type ∈ (view.definition name).types, type.WellFormed
  signatures : ∀ function ∈ view.functions, ∀ type ∈ function.types, type.WellFormed
  required : ∀ name, ∀ attr ∈ (view.definition name).attributes, attr.inverse = true → attr.optional = false
  relatives : ∀ name, ∀ other ∈ (view.definition name).relatives, other ∈ view.entityUses
  targets : ∀ link ∈ view.links.all, link.target ∈ view.entityUses
  sources : (view.links.all.map (·.source)).Perm
    (view.names.flatMap fun name => inverseSources name (view.definition name).attributes)

theorem integrity_empty (settings : Settings) : (empty settings).view.Integrity where
  types := fun _ _ none => by cases none
  signatures := fun _ none => by cases none
  required := fun _ _ none => by cases none
  relatives := fun _ _ none => by cases none
  targets := fun _ none => by cases none
  sources := .nil

variable {view : View}

theorem Registry.no_sources (registry : view.Registry) {name : Name} (absent : name ∉ view.names) :
    inverseSources name (view.definition name).attributes = [] := by
  rw [registry.blank name fun declared => absent (registry.slotted name declared)]
  rfl

namespace Integrity

theorem mention (before : view.Integrity) (registry : view.Registry) (names : List Name) :
    Integrity { view with names := names.foldl Express.mention view.names } where
  types := before.types
  signatures := before.signatures
  required := before.required
  relatives := before.relatives
  targets := before.targets
  sources := by
    rw [flatMap_foldl_mention (fun name => registry.no_sources)]
    exact before.sources

theorem declare (before : view.Integrity) (registry : view.Registry) {d : Definition} {related : List Name}
    (fresh : d.name ∉ view.declared) (bare : d.Bare related) : (view.declare d related).Integrity := by
  -- The name had a placeholder or no slot, so neither before nor afterwards are there attributes.
  have attributes : ∀ name,
      ((view.declare d related).definition name).attributes = (view.definition name).attributes := by
    intro name
    by_cases same : name = d.name
    · rw [same, declare_self, bare.attributes, registry.blank d.name fresh]
      rfl
    · rw [declare_other same]
  refine ⟨?_, before.signatures, ?_, ?_, ?_, ?_⟩
  · intro name
    by_cases same : name = d.name
    · rw [same, declare_self]
      exact bare.types
    · rw [declare_other same]
      exact before.types name
  · intro name
    rw [attributes]
    exact before.required name
  · intro name other relative
    by_cases same : name = d.name
    · rw [same, declare_self] at relative
      exact List.mem_append_right _ (bare.relatives other relative)
    · rw [declare_other same] at relative
      exact List.mem_append_left _ (before.relatives name other relative)
  · intro link listed
    exact List.mem_append_left _ (before.targets link listed)
  · simp only [attributes]
    have names := @flatMap_foldl_mention _ _ view.names (fun name => registry.no_sources) (d.name :: related)
    refine before.sources.trans (.of_eq ?_)
    exact names.symm

theorem function (before : view.Integrity) {function : FunctionSignature}
    (types : ∀ type ∈ function.types, type.WellFormed) :
    Integrity { view with functions := view.functions ++ [function] } where
  types := before.types
  signatures := by
    intro other listed
    rcases List.mem_append.mp listed with old | new
    · exact before.signatures other old
    · rwa [List.mem_singleton.mp new]
  required := before.required
  relatives := before.relatives
  targets := before.targets
  sources := before.sources

theorem attach (before : view.Integrity) (registry : view.Registry) {entity : Name} {e : Entity} {spec : AttributeSpec}
    (present : entity ∈ view.names) (defined : view.definition entity = .entity e) (sound : spec.Sound) :
    (view.attach entity e [spec]).Integrity := by
  have attributes : ((view.attach entity e [spec]).definition entity).attributes =
      (view.definition entity).attributes ++ [spec.attached] := by
    rw [attach_self, defined]
    rfl
  refine ⟨?_, before.signatures, ?_, ?_, ?_, ?_⟩
  · intro name type listed
    have old := before.types name type
    by_cases same : name = entity
    · rw [same, defined] at old
      rw [same, attach_self, Definition.types, List.map_append, List.mem_append] at listed
      rcases listed with listed | listed
      · exact old listed
      · rw [List.mem_singleton.mp listed]
        exact sound.1.wellFormed
    · rw [attach_other same] at listed
      exact old listed
  · intro name attr listed
    have old := before.required name attr
    by_cases same : name = entity
    · rw [same] at old
      rw [same, attributes, List.mem_append] at listed
      rcases listed with listed | listed
      · exact old listed
      · rw [List.mem_singleton.mp listed]
        exact sound.2
    · rw [attach_other same] at listed
      exact old listed
  · intro name other relative
    refine List.mem_append_left _ (before.relatives name other ?_)
    by_cases same : name = entity
    · rw [same, attach_self] at relative
      rw [same, defined]
      exact relative
    · rwa [attach_other same] at relative
  · intro link listed
    rcases (view.links.mem_all_insertAll _).mp listed with old | new
    · exact List.mem_append_left _ (before.targets link old)
    · exact List.mem_append_right _ (List.mem_map_of_mem new)
  · have empty : ∀ name, name ∉ view.names →
        inverseSources name ((view.attach entity e [spec]).definition name).attributes = [] := by
      intro name absent
      rw [attach_other]
      · exact registry.no_sources absent
      · rintro rfl
        exact absent present
    have grown : (view.names.flatMap fun name =>
        inverseSources name ((view.attach entity e [spec]).definition name).attributes).Perm
          ((view.names.flatMap fun name => inverseSources name (view.definition name).attributes) ++
            inverseSources entity [spec.attached]) := by
      refine flatMap_grown_perm registry.distinct present ?_ ?_
      · intro name different
        rw [attach_other different]
      · rw [attributes, inverseSources_append]
    have names := flatMap_foldl_mention empty ([spec].filterMap (·.type.reference?))
    have links : ((view.attach entity e [spec]).links.all.map (·.source)).Perm
        (view.links.all.map (·.source) ++ inverseSources entity [spec.attached]) := by
      rw [← AttributeSpec.link?_source, ← List.map_append]
      exact (view.links.all_insertAll_perm _).map _
    refine links.trans ((before.sources.append_right _).trans ?_)
    exact grown.symm.trans (.of_eq names.symm)

theorem move {next : View} (registry : view.Registry) (before : view.Integrity) (move : Move view next) :
    next.Integrity := by
  cases move.change with
  | title name | fail e =>
    exact ⟨before.types, before.signatures, before.required, before.relatives, before.targets, before.sources⟩
  | mention names => exact before.mention registry names
  | declare fresh bare => exact before.declare registry fresh bare
  | function fresh types => exact before.function types
  | attach present declared defined sound => exact before.attach registry present defined sound

end Integrity

end View

theorem after_view_integrity (settings : Settings) (calls : List Call) : (after settings calls).view.Integrity :=
  (@after_induction (fun view => view.Registry ∧ view.Integrity)
    (fun before move => ⟨before.1.move move, before.2.move before.1 move⟩) settings
    ⟨View.registry_empty settings, View.integrity_empty settings⟩ calls).2

end Draft

namespace Model

/-- Types are collections exactly if they have a rank, no inverse attribute is optional, what is used as an entity is
one, no entity inherits from itself, and the links are those of the inverse attributes. -/
structure WellFormed (model : Model) : Prop where
  types : ∀ d ∈ model.definitions, ∀ type ∈ d.types, type.WellFormed
  signatures : ∀ function ∈ model.functions, ∀ type ∈ function.types, type.WellFormed
  required : ∀ e ∈ model.entities, ∀ attr ∈ e.attributes, ¬ (attr.inverse = true ∧ attr.optional = true)
  relatives : ∀ e ∈ model.entities, ∀ name ∈ e.parents ++ e.children, ∃ relative, model.entity name = .ok relative
  acyclic : model.Acyclic
  links : (model.sortedLinks.map fun link => (link.owner, link.ownerAttr, link.target)).Perm
    (model.entities.flatMap fun e =>
      (e.attributes.filter (·.inverse)).map fun attr => (e.name, attr.name, attr.type.base))

theorem flatMap_entities {model : Model} (indexed : model.Indexed) :
    (model.entities.flatMap fun e => inverseSources e.name e.attributes) =
      model.names.flatMap fun name => inverseSources name (model.definition name).attributes := by
  have each : ∀ definitions : List Definition,
      ((definitions.filterMap (·.asEntity?)).flatMap fun e => inverseSources e.name e.attributes) =
        definitions.flatMap fun d => inverseSources d.name d.attributes := by
    intro definitions
    induction definitions with
    | nil => rfl
    | cons d definitions ih =>
      rw [List.flatMap_cons, ← ih]
      cases d <;> rfl
  have names : (model.names.map model.definition).flatMap (fun d => inverseSources d.name d.attributes) =
      model.names.flatMap fun name => inverseSources name (model.definition name).attributes := by
    rw [List.flatMap_map]
    simp only [indexed.definition_name]
  rw [entities, each, ← names, ← indexed.definitions_eq_map]

/-- A finished model is that of a draft with all its invariants that has passed the checks. -/
theorem Finished.exists_draft {model : Model} (finished : model.Finished) :
    ∃ draft : Draft, draft.model.Indexed ∧ draft.view.Registry ∧ draft.view.Integrity ∧ draft.Valid ∧
      model = { draft.model with memberships := membershipsOf draft.model.selects } := by
  obtain ⟨settings, calls, ended⟩ := finished
  have indexed := Draft.after_indexed settings calls
  obtain ⟨valid, same⟩ := (Draft.finish_ok_iff indexed).mp ended
  exact ⟨_, indexed, Draft.after_view_registry settings calls, Draft.after_view_integrity settings calls, valid, same⟩

theorem exists_entity_of_use {draft : Draft} (indexed : draft.model.Indexed) (valid : draft.Valid) {name : Name}
    (used : name ∈ draft.entityUses) (present : name ∈ draft.model.names) :
    ∃ e, draft.model.find? name = some (.entity e) := by
  have found := indexed.find?_of_mem present
  have kind := valid.entityUses name used _ found
  cases defined : draft.model.definition name with
  | entity e => exact ⟨e, by rw [found, defined]⟩
  | _ =>
    rw [defined] at kind
    cases kind

/-- Parents and children of an entity are entities. -/
theorem exists_relative {draft : Draft} (indexed : draft.model.Indexed) (registry : draft.view.Registry)
    (integrity : draft.view.Integrity) (valid : draft.Valid) {e : Entity}
    (found : draft.model.find? e.name = some (.entity e)) {name : Name} (listed : name ∈ e.parents ++ e.children) :
    ∃ relative, draft.model.find? name = some (.entity relative) := by
  have defined : draft.view.definition e.name = .entity e := definition_of_find? found
  have used := integrity.relatives e.name name
  have referred := registry.references e.name name
  rw [defined] at used referred
  exact exists_entity_of_use indexed valid (used listed) (referred (List.mem_append_left _ listed))

theorem Finished.exists_parent {model : Model} (finished : model.Finished) {e : Entity} {parent : Name}
    (found : model.find? e.name = some (.entity e)) (first : e.parent? = some parent) :
    ∃ above, model.find? parent = some (.entity above) := by
  obtain ⟨draft, indexed, registry, integrity, valid, rfl⟩ := finished.exists_draft
  exact exists_relative indexed registry integrity valid found (List.mem_append_left _ (List.mem_of_mem_head? first))

theorem wellFormed_of_finished {model : Model} (finished : model.Finished) : model.WellFormed := by
  obtain ⟨draft, indexed, registry, integrity, valid, rfl⟩ := finished.exists_draft
  have stored : ∀ e ∈ draft.model.entities, draft.view.definition e.name = .entity e :=
    fun e member => indexed.definition_of_mem (mem_entities_iff.mp member)
  refine ⟨?_, integrity.signatures, ?_, ?_, valid.acyclic, ?_⟩
  · intro d member type listed
    rw [← indexed.definition_of_mem member] at listed
    exact integrity.types d.name type listed
  · rintro e member attr own ⟨inverse, optional⟩
    have required := integrity.required e.name attr
    rw [stored e member] at required
    rw [required own inverse] at optional
    cases optional
  · intro e member name listed
    have used := integrity.relatives e.name name
    have referred := registry.references e.name name
    rw [stored e member] at used referred
    have present := referred (List.mem_append_left _ listed)
    obtain ⟨relative, found⟩ := exists_entity_of_use indexed valid (used listed) present
    exact ⟨relative, entity_eq_ok_iff.mpr found⟩
  · exact integrity.sources.trans (.of_eq (flatMap_entities indexed).symm)

/-- Paintings name their painters, and painters get to show their paintings by a later call. -/
def galleryCalls : List Draft.Call :=
  [.schema
      { name := "gallery"
        declarations :=
          [.entity
              { name := "painting"
                explicit :=
                  [{ names := [.simple "hands"], type := .collection { kind := .list } (.named "painter") }] },
            .entity { name := "painter" }] },
    .attach "painter"
      { name := .simple "works"
        type := { base := "painting", isCollection := true, rank := 1 }
        role := .inverse "hands" }]

theorem gallery_wellFormed :
    ∃ model, (Draft.after {} galleryCalls).finish.1 = .ok model ∧ model.WellFormed ∧
      model.sortedLinks = [⟨"painter", "works", "painting", "hands"⟩] := by
  obtain ⟨model, finished, links⟩ := exists_ok_of_map
    (show (Draft.after {} galleryCalls).finish.1.toOption.map (·.sortedLinks) =
      some [⟨"painter", "works", "painting", "hands"⟩] by decide +kernel)
  exact ⟨model, finished, wellFormed_of_finished ⟨{}, galleryCalls, finished⟩, links⟩

end Model

end Express
