import Express.Proofs.Declaring

/-!
# The registry

Slots, indexes, names, declarations and functions of a draft fit together after any calls, failed ones too
(`after_registry`). That the indexes agree with their lists is kept by every step (`after_indexed`); what a single move
keeps of the rest is shown on the draft's answers.
-/

namespace Express

namespace Model

theorem mem_entities_iff {model : Model} {e : Entity} : e ∈ model.entities ↔ .entity e ∈ model.definitions := by
  rw [entities, List.mem_filterMap]
  constructor
  · rintro ⟨d, member, same⟩
    cases d <;> cases same
    exact member
  · intro member
    exact ⟨_, member, rfl⟩

end Model

namespace Draft

/-! ### What a move keeps -/

namespace View

structure Registry (view : View) : Prop where
  distinct : view.names.Nodup
  slotted : ∀ name ∈ view.declared, name ∈ view.names
  real : ∀ name ∈ view.declared, (view.definition name).isPlaceholder = false
  blank : ∀ name, name ∉ view.declared → view.definition name = .entity (.placeholder name)
  references : ∀ name, ∀ other ∈ (view.definition name).references, other ∈ view.names

theorem registry_empty (settings : Settings) : (empty settings).view.Registry where
  distinct := List.nodup_nil
  slotted := by simp [view, empty]
  real := by simp [view, empty]
  blank := fun _ _ => rfl
  references := fun _ _ none => by cases none

namespace Registry

variable {view : View}

theorem mention (before : view.Registry) (names : List Name) :
    Registry { view with names := names.foldl Express.mention view.names } where
  distinct := nodup_foldl_mention before.distinct names
  slotted := by
    intro name declared
    exact mem_foldl_mention.mpr (.inl (before.slotted name declared))
  real := before.real
  blank := before.blank
  references := by
    intro name other referred
    exact mem_foldl_mention.mpr (.inl (before.references name other referred))

theorem declare (before : view.Registry) {d : Definition} {related : List Name} (bare : d.Bare related) :
    (view.declare d related).Registry where
  distinct := nodup_foldl_mention (nodup_mention before.distinct d.name) related
  slotted := by
    intro name declared
    apply mem_names_declare.mpr
    rcases List.mem_append.mp declared with old | new
    · exact .inl (.inl (before.slotted name old))
    · exact .inl (.inr (List.mem_singleton.mp new))
  real := by
    intro name declared
    by_cases same : name = d.name
    · rw [same, declare_self]
      exact bare.real
    · rw [declare_other same]
      rcases List.mem_append.mp declared with old | new
      · exact before.real name old
      · exact (same (List.mem_singleton.mp new)).elim
  blank := by
    intro name undeclared
    rw [declare_other]
    · exact before.blank name fun old => undeclared (List.mem_append_left _ old)
    · rintro rfl
      exact undeclared (List.mem_append_right _ (List.mem_singleton_self _))
  references := by
    intro name other referred
    apply mem_names_declare.mpr
    by_cases same : name = d.name
    · rw [same, declare_self] at referred
      exact .inr (bare.references other referred)
    · rw [declare_other same] at referred
      exact .inl (.inl (before.references name other referred))

theorem attach (before : view.Registry) {entity : Name} {e : Entity} {spec : AttributeSpec}
    (declared : entity ∈ view.declared) (defined : view.definition entity = .entity e) :
    (view.attach entity e [spec]).Registry where
  distinct := nodup_foldl_mention before.distinct _
  slotted := by
    intro name known
    exact mem_names_attach.mpr (.inl (before.slotted name known))
  real := by
    intro name known
    have real := before.real name known
    by_cases same : name = entity
    · rw [same, defined] at real
      rw [same, attach_self]
      exact real
    · rwa [attach_other same]
  blank := by
    intro name undeclared
    rw [attach_other]
    · exact before.blank name undeclared
    · rintro rfl
      exact undeclared declared
  references := by
    intro name other referred
    apply mem_names_attach.mpr
    have old := before.references name other
    by_cases same : name = entity
    · rw [same, defined, Definition.references, List.mem_append] at old
      rw [same, attach_self, Definition.references, Definition.attributes, List.filterMap_append, List.mem_append,
        List.mem_append] at referred
      rcases referred with relative | typed | typed
      · exact .inl (old (.inl relative))
      · exact .inl (old (.inr typed))
      · obtain ⟨attr, listed, refers⟩ := List.mem_filterMap.mp typed
        rw [List.mem_singleton.mp listed] at refers
        exact .inr refers
    · rw [attach_other same] at referred
      exact .inl (old referred)

theorem move {next : View} (before : view.Registry) (move : Move view next) : next.Registry := by
  cases move.change with
  | title name | fail e | function fresh types =>
    exact ⟨before.distinct, before.slotted, before.real, before.blank, before.references⟩
  | mention names => exact before.mention names
  | declare fresh bare => exact before.declare bare
  | attach present declared defined sound => exact before.attach declared defined

end Registry

end View

theorem after_view_registry (settings : Settings) (calls : List Call) : (after settings calls).view.Registry :=
  after_induction View.Registry.move (View.registry_empty settings) calls

/-! ### The registry of a draft -/

/-- Every name has one slot, placeholders stand exactly for the names that are not declared, and whatever is referred
to has a slot. -/
structure Registry (draft : Draft) : Prop where
  slots : ∀ name slot, draft.model.slot? name = some slot ↔
    ∃ d, draft.model.definitions[slot]? = some d ∧ d.name = name
  distinct : draft.model.names.Nodup
  placeholders : ∀ d ∈ draft.model.definitions, d.isPlaceholder = true ↔ d.name ∉ draft.declared
  declared : ∀ name ∈ draft.declared, draft.model.contains name = true
  blank : ∀ d ∈ draft.model.definitions, d.isPlaceholder = true → d = .entity (.placeholder d.name)
  relatives : ∀ e ∈ draft.model.entities, ∀ name ∈ e.parents ++ e.children, draft.model.contains name = true
  types : ∀ e ∈ draft.model.entities, ∀ attr ∈ e.attributes, attr.type.isGeneric = false → attr.type.simple? = none →
    draft.model.contains attr.type.base = true
  functionSlots : ∀ name slot, draft.model.functionSlot? name = some slot ↔
    ∃ function, draft.model.functions[slot]? = some function ∧ function.name = name
  distinctFunctions : (draft.model.functions.map (·.name)).Nodup
  functions : ∀ name function, draft.model.function name = .ok function ↔
    function ∈ draft.model.functions ∧ function.name = name

/-- Whatever calls are made, in whatever order and with whatever success, the registry stays in order. -/
theorem after_registry (settings : Settings) (calls : List Call) : (after settings calls).Registry := by
  have indexed := after_indexed settings calls
  have registry := after_view_registry settings calls
  generalize after settings calls = draft at indexed registry ⊢
  have stored : ∀ d ∈ draft.model.definitions, draft.view.definition d.name = d := fun d => indexed.definition_of_mem
  have referred : ∀ d ∈ draft.model.definitions, ∀ name ∈ d.references, draft.model.contains name = true := by
    intro d member name listed
    rw [← stored d member] at listed
    exact indexed.contains_iff.mpr (registry.references _ name listed)
  have undeclared : ∀ d ∈ draft.model.definitions, d.isPlaceholder = true → d.name ∉ draft.declared := by
    intro d member placeholder known
    have real := registry.real d.name known
    rw [stored d member, placeholder] at real
    cases real
  refine ⟨?_, indexed.distinct, ?_, ?_, ?_, ?_, ?_, ?_, indexed.functions.distinct, ?_⟩
  · intro name slot
    rw [indexed.slot?_eq_some_iff, Model.names, List.getElem?_map, Option.map_eq_some_iff]
  · intro d member
    constructor
    · exact undeclared d member
    · intro undeclared
      rw [← stored d member, registry.blank d.name undeclared]
      rfl
  · intro name known
    exact indexed.contains_iff.mpr (registry.slotted name known)
  · intro d member placeholder
    rw [← registry.blank d.name (undeclared d member placeholder), stored d member]
  · intro e member name listed
    exact referred _ (Model.mem_entities_iff.mp member) name (List.mem_append_left _ listed)
  · intro e member attr own named other
    refine referred _ (Model.mem_entities_iff.mp member) _ (List.mem_append_right _ ?_)
    exact List.mem_filterMap.mpr ⟨attr, own, TypeRef.reference?_eq_some named other⟩
  · intro name slot
    rw [indexed.functionSlot?_eq_some_iff, List.getElem?_map, Option.map_eq_some_iff]
  · intro name function
    exact indexed.function_eq_ok_iff

end Draft

end Express
