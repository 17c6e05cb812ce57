import Express.Draft
import Express.Proofs.Indexes
import Mathlib.Logic.Function.Basic

/-!
# Slots by name

A model seen through names: which names have a slot, in which order, and what stands in it. The index of a model is to
agree with its list of definitions, and the one of functions with theirs (`Model.Indexed`). Each operation of a draft is
described by what it does to this view.
-/

namespace Express

namespace Model

/-- Each index lists the names of what it points into. -/
structure Indexed (model : Model) : Prop where
  definitions : model.index.Lists model.names
  functions : model.functionIndex.Lists (model.functions.map (·.name))

/-- The definition of a name. A name without a slot is as good as a placeholder. -/
def definition (model : Model) (name : Name) : Definition :=
  (model.find? name).getD (.entity (.placeholder name))

theorem definition_of_find? {model : Model} {name : Name} {found : Definition} (h : model.find? name = some found) :
    model.definition name = found := by
  simp [definition, h]

namespace Indexed

variable {model : Model} {name : Name} {found : Definition}

theorem distinct (indexed : model.Indexed) : model.names.Nodup :=
  indexed.definitions.distinct

theorem slot?_eq_some_iff (indexed : model.Indexed) {slot : Nat} :
    model.slot? name = some slot ↔ model.names[slot]? = some name :=
  indexed.definitions.get?_eq_some_iff

theorem contains_iff (indexed : model.Indexed) : model.contains name = true ↔ name ∈ model.names :=
  indexed.definitions.isSome_get?_iff

theorem find?_iff_mem (indexed : model.Indexed) :
    model.find? name = some found ↔ found ∈ model.definitions ∧ found.name = name :=
  indexed.definitions.find_eq_some_iff

theorem find?_name (indexed : model.Indexed) (h : model.find? name = some found) : found.name = name :=
  (indexed.find?_iff_mem.mp h).2

theorem find?_of_definition_mem (indexed : model.Indexed) (member : found ∈ model.definitions) :
    model.find? found.name = some found :=
  indexed.find?_iff_mem.mpr ⟨member, rfl⟩

theorem definition_of_mem (indexed : model.Indexed) (member : found ∈ model.definitions) :
    model.definition found.name = found :=
  definition_of_find? (indexed.find?_of_definition_mem member)

theorem find?_eq_none_iff (indexed : model.Indexed) : model.find? name = none ↔ name ∉ model.names := by
  rw [names, List.mem_map, Option.eq_none_iff_forall_ne_some]
  constructor
  · rintro none ⟨d, member, named⟩
    exact none d (indexed.find?_iff_mem.mpr ⟨member, named⟩)
  · rintro absent d found
    exact absent ⟨d, indexed.find?_iff_mem.mp found⟩

theorem definition_of_not_mem (indexed : model.Indexed) (absent : name ∉ model.names) :
    model.definition name = .entity (.placeholder name) := by
  simp [definition, indexed.find?_eq_none_iff.mpr absent]

theorem definition_name (indexed : model.Indexed) (name : Name) : (model.definition name).name = name := by
  cases found : model.find? name with
  | none => simp [definition, found, Definition.name, Entity.placeholder]
  | some d => rw [definition_of_find? found]; exact indexed.find?_name found

theorem find?_of_mem (indexed : model.Indexed) (present : name ∈ model.names) :
    model.find? name = some (model.definition name) := by
  cases found : model.find? name with
  | none => exact absurd present (indexed.find?_eq_none_iff.mp found)
  | some d => rw [definition_of_find? found]

theorem find?_eq_some_iff (indexed : model.Indexed) :
    model.find? name = some found ↔ name ∈ model.names ∧ model.definition name = found := by
  constructor
  · intro h
    refine ⟨?_, definition_of_find? h⟩
    by_contra absent
    rw [indexed.find?_eq_none_iff.mpr absent] at h
    cases h
  · rintro ⟨present, rfl⟩
    exact indexed.find?_of_mem present

/-- The slots are the definitions of the names. -/
theorem definitions_eq_map (indexed : model.Indexed) : model.definitions = model.names.map model.definition := by
  rw [names, List.map_map]
  conv_lhs => rw [← List.map_id model.definitions]
  exact List.map_congr_left fun d member => (indexed.definition_of_mem member).symm

theorem functionSlot?_eq_some_iff (indexed : model.Indexed) {slot : Nat} :
    model.functionSlot? name = some slot ↔ (model.functions.map (·.name))[slot]? = some name :=
  indexed.functions.get?_eq_some_iff

theorem functionSlot?_isSome_iff (indexed : model.Indexed) :
    (model.functionSlot? name).isSome = true ↔ name ∈ model.functions.map (·.name) :=
  indexed.functions.isSome_get?_iff

theorem function_eq_ok_iff (indexed : model.Indexed) {function : FunctionSignature} :
    model.function name = .ok function ↔ function ∈ model.functions ∧ function.name = name := by
  rw [← indexed.functions.find_eq_some_iff, Model.function, functionSlot?]
  cases (model.functionIndex.get? name).bind fun slot => model.functions[slot]? <;> simp

end Indexed

end Model

namespace Draft

/-! ### Writing slots -/

variable {draft : Draft} {d : Definition}

theorem names_append (draft : Draft) (d : Definition) :
    (draft.append d).model.names = draft.model.names ++ [d.name] := by
  simp [append, Model.names]

theorem append_indexed (indexed : draft.model.Indexed) (fresh : d.name ∉ draft.model.names) :
    (draft.append d).model.Indexed where
  definitions := by
    rw [names_append]
    have lists := indexed.definitions.insert fresh
    rw [Model.names, List.length_map] at lists
    exact lists
  functions := indexed.functions

theorem definition_append (indexed : draft.model.Indexed) (fresh : d.name ∉ draft.model.names) :
    (draft.append d).model.definition = Function.update draft.model.definition d.name d := by
  have indexed' := append_indexed indexed fresh
  funext name
  by_cases same : name = d.name
  · rw [same, Function.update_self]
    exact indexed'.definition_of_mem (List.mem_append_right _ (List.mem_singleton_self d))
  · have kept : (draft.append d).model.find? name = draft.model.find? name := by
      apply Option.ext
      intro found
      rw [indexed'.find?_iff_mem, indexed.find?_iff_mem]
      constructor
      · rintro ⟨member, named⟩
        rcases List.mem_append.mp member with old | new
        · exact ⟨old, named⟩
        · rw [List.mem_singleton.mp new] at named
          exact (same named.symm).elim
      · rintro ⟨old, named⟩
        exact ⟨List.mem_append_left _ old, named⟩
    rw [Function.update_of_ne same, Model.definition, kept]
    rfl

theorem names_replace (indexed : draft.model.Indexed) {slot : Nat} (h : draft.model.slot? d.name = some slot) :
    (draft.replace slot d).model.names = draft.model.names := by
  have there := indexed.slot?_eq_some_iff.mp h
  rw [replace, Model.names, List.map_set]
  apply List.ext_getElem?
  intro i
  rw [List.getElem?_set]
  split
  · rename_i same
    subst same
    obtain ⟨bound, _⟩ := List.getElem?_eq_some_iff.mp there
    rw [if_pos (by simpa [Model.names] using bound)]
    exact there.symm
  · rfl

theorem replace_indexed (indexed : draft.model.Indexed) {slot : Nat} (h : draft.model.slot? d.name = some slot) :
    (draft.replace slot d).model.Indexed where
  definitions := by
    rw [names_replace indexed h]
    exact indexed.definitions
  functions := indexed.functions

/-- Writing a slot changes the definition of one name only. -/
theorem definition_replace (indexed : draft.model.Indexed) {slot : Nat} (h : draft.model.slot? d.name = some slot) :
    (draft.replace slot d).model.definition = Function.update draft.model.definition d.name d := by
  have there := indexed.slot?_eq_some_iff.mp h
  funext name
  have split : (draft.replace slot d).model.find? name =
      (draft.model.slot? name).bind fun i => (draft.model.definitions.set slot d)[i]? := rfl
  by_cases same : name = d.name
  · subst same
    obtain ⟨bound, _⟩ := List.getElem?_eq_some_iff.mp there
    have bound : slot < draft.model.definitions.length := by simpa [Model.names] using bound
    rw [Function.update_self, Model.definition, split, h]
    simp [bound]
  · rw [Function.update_of_ne same, Model.definition, split, Model.definition, Model.find?]
    cases found : draft.model.slot? name with
    | none => rfl
    | some other =>
      have different : slot ≠ other := by
        rintro rfl
        exact same (Option.some.inj ((indexed.slot?_eq_some_iff.mp found).symm.trans there))
      simp [List.getElem?_set, different]

end Draft

end Express
