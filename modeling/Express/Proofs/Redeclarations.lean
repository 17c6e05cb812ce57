import Express.Proofs.Layouts
import Express.Proofs.Steps

/-!
# Redeclared attributes

A redeclaration has no place of its own in a record: its value goes where the attribute that it redeclares has its place.
That there is such an attribute is not checked when a draft is finished. So a stored attribute is recorded exactly if it
is not redeclared only, and it is recorded if every redeclaration has something above it to redeclare
(`stored_recorded`).
-/

namespace Express

theorem Attribute.isPositional_iff {attr : Attribute} :
    attr.isPositional = true ↔ attr.isStored = true ∧ attr.redeclares = none := by
  simp [isPositional, isStored, and_comm, and_assoc]

namespace Model

variable {model : Model}

/-- All that the entities of the chain store under that name are redeclarations. -/
def OnlyRedeclared (chain : List Entity) (attr : Name) : Prop :=
  ∀ x ∈ chain, ∀ a ∈ x.attributes, a.name = attr → a.isStored = true → a.redeclares ≠ none

/-- Wherever the name is redeclared, an entity further up stores an attribute of that name. -/
def Anchored (chain : List Entity) (attr : Name) : Prop :=
  ∀ i, ∀ h : i < chain.length, (∃ a ∈ chain[i].attributes, a.name = attr ∧ a.isStored = true ∧ a.redeclares ≠ none) →
    StoredIn (chain.take i) attr

instance (chain : List Entity) (attr : Name) : Decidable (Anchored chain attr) :=
  inferInstanceAs (Decidable (∀ i, ∀ h : i < chain.length,
    (∃ a ∈ chain[i].attributes, a.name = attr ∧ a.isStored = true ∧ a.redeclares ≠ none) → _))

theorem recorded_iff {chain : List Entity} {attr : Name} :
    (∃ field ∈ fieldsOf chain, field.attr.name = attr) ↔
      ∃ x ∈ chain, ∃ a ∈ x.attributes, a.name = attr ∧ a.isStored = true ∧ a.redeclares = none := by
  have attrs : (∃ field ∈ fieldsOf chain, field.attr.name = attr) ↔ ∃ a ∈ positional chain, a.name = attr := by
    rw [← fieldsOf_attr]
    simp
  rw [attrs]
  simp only [positional, List.mem_flatMap, List.mem_filter, Attribute.isPositional_iff]
  constructor
  · rintro ⟨a, ⟨x, member, own, own'⟩, named⟩
    exact ⟨x, member, a, own, named, own'⟩
  · rintro ⟨x, member, a, own, named, own'⟩
    exact ⟨a, ⟨x, member, own, own'⟩, named⟩

/-- The first entity that stores the name has nothing above it to redeclare. -/
theorem Anchored.recorded {chain : List Entity} {attr : Name} (anchored : Anchored chain attr)
    (stored : StoredIn chain attr) : ∃ field ∈ fieldsOf chain, field.attr.name = attr := by
  obtain ⟨x, member, own⟩ := stored
  obtain ⟨first, found⟩ := Option.isSome_iff_exists.mp
    (List.find?_isSome.mpr ⟨x, member, decide_eq_true own⟩ :
      (chain.find? fun x => decide (∃ a ∈ x.attributes, a.name = attr ∧ a.isStored = true)).isSome)
  obtain ⟨storesFirst, upper, lower, rfl, before⟩ := List.find?_eq_some_iff_append.mp found
  obtain ⟨a, own, named, isStored⟩ := of_decide_eq_true storesFirst
  rw [recorded_iff]
  refine ⟨first, by simp, a, own, named, isStored, ?_⟩
  by_contra redeclares
  obtain ⟨y, inUpper, above⟩ := anchored upper.length (by simp) ⟨a, by simpa using own, named, isStored, redeclares⟩
  rw [List.take_left] at inUpper
  simpa [above] using before y inUpper

/-- A stored attribute has a field in the record unless it is redeclared only, which cannot be where every redeclaration
has an attribute above it. -/
theorem stored_recorded {name : Name} {e : Entity} (known : model.entity name = .ok e) :
    ∃ chain fields, model.ancestors name = .ok chain ∧ model.recordFields name = .ok fields ∧
      ∀ attr found, model.forwardAttribute name attr = .ok (some found) →
        ((∃ field ∈ fields, field.attr.name = attr) ↔ ¬ OnlyRedeclared chain attr) ∧
        (Anchored chain attr → ∃ field ∈ fields, field.attr.name = attr) := by
  obtain ⟨chain, read⟩ := exists_ancestors known
  refine ⟨chain, fieldsOf chain, read, recordFields_eq read, fun attr found seen => ⟨?_, fun anchored => ?_⟩⟩
  · simp only [recorded_iff, OnlyRedeclared, ne_eq, not_forall, Classical.not_not, exists_prop]
  · exact anchored.recorded ((forwardAttribute_some_iff read).mp ⟨found, seen⟩)

/-- A tug narrows the beam of a vessel, and a barge the draught, which no vessel has. -/
def shipyardSchema : Schema where
  name := "shipyard"
  declarations :=
    [.entity { name := "vessel", explicit := [{ names := [.simple "beam"], type := .simple .real }] },
      .entity
        { name := "tug"
          subtypeOf := ["vessel"]
          explicit := [{ names := [.qualified "vessel" "beam"], type := .simple .integer }] },
      .entity
        { name := "barge"
          subtypeOf := ["vessel"]
          explicit := [{ names := [.qualified "vessel" "draught"], type := .simple .real }] }]

def shipyard : Model :=
  (Draft.after { strict := true } [.schema shipyardSchema]).model

theorem shipyard_finished : shipyard.Finished :=
  ⟨{ strict := true }, [.schema shipyardSchema], by decide +kernel⟩

theorem shipyard_beam_recorded :
    ∃ e, shipyard.entity "tug" = .ok e ∧ ∃ found chain fields,
      shipyard.forwardAttribute "tug" "beam" = .ok (some found) ∧ found.redeclares = some "vessel" ∧
      shipyard.ancestors "tug" = .ok chain ∧ Anchored chain "beam" ∧
      shipyard.recordFields "tug" = .ok fields ∧ ∃ field ∈ fields, field.attr.name = "beam" := by
  obtain ⟨e, known, _⟩ := exists_ok_of_map
    (show (shipyard.entity "tug").toOption.map (·.name) = some "tug" by decide +kernel)
  obtain ⟨sees, seen, narrowed⟩ := exists_ok_of_map
    (show (shipyard.forwardAttribute "tug" "beam").toOption.map (Option.map (·.redeclares)) = some (some (some "vessel"))
      by decide +kernel)
  obtain ⟨found, rfl, redeclares⟩ := Option.map_eq_some_iff.mp narrowed
  obtain ⟨chain, fields, read, recorded, stored⟩ := stored_recorded known
  have anchored : (shipyard.ancestors "tug").toOption.map (fun chain => decide (Anchored chain "beam")) = some true := by
    decide +kernel
  rw [read] at anchored
  have anchored : Anchored chain "beam" := of_decide_eq_true (Option.some.inj anchored)
  exact ⟨e, known, found, chain, fields, seen, redeclares, read, anchored, recorded, (stored "beam" found seen).2 anchored⟩

/-- The draught of a barge can be set, and no position of its record holds it. -/
theorem shipyard_draught_lost :
    shipyard.Finished ∧ shipyard.placeholders = [] ∧
      (∃ found, shipyard.forwardAttribute "barge" "draught" = .ok (some found)) ∧
      ((Population.after shipyard [.create "barge"]).set shipyard 0 "draught" .empty).1 = .ok () ∧
      ∃ fields, shipyard.recordFields "barge" = .ok fields ∧ ¬ ∃ field ∈ fields, field.attr.name = "draught" := by
  obtain ⟨sees, seen, isStored⟩ := exists_ok_of_map
    (show (shipyard.forwardAttribute "barge" "draught").toOption.map Option.isSome = some true by decide +kernel)
  obtain ⟨fields, recorded, names⟩ := exists_ok_of_map
    (show (shipyard.recordFields "barge").toOption.map (·.map (·.attr.name)) = some ["beam"] by decide +kernel)
  obtain ⟨found, rfl⟩ := Option.isSome_iff_exists.mp isStored
  refine ⟨shipyard_finished, by decide +kernel, ⟨found, seen⟩, by decide +kernel, fields, recorded, ?_⟩
  rintro ⟨field, member, named⟩
  have listed := List.mem_map_of_mem (f := (·.attr.name)) member
  rw [names, named] at listed
  exact absurd listed (by decide)

end Model

end Express
