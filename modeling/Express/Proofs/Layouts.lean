import Express.Proofs.Subtyping

/-!
# Layouts of constructors and records

The layout of an entity starts with that of each of its ancestors, position by position, and a position that an ancestor
stores is hidden only by an entity below that ancestor (`layout_extends`). Parameters of constructors, signatures and
record positions are lists of the same attributes (`constructors_agree`).
-/

namespace Express.Model

variable {model : Model} {name : Name} {chain : List Entity}

/-- The attributes of a chain that have a place of their own. -/
def positional (chain : List Entity) : List Attribute :=
  chain.flatMap fun entity => entity.attributes.filter (·.isPositional)

theorem allAttributes_eq (read : model.ancestors name = .ok chain) (withOptional : Bool) :
    model.allAttributes name withOptional = .ok ((positional chain).filter fun attr => withOptional || !attr.optional) := by
  rw [allAttributes, read]
  rfl

theorem recordFields_eq (read : model.ancestors name = .ok chain) : model.recordFields name = .ok (fieldsOf chain) := by
  rw [recordFields, read]
  rfl

theorem fieldsOf_attr (chain : List Entity) : (fieldsOf chain).map (·.attr) = positional chain := by
  induction chain with
  | nil => rfl
  | cons e below ih =>
    rw [fieldsOf, List.map_append, List.map_map, ih]
    exact congrArg (· ++ positional below) (List.map_id _)

/-! ### Layouts of subtypes -/

theorem derivesAnew_iff {e : Entity} {attr : Name} :
    derivesAnew e attr = true ↔ ∃ d ∈ e.attributes, d.derived = true ∧ d.hidesParent = true ∧ d.name = attr := by
  simp [derivesAnew, and_assoc]

/-- A field as it is when the chain goes on: entities further down may hide it. -/
def RecordField.above (lower : List Entity) (field : RecordField) : RecordField :=
  { field with hidden := field.hidden || lower.any (derivesAnew · field.attr.name) }

theorem RecordField.above_hidden_iff {lower : List Entity} {field : RecordField} :
    (field.above lower).hidden = true ↔ field.hidden = true ∨
      ∃ x ∈ lower, ∃ d ∈ x.attributes, d.derived = true ∧ d.hidesParent = true ∧ d.name = field.attr.name := by
  simp only [above, Bool.or_eq_true, List.any_eq_true, derivesAnew_iff]

theorem fieldsOf_append (upper lower : List Entity) :
    fieldsOf (upper ++ lower) = (fieldsOf upper).map (·.above lower) ++ fieldsOf lower := by
  induction upper with
  | nil => rfl
  | cons e upper ih =>
    rw [List.cons_append, fieldsOf, fieldsOf, ih, List.map_append, List.map_map, List.append_assoc]
    congr 1
    apply List.map_congr_left
    intro attr _
    simp [RecordField.above]

/-- The chain of a subtype goes on where that of its supertype ends. -/
theorem exists_lower (finished : model.Finished) {entity ancestor : Name}
    (inherits : model.isSubtypeOf entity ancestor = .ok true) :
    ∃ upper lower, model.ancestors ancestor = .ok upper ∧ model.ancestors entity = .ok (upper ++ lower) := by
  cases found : model.entity entity with
  | error e =>
    rw [isSubtypeOf, ancestors, found] at inherits
    cases inherits
  | ok e =>
    obtain ⟨chain, placed⟩ := exists_placed finished (entity_eq_ok_iff.mp found)
    obtain ⟨x, member, rfl⟩ := (isSubtypeOf_iff placed.read).mp inherits
    obtain ⟨upper, lower, climbed, rfl⟩ := placed.climbed.exists_append member
    obtain ⟨other, read, climbedToo⟩ := finished.exists_chain (placed.find?_of_mem member)
    rw [climbedToo.unique climbed] at read
    exact ⟨upper, lower, read, placed.read⟩

/-- The attributes of a supertype come first, in constructors and in records. In a record they keep their positions, and
there one that the supertype stores is hidden exactly if an entity below the supertype derives it anew. -/
theorem layout_extends (finished : model.Finished) {entity ancestor : Name}
    (inherits : model.isSubtypeOf entity ancestor = .ok true) :
    ∃ upper lower, model.ancestors ancestor = .ok upper ∧ model.ancestors entity = .ok (upper ++ lower) ∧
      (∀ withOptional, ∃ first all, model.allAttributes ancestor withOptional = .ok first ∧
        model.allAttributes entity withOptional = .ok all ∧ first <+: all) ∧
      ∃ first all, model.recordFields ancestor = .ok first ∧ model.recordFields entity = .ok all ∧
        first.map (·.attr) <+: all.map (·.attr) ∧
        ∀ (i : Nat) (field : RecordField), first[i]? = some field →
          ∃ other : RecordField, all[i]? = some other ∧ other.attr = field.attr ∧
          (other.hidden = true ↔ field.hidden = true ∨
            ∃ x ∈ lower, ∃ d ∈ x.attributes, d.derived = true ∧ d.hidesParent = true ∧ d.name = field.attr.name) := by
  obtain ⟨upper, lower, readUpper, read⟩ := exists_lower finished inherits
  have split : positional (upper ++ lower) = positional upper ++ positional lower := List.flatMap_append
  refine ⟨upper, lower, readUpper, read, ?_, fieldsOf upper, fieldsOf (upper ++ lower), recordFields_eq readUpper,
    recordFields_eq read, ?_, ?_⟩
  · intro withOptional
    refine ⟨_, _, allAttributes_eq readUpper withOptional, allAttributes_eq read withOptional, ?_⟩
    rw [split, List.filter_append]
    exact List.prefix_append _ _
  · rw [fieldsOf_attr, fieldsOf_attr, split]
    exact List.prefix_append _ _
  · intro i field here
    refine ⟨field.above lower, ?_, rfl, RecordField.above_hidden_iff⟩
    have bound : i < ((fieldsOf upper).map (·.above lower)).length := by
      rw [List.length_map]
      exact (List.getElem?_eq_some_iff.mp here).1
    rw [fieldsOf_append, List.getElem?_append_left bound, List.getElem?_map, here]
    rfl

/-- A ferry derives its length from its decks, so in the record of a catamaran the length of a vessel is hidden. It
stays a parameter of the constructors, with or without the optional ones. -/
theorem fleet_length_hidden :
    fleet.Finished ∧ fleet.isSubtypeOf "catamaran" "vessel" = .ok true ∧
      (∀ withOptional, ∃ first all, fleet.allAttributes "vessel" withOptional = .ok first ∧
        fleet.allAttributes "catamaran" withOptional = .ok all ∧ first <+: all ∧
        (first.map (·.name), all.map (·.name)) =
          if withOptional then (["flag", "length", "beam"], ["flag", "length", "beam", "decks", "hulls"])
          else (["length", "beam"], ["length", "beam", "decks"])) ∧
      ∃ upper lower first all, fleet.ancestors "vessel" = .ok upper ∧
        fleet.ancestors "catamaran" = .ok (upper ++ lower) ∧
        fleet.recordFields "vessel" = .ok first ∧ fleet.recordFields "catamaran" = .ok all ∧
        first.map (fun field => (field.attr.name, field.hidden)) =
          [("flag", false), ("length", false), ("beam", false)] ∧
        (∃ other : RecordField, all[1]? = some other ∧ other.attr.name = "length" ∧ other.hidden = true) ∧
        ∃ x ∈ lower, ∃ d ∈ x.attributes, d.derived = true ∧ d.hidesParent = true ∧ d.name = "length" := by
  have inherits : fleet.isSubtypeOf "catamaran" "vessel" = .ok true := by decide +kernel
  obtain ⟨upper, lower, readUpper, read, parameters, first, all, records, recorded, _, positions⟩ :=
    layout_extends fleet_finished inherits
  have vessel : (fleet.recordFields "vessel").toOption.map (·.map fun field => (field.attr.name, field.hidden)) =
      some [("flag", false), ("length", false), ("beam", false)] := by decide +kernel
  have catamaran : (fleet.recordFields "catamaran").toOption.map (fun all => all[1]?.map (·.hidden)) =
      some (some true) := by decide +kernel
  rw [records] at vessel
  rw [recorded] at catamaran
  have fields : first.map (fun field => (field.attr.name, field.hidden)) =
      [("flag", false), ("length", false), ("beam", false)] := Option.some.inj vessel
  have length : (first.map fun field => (field.attr.name, field.hidden))[1]? = some ("length", false) := by
    rw [fields]
    rfl
  rw [List.getElem?_map, Option.map_eq_some_iff] at length
  obtain ⟨field, here, shown⟩ := length
  obtain ⟨named, stored⟩ := Prod.mk.inj shown
  obtain ⟨other, there, same, hidden⟩ := positions 1 field here
  obtain ⟨_, seen, isHidden⟩ := Option.map_eq_some_iff.mp (Option.some.inj catamaran)
  rw [there] at seen
  cases seen
  refine ⟨fleet_finished, inherits, ?_, upper, lower, first, all, readUpper, read, records, recorded, fields,
    ⟨other, there, by rw [same, named], isHidden⟩, ?_⟩
  · intro withOptional
    obtain ⟨first, all, readFirst, readAll, longer⟩ := parameters withOptional
    have vessel : (fleet.allAttributes "vessel" withOptional).toOption.map (·.map (·.name)) =
        some (if withOptional then ["flag", "length", "beam"] else ["length", "beam"]) := by
      cases withOptional <;> decide +kernel
    have catamaran : (fleet.allAttributes "catamaran" withOptional).toOption.map (·.map (·.name)) =
        some (if withOptional then ["flag", "length", "beam", "decks", "hulls"] else ["length", "beam", "decks"]) := by
      cases withOptional <;> decide +kernel
    rw [readFirst] at vessel
    rw [readAll] at catamaran
    have firstNames := Option.some.inj vessel
    have allNames := Option.some.inj catamaran
    dsimp only at firstNames allNames
    refine ⟨first, all, readFirst, readAll, longer, ?_⟩
    rw [firstNames, allNames]
    cases withOptional <;> rfl
  · rcases hidden.mp isHidden with already | below
    · rw [stored] at already
      cases already
    · rw [named] at below
      exact below

/-! ### Constructors -/

/-- The parameters that cannot be left out. -/
def required (all : List Attribute) : List Attribute :=
  all.filter (!·.optional)

/-- The parameters of each constructor. -/
def overloadsOf (all : List Attribute) : List (List Attribute) :=
  if all.any (·.optional) then [required all, all] else [required all]

/-- With an optional parameter there are two constructors, a shorter and a longer one, and otherwise only one. -/
theorem overloadsOf_cases (all : List Attribute) :
    all.any (·.optional) = true ∧ (required all).length < all.length ∧ overloadsOf all = [required all, all] ∨
      all.any (·.optional) = false ∧ required all = all ∧ overloadsOf all = [all] := by
  cases optional : all.any (·.optional) with
  | true =>
    refine .inl ⟨rfl, ?_, by rw [overloadsOf, optional]; rfl⟩
    rw [required, List.length_filter_lt_length_iff_exists]
    simpa using optional
  | false =>
    have same : required all = all := by
      rw [required, List.filter_eq_self]
      simpa using optional
    refine .inr ⟨rfl, same, ?_⟩
    rw [overloadsOf, optional, same]
    rfl

theorem nodup_length_overloadsOf (all : List Attribute) : ((overloadsOf all).map (·.length)).Nodup := by
  obtain ⟨_, shorter, two⟩ | ⟨_, _, one⟩ := overloadsOf_cases all
  · rw [two]
    simpa using Nat.ne_of_lt shorter
  · rw [one]
    exact List.nodup_singleton _

/-- Two lists of types are recorded unless they are the same, and an empty one never is. -/
theorem recorded_eq (first all : List TypeRef) :
    ((if first.isEmpty then [] else [first]) ++
      if all.isEmpty || (if first.isEmpty then [] else [first]).head? == some all then [] else [all]) =
    (if first = all then [all] else [first, all]).filter (!·.isEmpty) := by
  by_cases same : first = all
  · subst same
    cases first <;> simp
  · rw [if_neg same]
    cases first with
    | nil =>
      cases all with
      | nil => exact (same rfl).elim
      | cons => rfl
    | cons type types =>
      have other : ([type :: types].head? == some all) = false := by simpa using same
      change [type :: types] ++ (if all.isEmpty || [type :: types].head? == some all then [] else [all]) = _
      rw [other, Bool.or_false]
      cases all <;> rfl

theorem types_overloadsOf (all : List Attribute) :
    (overloadsOf all).map (·.map (·.type)) =
      if (required all).map (·.type) = all.map (·.type) then [all.map (·.type)]
      else [(required all).map (·.type), all.map (·.type)] := by
  obtain ⟨_, shorter, two⟩ | ⟨_, same, one⟩ := overloadsOf_cases all
  · -- Types may repeat, so it is by their number that the lists differ.
    have different : (required all).map (·.type) ≠ all.map (·.type) := by
      intro same
      have lengths := congrArg List.length same
      rw [List.length_map, List.length_map] at lengths
      omega
    rw [two, if_neg different]
    rfl
  · rw [one, same, if_pos rfl]
    rfl

theorem allAttributes_true (read : model.ancestors name = .ok chain) :
    model.allAttributes name true = .ok (positional chain) := by
  rw [allAttributes_eq read]
  simp

theorem allAttributes_false (read : model.ancestors name = .ok chain) :
    model.allAttributes name false = .ok (required (positional chain)) :=
  allAttributes_eq read false

theorem needsSecondOverload_eq (read : model.ancestors name = .ok chain) :
    model.needsSecondOverload name = .ok ((positional chain).any (·.optional)) := by
  rw [needsSecondOverload, allAttributes_true read]
  rfl

theorem overloads_eq (read : model.ancestors name = .ok chain) :
    model.overloads name = .ok (overloadsOf (positional chain)) := by
  rw [overloads, allAttributes_false read, needsSecondOverload_eq read, allAttributes_true read, overloadsOf]
  cases (positional chain).any (·.optional) <;> rfl

theorem signatures_eq {e : Entity} (known : model.entity name = .ok e) (read : model.ancestors name = .ok chain) :
    model.signatures name = .ok (if e.isAbstract then [] else
      ((overloadsOf (positional chain)).map (·.map (·.type))).filter (!·.isEmpty)) := by
  rw [types_overloadsOf, ← recorded_eq, signatures, known, allAttributes_false read, allAttributes_true read]
  dsimp only [bind, Except.bind, pure, Except.pure]
  cases e.isAbstract <;> rfl

/-- What the constructors of an entity have to do with each other, with their signatures and with the record. -/
structure ConstructorsAgree (e : Entity) (required all : List Attribute) (second : Bool)
    (overloads : List (List Attribute)) (fields : List RecordField) (signatures : List (List TypeRef)) : Prop where
  withoutOptional : required = all.filter (!·.optional)
  two : overloads.length = 2 ↔ second = true
  longer : second = true ↔ required.length < all.length
  last : overloads.getLast? = some all
  record : fields.map (·.attr) = all
  recorded : signatures = if e.isAbstract then [] else (overloads.map (·.map (·.type))).filter (!·.isEmpty)
  arities : (signatures.map (·.length)).Nodup

theorem constructorsAgree_of {e : Entity} {all : List Attribute} {fields : List RecordField}
    (record : fields.map (·.attr) = all) :
    ConstructorsAgree e (required all) all (all.any (·.optional)) (overloadsOf all) fields
      (if e.isAbstract then [] else ((overloadsOf all).map (·.map (·.type))).filter (!·.isEmpty)) := by
  refine ⟨rfl, ?_, ?_, ?_, record, rfl, ?_⟩
  · obtain ⟨second, _, two⟩ | ⟨none, _, one⟩ := overloadsOf_cases all
    · simp [second, two]
    · simp [none, one]
  · obtain ⟨second, shorter, _⟩ | ⟨none, same, _⟩ := overloadsOf_cases all
    · simp [second, shorter]
    · simp [none, same]
  · obtain ⟨_, _, two⟩ | ⟨_, _, one⟩ := overloadsOf_cases all
    · rw [two]
      rfl
    · rw [one]
      rfl
  · cases e.isAbstract with
    | true => exact List.nodup_nil
    | false =>
      have dropped := (@List.filter_sublist _ (!·.isEmpty) ((overloadsOf all).map (·.map (·.type)))).map List.length
      refine List.Nodup.sublist dropped ?_
      simpa [Function.comp_def] using nodup_length_overloadsOf all

/-- The parameters of the constructors, their recorded signatures and the positions of the record agree. -/
theorem constructors_agree {name : Name} {e : Entity} (known : model.entity name = .ok e) :
    ∃ required all second overloads fields signatures,
      model.allAttributes name false = .ok required ∧ model.allAttributes name true = .ok all ∧
      model.needsSecondOverload name = .ok second ∧ model.overloads name = .ok overloads ∧
      model.recordFields name = .ok fields ∧ model.signatures name = .ok signatures ∧
      ConstructorsAgree e required all second overloads fields signatures := by
  obtain ⟨chain, read⟩ := exists_ancestors known
  exact ⟨_, _, _, _, _, _, allAttributes_false read, allAttributes_true read, needsSecondOverload_eq read,
    overloads_eq read, recordFields_eq read, signatures_eq known read, constructorsAgree_of (fieldsOf_attr chain)⟩

theorem fleet_catamaran_constructors :
    ∃ e, fleet.entity "catamaran" = .ok e ∧ ∃ required all second overloads fields signatures,
      fleet.allAttributes "catamaran" false = .ok required ∧ fleet.allAttributes "catamaran" true = .ok all ∧
      fleet.needsSecondOverload "catamaran" = .ok second ∧ fleet.overloads "catamaran" = .ok overloads ∧
      fleet.recordFields "catamaran" = .ok fields ∧ fleet.signatures "catamaran" = .ok signatures ∧
      ConstructorsAgree e required all second overloads fields signatures ∧
      all.map (·.name) = ["flag", "length", "beam", "decks", "hulls"] ∧ signatures.map (·.length) = [3, 5] := by
  obtain ⟨e, found, _⟩ := exists_ok_of_map
    (show (fleet.entity "catamaran").toOption.map (·.name) = some "catamaran" by decide +kernel)
  obtain ⟨required, all, second, overloads, fields, signatures, readRequired, readAll, needs, overloaded, recorded,
    signed, agree⟩ := constructors_agree found
  have names : (fleet.allAttributes "catamaran" true).toOption.map (·.map (·.name)) =
      some ["flag", "length", "beam", "decks", "hulls"] := by decide +kernel
  have arities : (fleet.signatures "catamaran").toOption.map (·.map (·.length)) = some [3, 5] := by decide +kernel
  rw [readAll] at names
  rw [signed] at arities
  exact ⟨e, found, required, all, second, overloads, fields, signatures, readRequired, readAll, needs, overloaded,
    recorded, signed, agree, Option.some.inj names, Option.some.inj arities⟩

end Express.Model
