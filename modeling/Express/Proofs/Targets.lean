import Express.Proofs.Integrity

/-!
# Targets of links

In strict mode a link is resolved exactly if its target has a slot (`strict_resolves_iff`). The targets without one are
those that no declaration is asked for: keywords of simple types and type parameters.
-/

namespace Express

namespace Draft

variable {draft : Draft}

/-- Without placeholders every chain of a valid draft ends at a declared entity that has no parents. -/
theorem completeChain_of_strict (indexed : draft.model.Indexed) (registry : draft.view.Registry)
    (integrity : draft.view.Integrity) (valid : draft.Valid) (strict : draft.model.settings.strict = true)
    {e : Entity} {chain : List Entity} (climbed : draft.model.Chain e chain)
    (found : draft.model.find? e.name = some (.entity e)) : completeChain chain = true := by
  obtain ⟨top, head, member, orphan⟩ := climbed.exists_head
  have foundTop := ((climbed.mem_iff indexed found).mp member).1
  have real : top.isPlaceholder = false := by
    cases flag : top.isPlaceholder with
    | false => rfl
    | true =>
      have listed : top.name ∈ draft.model.placeholders :=
        List.mem_map.mpr ⟨.entity top, List.mem_filter.mpr ⟨(indexed.find?_iff_mem.mp foundTop).1, flag⟩, rfl⟩
      rw [valid.strict strict] at listed
      cases listed
  have root : top.parent? = none := by
    cases first : top.parent? with
    | none => rfl
    | some parent =>
      obtain ⟨above, foundAbove⟩ := Model.exists_relative indexed registry integrity valid foundTop
        (List.mem_append_left _ (List.mem_of_mem_head? first))
      exact (orphan parent above first foundAbove).elim
  obtain ⟨others, rfl⟩ := List.head?_eq_some_iff.mp head
  simp [completeChain, real, root]

/-- Every link comes from an inverse attribute of its owner. -/
theorem exists_inverse_of_link (indexed : draft.model.Indexed) (integrity : draft.view.Integrity) {link : ReverseLink}
    (listed : link ∈ draft.model.sortedLinks) :
    ∃ owner attr, draft.model.find? link.owner = some (.entity owner) ∧ attr ∈ owner.attributes ∧
      attr.inverse = true ∧ attr.name = link.ownerAttr ∧ attr.type.base = link.target := by
  have source := integrity.sources.mem_iff.mp (List.mem_map_of_mem listed)
  obtain ⟨name, present, source⟩ := List.mem_flatMap.mp source
  obtain ⟨attr, own, same⟩ := List.mem_map.mp source
  obtain ⟨own, inverse⟩ := List.mem_filter.mp own
  simp only [ReverseLink.source, Prod.mk.injEq] at same
  obtain ⟨rfl, named, base⟩ := same
  have found := indexed.find?_of_mem present
  change attr ∈ (draft.model.definition link.owner).attributes at own
  cases defined : draft.model.definition link.owner with
  | entity owner =>
    rw [defined] at found own
    exact ⟨owner, attr, found, own, inverse, named, base⟩
  | _ =>
    rw [defined] at own
    cases own

end Draft

namespace Model

/-- The target of the link is an entity of the model and has the forward attribute. -/
def Resolves (model : Model) (link : ReverseLink) : Prop :=
  (∃ e, model.entity link.target = .ok e) ∧
    ∃ attr, model.forwardAttribute link.target link.targetAttr = .ok (some attr)

/-- In strict mode a link is resolved unless its target is a name that needs no declaration. -/
theorem strict_resolves_iff {model : Model} (finished : model.Finished) (strict : model.settings.strict = true)
    {link : ReverseLink} (listed : link ∈ model.sortedLinks) :
    (model.Resolves link ↔ model.contains link.target = true) ∧
    (model.contains link.target = false → ∃ owner attr, model.entity link.owner = .ok owner ∧ attr ∈ owner.attributes ∧
      attr.inverse = true ∧ attr.name = link.ownerAttr ∧ attr.type.base = link.target ∧
      (attr.type.isGeneric = true ∨ attr.type.simple?.isSome = true)) := by
  obtain ⟨draft, indexed, registry, integrity, valid, rfl⟩ := finished.exists_draft
  refine ⟨⟨?_, ?_⟩, ?_⟩
  · rintro ⟨⟨e, read⟩, _⟩
    exact indexed.contains_iff.mpr (indexed.find?_eq_some_iff.mp (entity_eq_ok_iff.mp read)).1
  · intro known
    have used := integrity.targets link listed
    obtain ⟨e, found⟩ := exists_entity_of_use indexed valid used (indexed.contains_iff.mp known)
    have named : e.name = link.target := indexed.find?_name found
    obtain ⟨chain, climb, climbed⟩ := exists_chain indexed valid.acyclic found
    have complete :=
      Draft.completeChain_of_strict indexed registry integrity valid strict climbed (by rw [named]; exact found)
    obtain ⟨attr, forward⟩ := valid.links link listed chain climb complete
    refine ⟨⟨e, entity_eq_ok_iff.mpr found⟩, attr, ?_⟩
    rw [← forward]
    apply forwardAttribute_congr <;> rfl
  · intro unknown
    obtain ⟨owner, attr, found, own, inverse, named, base⟩ := Draft.exists_inverse_of_link indexed integrity listed
    refine ⟨owner, attr, entity_eq_ok_iff.mpr found, own, inverse, named, base, ?_⟩
    by_contra neither
    simp only [not_or, Bool.not_eq_true, Option.isSome_eq_false_iff, Option.isNone_iff_eq_none] at neither
    have referred := registry.references link.owner attr.type.base
    rw [show draft.view.definition link.owner = .entity owner from definition_of_find? found] at referred
    have refers := TypeRef.reference?_eq_some neither.1 neither.2
    have present := referred (List.mem_append_right _ (List.mem_filterMap.mpr ⟨attr, own, refers⟩))
    rw [base] at present
    have known : draft.model.contains link.target = true := indexed.contains_iff.mpr present
    have never := known.symm.trans unknown
    cases never

theorem gallery_strict_resolves :
    ∃ model, (Draft.after { strict := true } galleryCalls).finish.1 = .ok model ∧ model.settings.strict = true ∧
      model.sortedLinks = [⟨"painter", "works", "painting", "hands"⟩] ∧
      model.Resolves ⟨"painter", "works", "painting", "hands"⟩ := by
  obtain ⟨model, finished, facts⟩ := exists_ok_of_map
    (show (Draft.after { strict := true } galleryCalls).finish.1.toOption.map
        (fun model => (model.settings.strict, model.sortedLinks, model.contains "painting")) =
      some (true, [⟨"painter", "works", "painting", "hands"⟩], true) by decide +kernel)
  simp only [Prod.mk.injEq] at facts
  obtain ⟨strict, links, known⟩ := facts
  refine ⟨model, finished, strict, links, ?_⟩
  apply (strict_resolves_iff ⟨_, galleryCalls, finished⟩ strict ?_).1.mpr known
  rw [links]
  exact List.mem_singleton_self _

/-- A gauge shows the readings that refer to it, but `REAL` is not the name of an entity. -/
def gaugeSchema : Schema where
  name := "gauges"
  declarations :=
    [.entity
      { name := "gauge"
        inverse := [{ name := .simple "readings", entity := "REAL", forAttr := "source" }] }]

/-- In strict mode too, a model may have a link to a keyword, which nothing resolves: a keyword gets no placeholder that
could be found undeclared, and a target without a slot has no ancestors to look for the attribute in. -/
theorem strict_keyword_unresolved :
    ∃ model : Model, model.Finished ∧ model.settings.strict = true ∧
      ∃ link ∈ model.sortedLinks, ¬ model.Resolves link := by
  obtain ⟨model, finished, facts⟩ := exists_ok_of_map
    (show (Draft.after { strict := true } [.schema gaugeSchema]).finish.1.toOption.map
        (fun model => (model.settings.strict, model.sortedLinks, model.contains "REAL")) =
      some (true, [⟨"gauge", "readings", "REAL", "source"⟩], false) by decide +kernel)
  simp only [Prod.mk.injEq] at facts
  obtain ⟨strict, links, unknown⟩ := facts
  refine ⟨model, ⟨_, _, finished⟩, strict, _, by rw [links]; exact List.mem_singleton_self _, ?_⟩
  rintro ⟨⟨e, read⟩, _⟩
  have indexed := Finished.indexed ⟨_, _, finished⟩
  have known := indexed.contains_iff.mpr (indexed.find?_eq_some_iff.mp (entity_eq_ok_iff.mp read)).1
  rw [unknown] at known
  cases known

end Model

end Express
