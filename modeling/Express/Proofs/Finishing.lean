import Express.Draft.Finish
import Express.Proofs.Lineage
import Express.Proofs.Runs

/-!
# Finishing a draft

What the checks of a draft ask of its model. None of them changes the model, so each can be judged on its own, and a
draft is finished exactly if all of them are content.
-/

namespace Express

namespace Draft

theorem checkEntityUses_ok_iff (draft : Draft) :
    draft.checkEntityUses = .ok () ↔ ∀ name ∈ draft.entityUses, ∀ d, draft.model.find? name = some d → d.kind = .entity := by
  rw [checkEntityUses, forM_eq_ok_iff]
  refine forall₂_congr fun name _ => ?_
  cases found : draft.model.find? name with
  | none => simp
  | some d => cases d <;> simp [Definition.kind]

theorem checkCycles_ok_iff {draft : Draft} (indexed : draft.model.Indexed) :
    draft.checkCycles = .ok () ↔ draft.model.Acyclic := by
  rw [checkCycles, forM_eq_ok_iff, Model.acyclic_iff indexed]
  have listed : ∀ e, e ∈ draft.model.entities ↔ draft.model.find? e.name = some (.entity e) := by
    intro e
    rw [Model.entities, List.mem_filterMap]
    constructor
    · rintro ⟨d, member, same⟩
      cases d <;> cases same
      exact indexed.find?_of_definition_mem member
    · exact fun found => ⟨_, (indexed.find?_iff_mem.mp found).1, rfl⟩
  refine forall_congr' fun e => ?_
  rw [listed e]
  cases draft.model.onCycle e <;> simp

/-- A link is content if its target has the forward attribute or has undeclared ancestors. -/
def LinkFits (model : Model) (link : ReverseLink) : Prop :=
  ∀ chain, model.ancestors link.target = .ok chain → completeChain chain = true →
    ∃ attr, model.forwardAttribute link.target link.targetAttr = .ok (some attr)

theorem checkPlaceholder_model (draft : Draft) (name : Name) : (draft.checkPlaceholder name).2.model = draft.model := by
  unfold checkPlaceholder
  dsimp only
  split
  · rfl
  · split <;> rfl

theorem checkPlaceholder_ok_iff (draft : Draft) (name : Name) :
    (draft.checkPlaceholder name).1 = .ok () ↔ draft.model.settings.strict = false := by
  unfold checkPlaceholder
  dsimp only
  split
  · rename_i strict
    simp [strict]
  · rename_i lenient
    split <;> simpa using lenient

theorem checkLink_model (draft : Draft) (link : ReverseLink) : (draft.checkLink link).2.model = draft.model := by
  unfold checkLink
  split
  · rfl
  · split
    · rfl
    · split <;> rfl

theorem checkLink_ok_iff (draft : Draft) (link : ReverseLink) :
    (draft.checkLink link).1 = .ok () ↔ LinkFits draft.model link := by
  unfold checkLink LinkFits
  cases climbed : draft.model.ancestors link.target with
  | error e => simp
  | ok chain =>
    cases forward : draft.model.forwardAttribute link.target link.targetAttr with
    | error e => cases complete : completeChain chain <;> simp [complete]
    | ok found => cases found <;> cases complete : completeChain chain <;> simp [complete]

/-- A draft is content if nothing has failed and every check is. -/
structure Valid (draft : Draft) : Prop where
  unfailed : draft.failure = none
  entityUses : ∀ name ∈ draft.entityUses, ∀ d, draft.model.find? name = some d → d.kind = .entity
  acyclic : draft.model.Acyclic
  strict : draft.model.settings.strict = true → draft.model.placeholders = []
  links : ∀ link ∈ draft.model.sortedLinks, LinkFits draft.model link

theorem placeholders_model (draft : Draft) (names : List Name) :
    (runAll checkPlaceholder draft names).2.model = draft.model :=
  @runAll_keeps _ _ _ checkPlaceholder (·.model = draft.model) names
    (fun state name _ same => (checkPlaceholder_model state name).trans same) _ rfl

theorem links_model (draft : Draft) (links : List ReverseLink) :
    (runAll checkLink draft links).2.model = draft.model :=
  @runAll_keeps _ _ _ checkLink (·.model = draft.model) links
    (fun state link _ same => (checkLink_model state link).trans same) _ rfl

theorem validate_model (draft : Draft) : draft.validate.2.model = draft.model := by
  have placeholders := placeholders_model draft draft.model.placeholders
  unfold validate
  split
  · rfl
  · split
    · rfl
    · split
      · rename_i e after same
        rw [same] at placeholders
        exact placeholders
      · rename_i after same
        rw [same] at placeholders
        exact (links_model after _).trans placeholders

theorem placeholders_ok_iff (draft : Draft) (names : List Name) :
    (runAll checkPlaceholder draft names).1 = .ok () ↔ (draft.model.settings.strict = true → names = []) := by
  have each := @runAll_ok_iff _ _ _ checkPlaceholder (·.model = draft.model)
    (fun _ => draft.model.settings.strict = false) names
    (fun state name same => (checkPlaceholder_model state name).trans same)
    (fun state name same => by rw [checkPlaceholder_ok_iff, same]) draft rfl
  rw [each]
  cases draft.model.settings.strict <;> simp [List.eq_nil_iff_forall_not_mem]

theorem links_ok_iff (draft : Draft) (links : List ReverseLink) :
    (runAll checkLink draft links).1 = .ok () ↔ ∀ link ∈ links, LinkFits draft.model link :=
  @runAll_ok_iff _ _ _ checkLink (·.model = draft.model) (LinkFits draft.model) links
    (fun state link same => (checkLink_model state link).trans same)
    (fun state link same => by rw [checkLink_ok_iff, same]) draft rfl

theorem checks_ok_iff (draft : Draft) :
    (do draft.checkEntityUses; draft.checkCycles : Except ModelError Unit) = .ok () ↔
      draft.checkEntityUses = .ok () ∧ draft.checkCycles = .ok () := by
  cases draft.checkEntityUses <;> simp [bind, Except.bind]

theorem validate_ok_iff {draft : Draft} (indexed : draft.model.Indexed) :
    draft.validate.1 = .ok () ↔ draft.Valid := by
  have uses := checkEntityUses_ok_iff draft
  have cycles := checkCycles_ok_iff indexed
  have placeholders := placeholders_ok_iff draft draft.model.placeholders
  have model := placeholders_model draft draft.model.placeholders
  constructor
  · intro passed
    unfold validate at passed
    split at passed
    · cases passed
    · rename_i unfailed
      split at passed
      · cases passed
      · rename_i checked
        obtain ⟨used, uncycled⟩ := (checks_ok_iff draft).mp checked
        split at passed
        · cases passed
        · rename_i after same
          rw [same] at placeholders model
          dsimp only at model
          rw [links_ok_iff, model] at passed
          exact ⟨unfailed, uses.mp used, cycles.mp uncycled, placeholders.mp rfl, passed⟩
  · rintro ⟨unfailed, used, uncycled, strict, fits⟩
    have checked := (checks_ok_iff draft).mpr ⟨uses.mpr used, cycles.mpr uncycled⟩
    have passed := placeholders.mpr strict
    unfold validate
    rw [unfailed]
    dsimp only
    rw [checked]
    dsimp only
    split
    · rename_i e after same
      rw [same] at passed
      cases passed
    · rename_i after same
      rw [same] at model
      dsimp only at model
      rw [links_ok_iff, model]
      exact fits

/-- A draft becomes a model exactly if it is valid. The model is the draft's own with its index of alternatives. -/
theorem finish_ok_iff {draft : Draft} (indexed : draft.model.Indexed) {model : Model} :
    draft.finish.1 = .ok model ↔
      draft.Valid ∧ model = { draft.model with memberships := Model.membershipsOf draft.model.selects } := by
  have same := validate_model draft
  rw [← validate_ok_iff indexed, finish]
  split
  · rename_i e after failed
    rw [failed]
    simp
  · rename_i after passed
    rw [passed] at same ⊢
    dsimp only at same ⊢
    rw [same]
    simp [eq_comm]

end Draft

end Express
