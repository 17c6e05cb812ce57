import Express.Proofs.Moves
import Express.Wiring

/-!
# Wiring rules

What a rule says about the model: its forward attribute is stored by the entity that runs it, and its counterpart is an
inverse attribute that decides whether the rule appends.
-/

namespace Express

theorem WiringAction.appends_between (forward inverse : TypeRef) :
    (between forward inverse).appends = inverse.isCollection := by
  unfold between
  cases forward.isCollection <;> cases inverse.isCollection <;> rfl

theorem WiringAction.iterates_between (forward inverse : TypeRef) :
    (between forward inverse).iterates = forward.isCollection := by
  unfold between
  cases forward.isCollection <;> cases inverse.isCollection <;> rfl

namespace Model

variable {model : Model}

theorem Chain.subset {e x : Entity} {chain upper : List Entity} (climbed : model.Chain e chain)
    (indexed : model.Indexed) (found : model.find? e.name = some (.entity e)) (member : x ∈ chain)
    (above : model.Chain x upper) : upper ⊆ chain := by
  obtain ⟨foundX, reach⟩ := (climbed.mem_iff indexed found).mp member
  intro y listed
  obtain ⟨foundY, further⟩ := (above.mem_iff indexed foundX).mp listed
  exact (climbed.mem_iff indexed found).mpr ⟨foundY, reach.trans further⟩

theorem isSubtypeOf_iff {entity owner : Name} {chain : List Entity} (climbed : model.ancestors entity = .ok chain) :
    model.isSubtypeOf entity owner = .ok true ↔ ∃ x ∈ chain, x.name = owner := by
  have read : model.isSubtypeOf entity owner = .ok (chain.any (·.name == owner)) := by
    rw [isSubtypeOf, climbed]
    rfl
  simp [read]

theorem ruleOf_eq_some {entity : Name} {link : ReverseLink} {rule : WiringRule}
    (h : model.ruleOf entity link = .ok (some rule)) :
    ∃ forward owner inverse, model.forwardAttribute entity link.targetAttr = .ok (some forward) ∧
      model.find? link.owner = some (.entity owner) ∧
      owner.attributes.find? (fun attr => attr.inverse && attr.name == link.ownerAttr) = some inverse ∧
      rule = ⟨entity, link.targetAttr, link.owner, link.ownerAttr, .between forward.type inverse.type⟩ := by
  unfold ruleOf at h
  cases read : model.forwardAttribute entity link.targetAttr with
  | error e => rw [read] at h; cases h
  | ok found =>
    rw [read] at h
    cases found with
    | none => cases h
    | some forward =>
      cases known : model.entity link.owner with
      | error e => simp only [known, bind, Except.bind] at h; cases h
      | ok owner =>
        simp only [known, bind, Except.bind, pure, Except.pure] at h
        split at h
        · cases h
        · rename_i inverse listed
          cases h
          exact ⟨forward, owner, inverse, rfl, entity_eq_ok_iff.mp known, listed, rfl⟩

/-- A rule of an entity stems from a link against one of the entities in its chain. -/
theorem mem_wiringRules {entity : Name} {chain : List Entity} {rules : List WiringRule} {rule : WiringRule}
    (climbed : model.ancestors entity = .ok chain) (read : model.wiringRules entity = .ok rules)
    (member : rule ∈ rules) : ∃ level ∈ chain, ∃ link, model.ruleOf level.name link = .ok (some rule) := by
  unfold wiringRules at read
  rw [climbed] at read
  cases levels : chain.mapM (fun level => model.ownWiringRules level.name) with
  | error e => simp only [levels, bind, Except.bind] at read; cases read
  | ok parts =>
    simp only [levels, bind, Except.bind, pure, Except.pure, Except.ok.injEq] at read
    rw [← read, List.mem_flatten] at member
    obtain ⟨part, listed, inPart⟩ := member
    obtain ⟨level, inChain, own⟩ := mem_of_mapM_ok levels listed
    unfold ownWiringRules at own
    cases links : (model.linksTo level.name).mapM (model.ruleOf level.name) with
    | error e => simp only [links, bind, Except.bind] at own; cases own
    | ok found =>
      simp only [links, bind, Except.bind, pure, Except.pure, Except.ok.injEq] at own
      rw [← own, List.mem_filterMap] at inPart
      obtain ⟨_, some, rfl⟩ := inPart
      obtain ⟨link, _, ruled⟩ := mem_of_mapM_ok links some
      exact ⟨level, inChain, link, ruled⟩

/-- The forward attribute of a rule is stored along the chain of the entity that runs it. -/
theorem rule_attr_stored (finished : model.Finished) {e : Entity} {chain : List Entity} {rules : List WiringRule}
    {rule : WiringRule} (found : model.find? e.name = some (.entity e)) (climbed : model.Chain e chain)
    (read : model.ancestors e.name = .ok chain) (ruled : model.wiringRules e.name = .ok rules) (member : rule ∈ rules) :
    ∃ x ∈ chain, ∃ a ∈ x.attributes, a.name = rule.attr ∧ a.isStored = true := by
  obtain ⟨level, inChain, link, made⟩ := mem_wiringRules read ruled member
  obtain ⟨forward, _, _, seen, _, _, rfl⟩ := ruleOf_eq_some made
  obtain ⟨foundLevel, _⟩ := (climbed.mem_iff finished.indexed found).mp inChain
  obtain ⟨upper, readLevel, above⟩ := finished.exists_chain foundLevel
  obtain ⟨x, inUpper, stored⟩ := (forwardAttribute_some_iff readLevel).mp ⟨forward, seen⟩
  exact ⟨x, climbed.subset finished.indexed found inChain above inUpper, stored⟩

/-- The counterpart of a rule is an inverse attribute of its owner, and a collection exactly if the rule appends. -/
theorem rule_counterpart {entity : Name} {chain : List Entity} {rules : List WiringRule} {rule : WiringRule}
    (read : model.ancestors entity = .ok chain) (ruled : model.wiringRules entity = .ok rules) (member : rule ∈ rules) :
    ∃ owner, model.find? rule.owner = some (.entity owner) ∧ ∃ a ∈ owner.attributes,
      a.inverse = true ∧ a.name = rule.ownerAttr ∧ rule.action.appends = a.type.isCollection := by
  obtain ⟨level, _, link, made⟩ := mem_wiringRules read ruled member
  obtain ⟨forward, owner, inverse, _, found, listed, rfl⟩ := ruleOf_eq_some made
  have fits := List.find?_some listed
  rw [Bool.and_eq_true, beq_iff_eq] at fits
  exact ⟨owner, found, inverse, List.mem_of_find?_eq_some listed, fits.1, fits.2, WiringAction.appends_between _ _⟩

end Model

end Express
