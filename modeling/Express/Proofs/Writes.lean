import Express.Proofs.InverseNames
import Express.Proofs.Values

/-!
# What wiring writes

All writes of an instance follow from the values that it has before it is wired, if no inverse attribute shares its name
with a stored one: then no rule changes what another one reads (`wire_writes`).
-/

namespace Express.Population

variable {model : Model}

/-- All that an instance writes when it is wired. -/
def writesOf (model : Model) (population : Population) (id : Nat) (rules : List WiringRule) : List Write :=
  rules.flatMap fun rule => (population.value id rule.attr).ids.flatMap (writesTo model population.entities rule)

theorem mem_writesOf {population : Population} {id : Nat} {rules : List WiringRule} {write : Write} :
    write ∈ writesOf model population id rules ↔ ∃ rule ∈ rules,
      write.target ∈ (population.value id rule.attr).ids ∧ write.attr = rule.ownerAttr ∧
      write.appends = rule.action.appends ∧ ∃ entity, population.entities[write.target]? = some entity ∧
        model.isSubtypeOf entity rule.owner = .ok true := by
  simp only [writesOf, List.mem_flatMap, mem_writesTo]
  refine exists_congr fun rule => and_congr_right fun _ => ?_
  constructor
  · rintro ⟨target, listed, rfl, inherits⟩
    exact ⟨listed, rfl, rfl, inherits⟩
  · rintro ⟨listed, named, appends, inherits⟩
    obtain ⟨target, attr, flag⟩ := write
    cases named
    cases appends
    exact ⟨target, listed, rfl, inherits⟩

theorem lt_of_mem_writesOf {population : Population} {id : Nat} {rules : List WiringRule} {write : Write}
    (member : write ∈ writesOf model population id rules) : write.target < population.entities.length := by
  obtain ⟨rule, _, listed⟩ := List.mem_flatMap.mp member
  exact lt_of_mem_writesTo listed

/-- A write goes to an inverse attribute along its target's chain. -/
theorem inverse_of_write {population : Population} {id : Nat} {rules : List WiringRule} {runner : Name} {e : Entity}
    {chain : List Entity} (placed : model.Placed runner e chain) (ruled : model.wiringRules runner = .ok rules)
    {write : Write} (member : write ∈ writesOf model population id rules) {entity : Name} {e' : Entity}
    {chain' : List Entity} (here : population.entities[write.target]? = some entity)
    (target : model.Placed entity e' chain') :
    ∃ rule ∈ rules, write.target ∈ (population.value id rule.attr).ids ∧ write.attr = rule.ownerAttr ∧
      ∃ x ∈ chain', x.name = rule.owner ∧ ∃ a ∈ x.attributes,
        a.inverse = true ∧ a.name = write.attr ∧ write.appends = a.type.isCollection := by
  obtain ⟨rule, listed, refers, named, appends, other, there, inherits⟩ := mem_writesOf.mp member
  rw [here] at there
  cases there
  obtain ⟨x, inChain, owner, a, own, inverse, called, collects⟩ :=
    target.rule_writes_inverse placed ruled listed inherits
  exact ⟨rule, listed, refers, named, x, inChain, owner, a, own, inverse, called.trans named.symm,
    appends.trans collects⟩

/-- Wiring keeps the stored values of every instance. -/
theorem stored_of_writes (free : model.StoredNamesFree) {population : Population} {id : Nat} {rules : List WiringRule}
    {runner : Name} {e : Entity} {chain : List Entity} (placed : model.Placed runner e chain)
    (ruled : model.wiringRules runner = .ok rules) {b : Nat} {entity : Name} {e' : Entity} {chain' : List Entity}
    (here : population.entities[b]? = some entity) (owner : model.Placed entity e' chain') {x : Entity} {s : Attribute}
    (inChain : x ∈ chain') (own : s ∈ x.attributes) (stored : s.isStored = true) {write : Write}
    (member : write ∈ writesOf model population id rules) : write.target = b → write.attr ≠ s.name := by
  rintro rfl named
  obtain ⟨_, _, _, _, y, inChain', _, a, own', inverse, called, _⟩ :=
    inverse_of_write placed ruled member here owner
  exact owner.inverse_ne_stored free inChain' inChain own' own inverse stored (called.trans named)

/-- No rule of an instance writes what a rule of the instance reads. -/
theorem forward_of_writes (free : model.StoredNamesFree) {population : Population} {id : Nat}
    {rules : List WiringRule} {entity : Name} {e : Entity} {chain : List Entity}
    (here : population.entities[id]? = some entity) (placed : model.Placed entity e chain)
    (ruled : model.wiringRules entity = .ok rules) {write : Write} (member : write ∈ writesOf model population id rules)
    {rule : WiringRule} (listed : rule ∈ rules) : write.target = id → write.attr ≠ rule.attr := by
  obtain ⟨x, inChain, s, own, named, stored⟩ := placed.rule_stored ruled listed
  rw [← named]
  exact stored_of_writes free placed ruled here placed inChain own stored member

/-- Wiring performs the writes that the values before it call for. -/
theorem wire_writes (free : model.StoredNamesFree) {population after : Population} {id : Nat} {entity : Name}
    {e : Entity} {chain : List Entity} (here : population.entities[id]? = some entity)
    (placed : model.Placed entity e chain) (wired : population.wire model id = (.ok (), after)) :
    ∃ rules, model.wiringRules entity = .ok rules ∧
      after.instances = (writesOf model population id rules).foldl (Write.perform id) population.instances := by
  obtain ⟨own, rules, noted, there, ruled, same, ran⟩ := wire_ok wired
  rw [here] at there
  cases there
  have entities : noted.entities = population.entities := by rw [entities, same, Population.entities]
  have value : noted.value = population.value := by
    funext i n
    rw [Population.value, same, Population.value]
  have apart : ∀ rule ∈ rules,
      ∀ write ∈ (population.value id rule.attr).ids.flatMap (writesTo model noted.entities rule),
        write.target = id → ∀ other ∈ rules, write.attr ≠ other.attr := by
    intro rule listed write member self other listedOther
    rw [entities] at member
    have written : write ∈ writesOf model population id rules := List.mem_flatMap.mpr ⟨rule, listed, member⟩
    exact forward_of_writes free here placed ruled written listedOther self
  have known : id < noted.entities.length := by
    rw [entities]
    exact (List.getElem?_eq_some_iff.mp here).1
  have run := wireRules_ok known ran (fun rule _ => by rw [value]) apart
  rw [entities, same] at run
  exact ⟨rules, ruled, run⟩

end Express.Population
