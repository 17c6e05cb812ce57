import Express.Proofs.Values

/-!
# Calls and steps of a population

A population is worked on by calls, each of which may fail half-way. Whatever a call does, it does by creating an
instance, storing a value or letting an inverse attribute receive an instance. What every such step keeps holds of every
population that calls can lead to (`after_induction`).
-/

namespace Express.Population

inductive Call where
  | create (entity : Name)
  | construct (entity : Name) (values : List (Name × Slot))
  | set (id : Nat) (attr : Name) (value : Slot)
  | wire (id : Nat)
  deriving DecidableEq, Repr

/-- The population that a call leaves, whether it succeeds or fails. -/
def call (model : Model) (population : Population) : Call → Population
  | .create entity => (population.create model entity).2
  | .construct entity values => (population.construct model entity values).2
  | .set id attr value => (population.set model id attr value).2
  | .wire id => (population.wire model id).2

def after (model : Model) (calls : List Call) : Population :=
  calls.foldl (call model) {}

/-- What wiring an instance does at a time: it leaves notices, or an inverse attribute receives the instance. -/
inductive WireStep (model : Model) (id : Nat) (population : Population) : Population → Prop where
  | note (notices : List Notice) :
      WireStep model id population { population with notices := population.notices ++ notices }
  | receive {entity other : Name} {rules : List WiringRule} {rule : WiringRule} {target : Nat}
      (runner : population.entities[id]? = some entity) (ruled : model.wiringRules entity = .ok rules)
      (listed : rule ∈ rules) (there : population.entities[target]? = some other)
      (inherits : model.isSubtypeOf other rule.owner = .ok true) :
      WireStep model id population (population.update target rule.ownerAttr (receive rule.action.appends id))

inductive Step (model : Model) (population : Population) : Population → Prop where
  | create {entity : Name} {e : Entity} (found : model.find? entity = some (.entity e)) (concrete : e.isAbstract = false) :
      Step model population { population with instances := population.instances ++ [{ entity := e.name }] }
  | store {id : Nat} {entity attr : Name} {a : Attribute} {slot : Slot} (here : population.entities[id]? = some entity)
      (seen : model.forwardAttribute entity attr = .ok (some a)) (fits : slot.fits a.type = true)
      (known : ∀ i ∈ slot.ids, i < population.entities.length) :
      Step model population (population.update id attr fun _ => slot)
  | wire {id : Nat} {next : Population} (step : WireStep model id population next) : Step model population next

abbrev WireSteps (model : Model) (id : Nat) : Population → Population → Prop :=
  Relation.ReflTransGen (WireStep model id)

abbrev Steps (model : Model) : Population → Population → Prop :=
  Relation.ReflTransGen (Step model)

variable {model : Model} {population next : Population}

/-! ### What a step changes -/

theorem WireStep.entities {id : Nat} (step : WireStep model id population next) : next.entities = population.entities := by
  cases step with
  | note => rfl
  | receive => exact entities_update ..

theorem WireSteps.entities {id : Nat} (steps : WireSteps model id population next) :
    next.entities = population.entities := by
  induction steps with
  | refl => rfl
  | tail _ step ih => exact step.entities.trans ih

theorem Step.entities_prefix (step : Step model population next) : population.entities <+: next.entities := by
  cases step with
  | create => exact ⟨_, List.map_append.symm⟩
  | store => exact (entities_update ..).symm ▸ List.prefix_rfl
  | wire step => exact step.entities.symm ▸ List.prefix_rfl

theorem Step.entity_of (step : Step model population next) {id : Nat} {entity : Name}
    (here : population.entities[id]? = some entity) : next.entities[id]? = some entity := by
  obtain ⟨added, same⟩ := step.entities_prefix
  rw [← same, List.getElem?_append_left (List.getElem?_eq_some_iff.mp here).1, here]

theorem Step.entity_eq (step : Step model population next) {id : Nat} {entity other : Name}
    (before : population.entities[id]? = some other) (here : next.entities[id]? = some entity) : other = entity := by
  rw [step.entity_of before] at here
  exact Option.some.inj here

theorem Steps.entity_of (steps : Steps model population next) {id : Nat} {entity : Name}
    (here : population.entities[id]? = some entity) : next.entities[id]? = some entity := by
  induction steps with
  | refl => exact here
  | tail _ step ih => exact step.entity_of ih

/-- A rule of instance `b` writes the attribute of the instances of an entity, in this way. -/
def Writes (model : Model) (entities : List Name) (entity attr : Name) (appends : Bool) (b : Nat) : Prop :=
  ∃ own rules, entities[b]? = some own ∧ model.wiringRules own = .ok rules ∧ ∃ rule ∈ rules,
    rule.ownerAttr = attr ∧ rule.action.appends = appends ∧ model.isSubtypeOf entity rule.owner = .ok true

theorem Writes.step {entity attr : Name} {appends : Bool} {b : Nat} (step : Step model population next)
    (writes : Writes model population.entities entity attr appends b) :
    Writes model next.entities entity attr appends b := by
  obtain ⟨own, rules, here, ruled⟩ := writes
  exact ⟨own, rules, step.entity_of here, ruled⟩

/-- A step of wiring leaves a value as it is, or gives it the instance that is wired. -/
theorem WireStep.value_cases {id : Nat} (step : WireStep model id population next) (a : Nat) (n : Name) :
    next.value a n = population.value a n ∨
      ∃ entity appends, population.entities[a]? = some entity ∧
        Writes model population.entities entity n appends id ∧
        next.value a n = Population.receive appends id (population.value a n) := by
  cases step with
  | note => exact .inl rfl
  | @receive own other rules rule target runner ruled listed there inherits =>
    rw [value_update population (List.getElem?_eq_some_iff.mp there).1]
    by_cases hit : a = target ∧ n = rule.ownerAttr
    · obtain ⟨rfl, rfl⟩ := hit
      rw [assign_self]
      exact .inr ⟨other, _, there, ⟨own, rules, runner, ruled, rule, listed, rfl, rfl, inherits⟩, rfl⟩
    · exact .inl (assign_other fun same named => hit ⟨same, named⟩)

theorem WireSteps.value_cases {id : Nat} (steps : WireSteps model id population next) (a : Nat) (n : Name) :
    next.value a n = population.value a n ∨
      ∃ entity appends, population.entities[a]? = some entity ∧
        Writes model population.entities entity n appends id := by
  induction steps with
  | refl => exact .inl rfl
  | @tail middle _ steps step ih =>
    have entities := WireSteps.entities steps
    obtain same | ⟨entity, appends, here, writes, _⟩ := step.value_cases a n
    · rw [same]
      exact ih
    · rw [entities] at here writes
      exact .inr ⟨entity, appends, here, writes⟩

theorem Step.value_cases (step : Step model population next) (a : Nat) (n : Name) :
    next.value a n = population.value a n ∨
      (∃ entity found, population.entities[a]? = some entity ∧ model.forwardAttribute entity n = .ok (some found) ∧
        (next.value a n).fits found.type = true) ∨
      ∃ entity appends b, population.entities[a]? = some entity ∧
        Writes model population.entities entity n appends b ∧
        next.value a n = receive appends b (population.value a n) := by
  cases step with
  | @create _ e => exact .inl (congrFun (congrFun (value_created population e.name) a) n)
  | @store id entity attr found slot here seen fits known =>
    rw [value_update population (List.getElem?_eq_some_iff.mp here).1]
    by_cases hit : a = id ∧ n = attr
    · obtain ⟨rfl, rfl⟩ := hit
      rw [assign_self]
      exact .inr (.inl ⟨entity, found, here, seen, fits⟩)
    · exact .inl (assign_other fun same named => hit ⟨same, named⟩)
  | @wire id _ step =>
    obtain same | ⟨entity, appends, here, writes, received⟩ := step.value_cases a n
    · exact .inl same
    · exact .inr (.inr ⟨entity, appends, id, here, writes, received⟩)

theorem Step.value_at (step : Step model population next) {a : Nat} {entity : Name}
    (here : next.entities[a]? = some entity) (n : Name) :
    next.value a n = .empty ∨
      population.entities[a]? = some entity ∧
        (next.value a n = population.value a n ∨
          (∃ found, model.forwardAttribute entity n = .ok (some found) ∧ (next.value a n).fits found.type = true) ∨
          ∃ appends b, Writes model population.entities entity n appends b ∧
            next.value a n = receive appends b (population.value a n)) := by
  obtain same | ⟨other, found, known, seen, fits⟩ | ⟨other, appends, b, known, writes, received⟩ := step.value_cases a n
  · -- An instance that the step creates has no values yet.
    cases known : population.entities[a]? with
    | none =>
      rw [value_of_length_le (List.getElem?_eq_none_iff.mp known)] at same
      exact .inl same
    | some other =>
      obtain rfl := step.entity_eq known here
      exact .inr ⟨rfl, .inl same⟩
  · obtain rfl := step.entity_eq known here
    exact .inr ⟨known, .inr (.inl ⟨found, seen, fits⟩)⟩
  · obtain rfl := step.entity_eq known here
    exact .inr ⟨known, .inr (.inr ⟨appends, b, writes, received⟩)⟩

/-! ### Each call steps -/

theorem create_steps (model : Model) (population : Population) (entity : Name) :
    Steps model population (population.create model entity).2 := by
  obtain ⟨e, refused⟩ | ⟨found, read, concrete, created⟩ := create_cases model population entity
  · rw [refused]
  · rw [created]
    exact .single (.create read concrete)

theorem set_steps (model : Model) (population : Population) (id : Nat) (attr : Name) (slot : Slot) :
    Steps model population (population.set model id attr slot).2 := by
  obtain ⟨e, refused⟩ | ⟨entity, a, here, seen, fits, known, updated⟩ := set_cases model population id attr slot
  · rw [refused]
  · rw [updated]
    exact .single (.store here seen fits known)

theorem wireTarget_steps {id target : Nat} {entity : Name} {rules : List WiringRule} {rule : WiringRule}
    (runner : population.entities[id]? = some entity) (ruled : model.wiringRules entity = .ok rules)
    (listed : rule ∈ rules) : WireSteps model id population (wireTarget model id entity rule population target).2 := by
  obtain ⟨e, refused⟩ | ⟨other, there, inherits, left⟩ | ⟨other, there, inherits, received⟩ :=
    wireTarget_cases model id entity rule population target
  · rw [refused]
  · rw [left]
  · rw [received]
    exact .tail (.single (.note _)) (.receive runner ruled listed there inherits)

theorem wireRule_steps {id : Nat} {entity : Name} {rules : List WiringRule} {rule : WiringRule}
    (runner : population.entities[id]? = some entity) (ruled : model.wiringRules entity = .ok rules)
    (listed : rule ∈ rules) : WireSteps model id population (wireRule model id entity population rule).2 := by
  unfold wireRule
  cases population.get id rule.attr with
  | error e => exact .refl
  | ok slot =>
    refine @runAll_keeps _ _ _ _ (WireSteps model id population) slot.ids ?_ population .refl
    intro state target _ before
    exact before.trans (wireTarget_steps (by rw [before.entities]; exact runner) ruled listed)

/-- Also when it fails, wiring an instance does nothing but give it to inverse attributes. -/
theorem wire_steps (model : Model) (population : Population) (id : Nat) :
    WireSteps model id population (population.wire model id).2 := by
  unfold wire
  cases here : population.entityOf id with
  | error e => exact .refl
  | ok entity =>
    have runner := entityOf_eq_ok_iff.mp here
    have noted : WireSteps model id population
        { population with notices := population.notices ++ model.wiringNotices entity } := .single (.note _)
    dsimp only
    cases ruled : model.wiringRules entity with
    | error e => exact noted
    | ok rules =>
      refine @runAll_keeps _ _ _ _ (WireSteps model id population) rules ?_ _ noted
      intro state rule listed before
      exact before.trans (wireRule_steps (by rw [before.entities]; exact runner) ruled listed)

theorem WireSteps.steps {id : Nat} (steps : WireSteps model id population next) : Steps model population next :=
  Relation.ReflTransGen.mono (fun _ _ => Step.wire) _ _ steps

theorem setAll_steps (model : Model) (population : Population) (id : Nat) (values : List (Name × Slot)) :
    Steps model population
      (runAll (fun population (attr, value) => population.set model id attr value) population values).2 := by
  refine @runAll_keeps _ _ _ _ (Steps model population) values ?_ population .refl
  intro state value _ before
  exact before.trans (set_steps model state id value.1 value.2)

theorem construct_steps {entity : Name} {values : List (Name × Slot)} {result : Except PopulationError Nat}
    (made : population.construct model entity values = (result, next)) : Steps model population next := by
  have creating := create_steps model population entity
  obtain ⟨e, refused, _⟩ | ⟨id, created, same, ending⟩ := construct_cases made
  · rw [refused] at creating
    exact creating
  · have filling := setAll_steps model created id values
    rw [same] at creating
    obtain ⟨e, refused, _⟩ | ⟨filled, same, rfl, _⟩ := ending
    · rw [refused] at filling
      exact creating.trans filling
    · rw [same] at filling
      exact (creating.trans filling).trans (wire_steps model filled id).steps

theorem call_steps (model : Model) (population : Population) (c : Call) :
    Steps model population (population.call model c) := by
  cases c with
  | create entity => exact create_steps model population entity
  | construct entity values => exact construct_steps rfl
  | set id attr value => exact set_steps model population id attr value
  | wire id => exact (wire_steps model population id).steps

/-! ### What every step keeps -/

/-- Whatever the empty population has and every step keeps, each population has. -/
theorem after_induction {keeps : Population → Prop} (start : keeps {})
    (kept : ∀ {population next}, keeps population → Step model population next → keeps next) (calls : List Call) :
    keeps (after model calls) := by
  have steps : Steps model {} (after model calls) := by
    unfold after
    generalize ({} : Population) = population
    induction calls generalizing population with
    | nil => exact .refl
    | cons c calls ih => exact (call_steps model population c).trans (ih _)
  generalize after model calls = population at steps
  induction steps with
  | refl => exact start
  | tail _ step ih => exact kept ih step

end Express.Population
