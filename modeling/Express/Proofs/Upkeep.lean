import Express.Proofs.Coverage
import Express.Proofs.Steps

/-!
# Populations in order

Whatever calls are made, the instances of a population are of entities that may have instances, refer to instances only
and have values only for attributes of their chains. So wiring never meets a lookup that fails (`after_wires`).
-/

namespace Express

/-! ### Instances -/

namespace Instance

theorem mem_insert {attr : Name} {value : Slot} {slots : List (Name × Slot)} {entry : Name × Slot}
    (member : entry ∈ insert attr value slots) : entry = (attr, value) ∨ entry ∈ slots := by
  induction slots with
  | nil => exact .inl (List.mem_singleton.mp member)
  | cons first others ih =>
    obtain ⟨key, old⟩ := first
    unfold insert at member
    split at member
    · rename_i same
      rcases List.mem_cons.mp member with new | other
      · rw [new, same]
        exact .inl rfl
      · exact .inr (List.mem_cons_of_mem _ other)
    · rcases List.mem_cons.mp member with kept | other
      · rw [kept]
        exact .inr List.mem_cons_self
      · exact (ih other).imp_right (List.mem_cons_of_mem _)

/-- A value that is not empty has been given. -/
theorem mem_slots_of_listed {inst : Instance} {attr : Name} {i : Nat} (listed : i ∈ (inst.slot attr).ids) :
    (attr, inst.slot attr) ∈ inst.slots := by
  unfold slot at listed ⊢
  cases found : inst.slots.lookup attr with
  | none =>
    rw [found] at listed
    cases listed
  | some value =>
    obtain ⟨before, later, split, _⟩ := List.lookup_eq_some_iff.mp found
    rw [split]
    exact List.mem_append_right _ List.mem_cons_self

/-- The instance is of an entity that is not abstract, refers to some of the instances, of which there are `count`, and
has values for attributes of its chain only. -/
structure InOrder (model : Model) (count : Nat) (inst : Instance) : Prop where
  concrete : ∃ e, model.entity inst.entity = .ok e ∧ e.isAbstract = false
  refers : ∀ entry ∈ inst.slots, ∀ i ∈ entry.2.ids, i < count
  keys : ∃ chain, model.ancestors inst.entity = .ok chain ∧
    ∀ entry ∈ inst.slots, ∃ owner ∈ chain, ∃ attr ∈ owner.attributes, attr.name = entry.1

namespace InOrder

variable {model : Model} {count : Nat} {inst : Instance}

theorem mono (inOrder : inst.InOrder model count) {more : Nat} (le : count ≤ more) : inst.InOrder model more :=
  ⟨inOrder.concrete, fun entry member i listed => Nat.lt_of_lt_of_le (inOrder.refers entry member i listed) le,
    inOrder.keys⟩

theorem slot (inOrder : inst.InOrder model count) (attr : Name) : ∀ i ∈ (inst.slot attr).ids, i < count := by
  intro i listed
  exact inOrder.refers _ (mem_slots_of_listed listed) i listed

theorem put (inOrder : inst.InOrder model count) {attr : Name} {value : Slot} (refers : ∀ i ∈ value.ids, i < count)
    (key : ∀ chain, model.ancestors inst.entity = .ok chain →
      ∃ owner ∈ chain, ∃ a ∈ owner.attributes, a.name = attr) : (inst.put attr value).InOrder model count := by
  obtain ⟨chain, read, keys⟩ := inOrder.keys
  refine ⟨inOrder.concrete, ?_, chain, read, ?_⟩
  · intro entry member
    rcases mem_insert member with rfl | old
    · exact refers
    · exact inOrder.refers entry old
  · intro entry member
    rcases mem_insert member with rfl | old
    · exact key chain read
    · exact keys entry old

end InOrder

end Instance

namespace Population

variable {model : Model} {population next : Population}

theorem entities_getElem? {id : Nat} {inst : Instance} (here : population.instances[id]? = some inst) :
    population.entities[id]? = some inst.entity := by
  rw [entities, List.getElem?_map, here]
  rfl

theorem length_entities (population : Population) : population.entities.length = population.instances.length := by
  rw [entities, List.length_map]

def InOrder (model : Model) (population : Population) : Prop :=
  ∀ inst ∈ population.instances, inst.InOrder model population.instances.length

namespace InOrder

theorem exists_placed (inOrder : population.InOrder model) (finished : model.Finished) {id : Nat} {entity : Name}
    (here : population.entities[id]? = some entity) : ∃ e chain, model.Placed entity e chain := by
  obtain ⟨inst, member, rfl⟩ := List.mem_map.mp (List.mem_of_getElem? here)
  obtain ⟨e, read, _⟩ := (inOrder inst member).concrete
  obtain ⟨chain, placed⟩ := Model.exists_placed finished (Model.entity_eq_ok_iff.mp read)
  exact ⟨e, chain, placed⟩

/-! ### What a step keeps -/

theorem update (inOrder : population.InOrder model) {id : Nat} {attr : Name} {change : Slot → Slot} {entity : Name}
    (here : population.entities[id]? = some entity)
    (refers : ∀ slot : Slot, (∀ i ∈ slot.ids, i < population.instances.length) →
      ∀ i ∈ (change slot).ids, i < population.instances.length)
    (key : ∀ chain, model.ancestors entity = .ok chain → ∃ owner ∈ chain, ∃ a ∈ owner.attributes, a.name = attr) :
    (population.update id attr change).InOrder model := by
  intro inst member
  have length : (population.update id attr change).instances.length = population.instances.length :=
    List.length_modify ..
  rw [length]
  obtain ⟨i, there⟩ := List.mem_iff_getElem?.mp member
  by_cases same : id = i
  · subst same
    rw [Population.update, List.getElem?_modify_eq] at there
    obtain ⟨before, old, rfl⟩ := Option.map_eq_some_iff.mp there
    have kept := inOrder before (List.mem_of_getElem? old)
    rw [entities_getElem? old] at here
    cases here
    exact kept.put (refers _ (kept.slot attr)) key
  · rw [Population.update, List.getElem?_modify_ne _ _ same] at there
    exact inOrder inst (List.mem_of_getElem? there)

theorem wireStep (inOrder : population.InOrder model) (finished : model.Finished) {id : Nat}
    (step : WireStep model id population next) : next.InOrder model := by
  cases step with
  | note => exact inOrder
  | receive runner ruled listed there inherits =>
    obtain ⟨_, _, running⟩ := inOrder.exists_placed finished runner
    obtain ⟨_, _, placed⟩ := inOrder.exists_placed finished there
    refine inOrder.update there ?_ ?_
    · intro slot bounded i received
      rcases mem_ids_receive received with old | rfl
      · exact bounded i old
      · rw [← length_entities]
        exact (List.getElem?_eq_some_iff.mp runner).1
    · intro chain read
      rw [placed.read] at read
      cases read
      obtain ⟨owner, inChain, _, a, own, _, named, _⟩ := placed.rule_writes_inverse running ruled listed inherits
      exact ⟨owner, inChain, a, own, named⟩

theorem wireSteps (inOrder : population.InOrder model) (finished : model.Finished) {id : Nat}
    (steps : WireSteps model id population next) : next.InOrder model := by
  induction steps with
  | refl => exact inOrder
  | tail _ step ih => exact ih.wireStep finished step

theorem step (inOrder : population.InOrder model) (finished : model.Finished) (step : Step model population next) :
    next.InOrder model := by
  cases step with
  | @create entity e found concrete =>
    intro inst member
    rw [List.length_append]
    rcases List.mem_append.mp member with old | new
    · exact (inOrder inst old).mono (Nat.le_add_right _ _)
    · rw [List.mem_singleton.mp new]
      obtain rfl := finished.indexed.find?_name found
      obtain ⟨chain, placed⟩ := Model.exists_placed finished found
      exact ⟨⟨e, Model.entity_eq_ok_iff.mpr found, concrete⟩, nofun, chain, placed.read, nofun⟩
  | @store id entity attr a slot here seen fits known =>
    refine inOrder.update here ?_ ?_
    · intro _ _
      rw [← length_entities]
      exact known
    · intro chain read
      obtain ⟨owner, inChain, a, own, named, _⟩ := (Model.forwardAttribute_some_iff read).mp ⟨a, seen⟩
      exact ⟨owner, inChain, a, own, named⟩
  | wire step => exact inOrder.wireStep finished step

theorem steps (inOrder : population.InOrder model) (finished : model.Finished) (steps : Steps model population next) :
    next.InOrder model := by
  induction steps with
  | refl => exact inOrder
  | tail _ step ih => exact ih.step finished step

/-- A rule that writes is a rule for an inverse attribute of the chain. -/
theorem exists_inverse (inOrder : population.InOrder model) {entity n : Name} {e : Entity} {chain : List Entity}
    {appends : Bool} {b : Nat} (placed : model.Placed entity e chain)
    (writes : Writes model population.entities entity n appends b) :
    ∃ x ∈ chain, ∃ a ∈ x.attributes, a.inverse = true ∧ a.name = n ∧ a.type.isCollection = appends := by
  obtain ⟨own, rules, here, ruled, rule, listed, named, action, inherits⟩ := writes
  obtain ⟨_, _, runner⟩ := inOrder.exists_placed placed.finished here
  obtain ⟨x, inChain, _, a, mine, inverse, called, collects⟩ := placed.rule_writes_inverse runner ruled listed inherits
  exact ⟨x, inChain, a, mine, inverse, called.trans named, collects.symm.trans action⟩

/-! ### Wiring does not fail -/

theorem wireTarget_succeeds (inOrder : population.InOrder model) (finished : model.Finished) {target : Nat}
    (known : target < population.entities.length) (id : Nat) (entity : Name) (rule : WiringRule) :
    (wireTarget model id entity rule population target).1 = .ok () := by
  have there := List.getElem?_eq_getElem known
  obtain ⟨_, chain, placed⟩ := inOrder.exists_placed finished there
  have answer : model.isSubtypeOf population.entities[target] rule.owner = .ok (chain.any (·.name == rule.owner)) := by
    rw [Model.isSubtypeOf, placed.read]
    rfl
  rw [wireTarget, entityOf_eq_ok_iff.mpr there]
  dsimp only
  rw [answer]
  cases chain.any (·.name == rule.owner) <;> rfl

theorem wireRule_succeeds (inOrder : population.InOrder model) (finished : model.Finished) {id : Nat} {entity : Name}
    {rules : List WiringRule} {rule : WiringRule} (runner : population.entities[id]? = some entity)
    (ruled : model.wiringRules entity = .ok rules) (listed : rule ∈ rules) :
    (wireRule model id entity population rule).1 = .ok () := by
  have known := (List.getElem?_eq_some_iff.mp runner).1
  have targets : ∀ target ∈ (population.value id rule.attr).ids, target < population.entities.length := by
    intro target member
    rw [length_entities] at known ⊢
    rw [value, List.getElem?_eq_getElem known] at member
    exact (inOrder _ (List.getElem_mem known)).slot rule.attr target member
  rw [wireRule, get_eq_value (List.getElem?_eq_some_iff.mp runner).1]
  -- The targets are read before the first is written; the steps so far keep the instances in order and in number.
  refine @runAll_ok _ _ _ _ (fun state => WireSteps model id population state) _ ?_ _ .refl
  intro state target member steps
  have same := steps.entities
  have runner' : state.entities[id]? = some entity := by rw [same]; exact runner
  refine ⟨(inOrder.wireSteps finished steps).wireTarget_succeeds finished ?_ id entity rule, ?_⟩
  · rw [same]
    exact targets target member
  · exact steps.trans (wireTarget_steps runner' ruled listed)

theorem wire_succeeds (inOrder : population.InOrder model) (finished : model.Finished) {id : Nat}
    (known : id < population.instances.length) : (population.wire model id).1 = .ok () := by
  obtain ⟨entity, runner⟩ : ∃ entity, population.entities[id]? = some entity :=
    ⟨_, List.getElem?_eq_getElem (by rw [length_entities]; exact known)⟩
  obtain ⟨_, _, placed⟩ := inOrder.exists_placed finished runner
  obtain ⟨rules, ruled, _⟩ := finished.wiringRules_exact placed
  rw [wire, entityOf_eq_ok_iff.mpr runner]
  dsimp only
  rw [ruled]
  refine @runAll_ok _ _ _ _ (fun state => WireSteps model id population state) _ ?_ _ (.single (.note _))
  intro state rule listed steps
  have runner' : state.entities[id]? = some entity := by rw [steps.entities]; exact runner
  exact ⟨(inOrder.wireSteps finished steps).wireRule_succeeds finished runner' ruled listed,
    steps.trans (wireRule_steps runner' ruled listed)⟩

/-- A construction that fails does so at its creation or at one of its values. -/
theorem construct_error (inOrder : population.InOrder model) (finished : model.Finished) {entity : Name}
    {values : List (Name × Slot)} {e : PopulationError}
    (failed : population.construct model entity values = (.error e, next)) :
    population.create model entity = (.error e, next) ∨
      ∃ id created before attr value later filled, population.create model entity = (.ok id, created) ∧
        values = before ++ (attr, value) :: later ∧
        runAll (fun population (attr, value) => population.set model id attr value) created before = (.ok (), filled) ∧
        filled.set model id attr value = (.error e, next) := by
  obtain ⟨e', refused, same⟩ | ⟨id, created, made, ending⟩ := construct_cases failed
  · cases same
    exact .inl refused
  · obtain ⟨e', refused, same⟩ | ⟨filled, filling, _, same⟩ := ending
    · cases same
      obtain ⟨before, ⟨attr, value⟩, later, middle, split, ran, stopped⟩ := runAll_error refused
      exact .inr ⟨id, created, before, attr, value, later, middle, made, split, ran, stopped⟩
    · -- Every value is set, and then the instance gets wired.
      have creating := create_steps model population entity
      have setting := setAll_steps model created id values
      rw [made] at creating
      rw [filling] at setting
      obtain ⟨found, _, rfl, entities, _⟩ := create_ok made
      have here : created.entities[population.entities.length]? = some found.name := by
        rw [entities]
        exact List.getElem?_concat_length
      have known : population.entities.length < filled.instances.length := by
        rw [← length_entities filled]
        exact (List.getElem?_eq_some_iff.mp (setting.entity_of here)).1
      rw [(inOrder.steps finished (creating.trans setting)).wire_succeeds finished known] at same
      cases same

end InOrder

theorem after_inOrder (finished : model.Finished) (calls : List Call) : (after model calls).InOrder model :=
  after_induction nofun (fun before step => before.step finished step) calls

/-- Whatever calls are made, with whatever success, the population is in order, its instances can be wired, and a
construction fails, if it does, before any wiring. -/
theorem after_wires (finished : model.Finished) {calls : List Call} (reached : after model calls = population) :
    population.InOrder model ∧
      (∀ id < population.instances.length, (population.wire model id).1 = .ok ()) ∧
      ∀ entity values e next, population.construct model entity values = (.error e, next) →
        population.create model entity = (.error e, next) ∨
          ∃ id created before attr value later filled, population.create model entity = (.ok id, created) ∧
            values = before ++ (attr, value) :: later ∧
            runAll (fun population (attr, value) => population.set model id attr value) created before =
              (.ok (), filled) ∧
            filled.set model id attr value = (.error e, next) := by
  have inOrder := reached ▸ after_inOrder finished calls
  exact ⟨inOrder, fun id => inOrder.wire_succeeds finished, fun _ _ _ _ => inOrder.construct_error finished⟩

/-- A folder belongs to a folder, lists the notes in it and shows one of them. In a binder, the attributes for its owner
and for that one note show all notes. -/
def officeSchema : Schema where
  name := "office"
  declarations :=
    [.entity
        { name := "folder"
          explicit := [{ names := [.simple "owner"], type := .named "folder" }]
          inverse :=
            [{ name := .simple "notes", entity := "note", forAttr := "file" },
              { name := .simple "index", aggregate := some { kind := .set }, entity := "note", forAttr := "file" }] },
      .entity
        { name := "binder"
          subtypeOf := ["folder"]
          inverse :=
            [{ name := .qualified "folder" "notes", aggregate := some { kind := .set }, entity := "note", forAttr := "file" },
              { name := .qualified "folder" "owner", aggregate := some { kind := .set }, entity := "note",
                forAttr := "file" }] },
      .entity { name := "note", explicit := [{ names := [.simple "file"], type := .named "folder" }] }]

def office : Model :=
  let model := (Draft.after {} [.schema officeSchema]).model
  { model with memberships := Model.membershipsOf model.selects }

theorem office_finished : office.Finished :=
  ⟨{}, [.schema officeSchema], Draft.finish_of_checks (by decide +kernel) (by decide +kernel) (by decide +kernel)
    (fun strict => absurd strict (by decide +kernel)) (by decide +kernel)⟩

/-- A binder that is its own owner and a note in it. A second note is refused half-way, and wired all the same. -/
def officeCalls : List Call :=
  [.create "binder", .set 0 "owner" (.one 0), .construct "note" [("file", .one 0)],
    .construct "note" [("file", .one 0), ("file", .one 7)], .wire 2, .wire 7]

theorem office_wires :
    office.Finished ∧ (after office officeCalls).InOrder office ∧ (after office officeCalls).instances.length = 3 ∧
      ((after office officeCalls).wire office 2).1 = .ok () ∧
      (after office officeCalls).get 0 "owner" = .ok (.many [0, 1, 2]) := by
  obtain ⟨inOrder, wires, _⟩ := after_wires office_finished (rfl : after office officeCalls = _)
  exact ⟨office_finished, inOrder, by decide +kernel, wires 2 (by decide +kernel), by decide +kernel⟩

end Population

end Express
