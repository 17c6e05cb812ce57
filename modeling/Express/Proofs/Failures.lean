import Express.Proofs.Upkeep

/-!
# Failed calls

A call on a population that fails leaves all instances as they were. A construction may leave one more instance, the one
that it was about to give values to (`failed_call_keeps`).
-/

namespace Express.Population

variable {model : Model} {population next : Population}

theorem create_error {entity : Name} {e : PopulationError}
    (failed : population.create model entity = (.error e, next)) : next = population := by
  obtain ⟨e', refused⟩ | ⟨_, _, _, created⟩ := create_cases model population entity
  · rw [refused] at failed
    cases failed
    rfl
  · rw [created] at failed
    cases failed

theorem set_error {id : Nat} {attr : Name} {slot : Slot} {e : PopulationError}
    (failed : population.set model id attr slot = (.error e, next)) : next = population := by
  obtain ⟨e', refused⟩ | ⟨_, _, _, _, _, _, updated⟩ := set_cases model population id attr slot
  · rw [refused] at failed
    cases failed
    rfl
  · rw [updated] at failed
    cases failed

/-- In order, wiring fails only for an instance that does not exist, and then at once. -/
theorem InOrder.wire_error (inOrder : population.InOrder model) (finished : model.Finished) {id : Nat}
    {e : PopulationError} (failed : population.wire model id = (.error e, next)) : next = population := by
  by_cases known : id < population.instances.length
  · have wired := inOrder.wire_succeeds finished known
    rw [failed] at wired
    cases wired
  · have unknown : population.entityOf id = .error (.unknownInstance id) := by
      rw [entityOf, instance?, List.getElem?_eq_none (Nat.le_of_not_lt known)]
      rfl
    rw [wire, unknown] at failed
    cases failed
    rfl

def extended (population : Population) (inst : Instance) : Population :=
  { population with instances := population.instances ++ [inst] }

theorem update_extended (population : Population) (inst : Instance) (attr : Name) (change : Slot → Slot) :
    (population.extended inst).update population.instances.length attr change =
      population.extended (inst.put attr (change (inst.slot attr))) := by
  simp [extended, update, List.modify_eq_take_drop]

/-- Setting values of the newest instance changes nothing else. -/
theorem setAll_extended (model : Model) (population : Population) (inst : Instance) (values : List (Name × Slot)) :
    ∃ filled : Instance, filled.entity = inst.entity ∧
      (runAll (fun state (attr, value) => state.set model population.instances.length attr value)
        (population.extended inst) values).2 = population.extended filled := by
  refine @runAll_keeps _ _ _ _
    (fun state => ∃ filled : Instance, filled.entity = inst.entity ∧ state = population.extended filled) values ?_
    (population.extended inst) ⟨inst, rfl, rfl⟩
  rintro _ ⟨attr, value⟩ _ ⟨filled, same, rfl⟩
  obtain ⟨e, refused⟩ | ⟨_, _, _, _, _, _, updated⟩ :=
    set_cases model (population.extended filled) population.instances.length attr value
  · exact ⟨filled, same, congrArg Prod.snd refused⟩
  · have added := update_extended population filled attr fun _ => value
    exact ⟨filled.put attr value, same, (congrArg Prod.snd updated).trans added⟩

theorem InOrder.construct_keeps (inOrder : population.InOrder model) (finished : model.Finished) {entity : Name}
    {values : List (Name × Slot)} {e : PopulationError}
    (failed : population.construct model entity values = (.error e, next)) :
    next = population ∨ ∃ inst : Instance, inst.entity = entity ∧ next = population.extended inst := by
  obtain refused | ⟨id, created, before, attr, value, _, filled, made, _, filling, stopped⟩ :=
    inOrder.construct_error finished failed
  · exact .inl (create_error refused)
  · rw [set_error stopped]
    obtain ⟨e', refused⟩ | ⟨found, read, _, creating⟩ := create_cases model population entity
    · rw [refused] at made
      cases made
    · rw [creating] at made
      cases made
      obtain rfl := finished.indexed.find?_name read
      obtain ⟨inst, same, left⟩ := setAll_extended model population { entity := found.name } before
      refine .inr ⟨inst, same, ?_⟩
      rw [← left, extended, filling]

/-- A call that fails keeps every instance there is, and only a construction may leave one more. -/
theorem failed_call_keeps (finished : model.Finished) {calls : List Call} (reached : after model calls = population) :
    (∀ entity e next, population.create model entity = (.error e, next) → next = population) ∧
      (∀ id attr value e next, population.set model id attr value = (.error e, next) → next = population) ∧
      (∀ id e next, population.wire model id = (.error e, next) → next = population) ∧
      ∀ entity values e next, population.construct model entity values = (.error e, next) →
        (next = population ∨ ∃ inst : Instance, inst.entity = entity ∧
          next = { population with instances := population.instances ++ [inst] }) ∧
        ∀ (id : Nat) inst, population.instances[id]? = some inst → next.instances[id]? = some inst := by
  have inOrder := reached ▸ after_inOrder finished calls
  refine ⟨fun _ _ _ => create_error, fun _ _ _ _ _ => set_error, fun _ _ _ => inOrder.wire_error finished, ?_⟩
  intro entity values e next failed
  have kept := inOrder.construct_keeps finished failed
  refine ⟨kept, ?_⟩
  intro id inst here
  obtain rfl | ⟨added, _, rfl⟩ := kept
  · exact here
  · rw [extended, List.getElem?_append_left (List.getElem?_eq_some_iff.mp here).1]
    exact here

theorem office_failed_construction :
    office.Finished ∧ ∃ e next,
      (after office officeCalls).construct office "note" [("file", .one 0), ("owner", .one 0)] = (.error e, next) ∧
      (∃ inst : Instance, inst.entity = "note" ∧
        next.instances = (after office officeCalls).instances ++ [inst] ∧ inst.slot "file" = .one 0) ∧
      ∀ (id : Nat) inst, (after office officeCalls).instances[id]? = some inst → next.instances[id]? = some inst := by
  have failed : ((after office officeCalls).construct office "note" [("file", .one 0), ("owner", .one 0)]).1 =
      .error (.unknownAttribute "note" "owner") := by decide +kernel
  have grown : ((after office officeCalls).construct office "note" [("file", .one 0), ("owner", .one 0)]).2.value 3 "file" =
      .one 0 := by decide +kernel
  have fewer : (after office officeCalls).instances.length = 3 := by decide +kernel
  rcases made : (after office officeCalls).construct office "note" [("file", .one 0), ("owner", .one 0)] with ⟨result, next⟩
  rw [made] at failed grown
  cases failed
  obtain ⟨_, _, _, constructions⟩ := failed_call_keeps office_finished (rfl : after office officeCalls = _)
  obtain ⟨left, kept⟩ := constructions _ _ _ _ made
  refine ⟨office_finished, _, next, rfl, ?_, kept⟩
  obtain rfl | ⟨inst, named, rfl⟩ := left
  · rw [value, List.getElem?_eq_none (Nat.le_of_eq fewer)] at grown
    cases grown
  · refine ⟨inst, named, rfl, ?_⟩
    rw [value, List.getElem?_append_right (Nat.le_of_eq fewer), fewer] at grown
    exact grown

end Express.Population
