import Express.Population
import Express.Proofs.Lineage
import Express.Proofs.Runs

/-!
# Populations as values

A population seen through the entity of each instance and the value of each attribute. Creating, setting and wiring are
described by what they do to this view; wiring is a list of writes, one after the other.
-/

namespace Express

namespace Instance

theorem lookup_insert_self (attr : Name) (value : Slot) (slots : List (Name × Slot)) :
    (insert attr value slots).lookup attr = some value := by
  induction slots with
  | nil => simp [insert]
  | cons entry others ih =>
    obtain ⟨key, old⟩ := entry
    unfold insert
    split
    · rename_i same
      simp [same]
    · rename_i different
      rw [List.lookup_cons, beq_false_of_ne (Ne.symm different)]
      exact ih

theorem lookup_insert_other {attr other : Name} (different : other ≠ attr) (value : Slot) (slots : List (Name × Slot)) :
    (insert attr value slots).lookup other = slots.lookup other := by
  induction slots with
  | nil => simp [insert, List.lookup_cons, beq_false_of_ne different]
  | cons entry others ih =>
    obtain ⟨key, old⟩ := entry
    unfold insert
    split
    · rename_i same
      subst same
      simp [List.lookup_cons, beq_false_of_ne different]
    · rw [List.lookup_cons, List.lookup_cons, ih]

theorem slot_put_self (inst : Instance) (attr : Name) (value : Slot) : (inst.put attr value).slot attr = value := by
  rw [slot, put, lookup_insert_self]
  rfl

theorem slot_put_other (inst : Instance) {attr other : Name} (different : other ≠ attr) (value : Slot) :
    (inst.put attr value).slot other = inst.slot other := by
  rw [slot, put, lookup_insert_other different]
  rfl

end Instance

namespace Population

/-- The entity of each instance. -/
def entities (population : Population) : List Name :=
  population.instances.map (·.entity)

/-- What an attribute of an instance holds, which is nothing if there is no such instance. -/
def value (population : Population) (id : Nat) (attr : Name) : Slot :=
  ((population.instances[id]?).map (·.slot attr)).getD .empty

theorem entityOf_eq_ok_iff {population : Population} {id : Nat} {entity : Name} :
    population.entityOf id = .ok entity ↔ population.entities[id]? = some entity := by
  unfold entityOf instance? entities
  rw [List.getElem?_map]
  cases population.instances[id]? <;> simp [Except.map]

theorem get_eq_ok_iff {population : Population} {id : Nat} {attr : Name} {slot : Slot} :
    population.get id attr = .ok slot ↔ id < population.entities.length ∧ population.value id attr = slot := by
  unfold Population.get instance? entities value
  rw [List.length_map]
  by_cases known : id < population.instances.length
  · simp [known, Except.map]
  · simp [known, Except.map]

theorem get_eq_value {population : Population} {id : Nat} (known : id < population.entities.length) (attr : Name) :
    population.get id attr = .ok (population.value id attr) :=
  get_eq_ok_iff.mpr ⟨known, rfl⟩

theorem lt_of_instance? {population : Population} {id : Nat} {inst : Instance} (known : population.instance? id = .ok inst) :
    id < population.entities.length := by
  unfold instance? at known
  split at known
  · rename_i there
    rw [entities, List.length_map]
    exact (List.getElem?_eq_some_iff.mp there).1
  · cases known

theorem value_of_length_le {population : Population} {id : Nat} (unknown : population.entities.length ≤ id) (attr : Name) :
    population.value id attr = .empty := by
  rw [entities, List.length_map] at unknown
  rw [value, List.getElem?_eq_none unknown]
  rfl

/-! ### One value -/

/-- Values with one of them replaced. -/
def assign (values : Nat → Name → Slot) (id : Nat) (attr : Name) (slot : Slot) : Nat → Name → Slot :=
  Function.update values id (Function.update (values id) attr slot)

theorem assign_self (values : Nat → Name → Slot) (id : Nat) (attr : Name) (slot : Slot) :
    assign values id attr slot id attr = slot := by
  rw [assign, Function.update_self, Function.update_self]

theorem assign_other {values : Nat → Name → Slot} {id i : Nat} {attr n : Name} {slot : Slot}
    (different : i = id → n ≠ attr) : assign values id attr slot i n = values i n := by
  unfold assign
  by_cases same : i = id
  · subst same
    rw [Function.update_self, Function.update_of_ne (different rfl)]
  · rw [Function.update_of_ne same]

theorem entities_update (population : Population) (id : Nat) (attr : Name) (change : Slot → Slot) :
    (population.update id attr change).entities = population.entities := by
  unfold entities update
  apply List.ext_getElem?
  intro i
  rw [List.getElem?_map, List.getElem?_map, List.getElem?_modify]
  split
  · cases population.instances[i]? <;> rfl
  · simp

theorem value_update (population : Population) {id : Nat} (known : id < population.entities.length) (attr : Name)
    (change : Slot → Slot) :
    (population.update id attr change).value =
      assign population.value id attr (change (population.value id attr)) := by
  rw [entities, List.length_map] at known
  funext i n
  by_cases same : i = id
  · subst same
    by_cases named : n = attr
    · subst named
      rw [assign_self]
      simp [value, update, List.getElem?_eq_getElem known, Instance.slot_put_self]
    · rw [assign_other fun _ => named]
      simp [value, update, List.getElem?_eq_getElem known, Instance.slot_put_other _ named]
  · rw [assign_other fun h => (same h).elim]
    simp [value, update, Ne.symm same]

/-! ### Creating and setting -/

variable {model : Model}

/-- A creation that is refused changes nothing; any other adds an instance of an entity that is not abstract. -/
theorem create_cases (model : Model) (population : Population) (entity : Name) :
    (∃ e, population.create model entity = (.error e, population)) ∨
      ∃ found, model.find? entity = some (.entity found) ∧ found.isAbstract = false ∧
        population.create model entity = (.ok population.instances.length,
          { population with instances := population.instances ++ [{ entity := found.name }] }) := by
  unfold create
  cases known : model.entity entity with
  | error e => exact .inl ⟨_, rfl⟩
  | ok found =>
    have read := Model.entity_eq_ok_iff.mp known
    cases abstract : found.isAbstract with
    | true => exact .inl ⟨.abstractEntity entity, by simp [abstract]⟩
    | false => exact .inr ⟨found, read, abstract, by simp [abstract]⟩

/-- A new instance has no values. -/
theorem value_created (population : Population) (entity : Name) :
    value { population with instances := population.instances ++ [{ entity }] } = population.value := by
  funext i n
  unfold value
  rcases Nat.lt_trichotomy i population.instances.length with below | rfl | above
  · rw [List.getElem?_append_left below]
  · simp [Instance.slot]
  · rw [List.getElem?_eq_none (by simp; omega), List.getElem?_eq_none (by omega)]

theorem create_ok {population after : Population} {entity : Name} {id : Nat}
    (made : population.create model entity = (.ok id, after)) :
    ∃ found, model.find? entity = some (.entity found) ∧ id = population.entities.length ∧
      after.entities = population.entities ++ [found.name] ∧ after.value = population.value := by
  obtain ⟨e, refused⟩ | ⟨found, read, _, created⟩ := create_cases model population entity
  · rw [refused] at made
    cases made
  · rw [created] at made
    cases made
    refine ⟨found, read, ?_, ?_, value_created population found.name⟩
    · simp [entities]
    · simp [entities]

theorem checkValue_ok {population : Population} {id : Nat} {attr : Name} {slot : Slot}
    (checked : population.checkValue model id attr slot = .ok ()) :
    ∃ entity a, population.entities[id]? = some entity ∧ model.forwardAttribute entity attr = .ok (some a) ∧
      slot.fits a.type = true ∧ ∀ i ∈ slot.ids, i < population.entities.length := by
  unfold checkValue at checked
  cases here : population.entityOf id with
  | error e => rw [here] at checked; cases checked
  | ok entity =>
    simp only [here, bind, Except.bind] at checked
    split at checked
    · cases checked
    · cases checked
    · rename_i a seen
      split at checked
      · rename_i fits
        refine ⟨entity, a, entityOf_eq_ok_iff.mp here, seen, fits, ?_⟩
        intro i member
        have there := forM_eq_ok_iff.mp checked i member
        split at there
        · cases there
        · rename_i inst known
          exact lt_of_instance? known
      · cases checked

/-- A value that is refused changes nothing; any other is that of a stored attribute and fits it. -/
theorem set_cases (model : Model) (population : Population) (id : Nat) (attr : Name) (slot : Slot) :
    (∃ e, population.set model id attr slot = (.error e, population)) ∨
      ∃ entity a, population.entities[id]? = some entity ∧ model.forwardAttribute entity attr = .ok (some a) ∧
        slot.fits a.type = true ∧ (∀ i ∈ slot.ids, i < population.entities.length) ∧
        population.set model id attr slot = (.ok (), population.update id attr fun _ => slot) := by
  unfold set
  cases checked : population.checkValue model id attr slot with
  | error e => exact .inl ⟨e, rfl⟩
  | ok _ =>
    obtain ⟨entity, a, here, seen, fits, known⟩ := checkValue_ok checked
    exact .inr ⟨entity, a, here, seen, fits, known, rfl⟩

theorem set_ok {population after : Population} {id : Nat} {attr : Name} {slot : Slot}
    (stored : population.set model id attr slot = (.ok (), after)) :
    ∃ entity, population.entities[id]? = some entity ∧
      (∃ a, model.forwardAttribute entity attr = .ok (some a)) ∧
      (∀ i ∈ slot.ids, i < population.entities.length) ∧
      after.entities = population.entities ∧ after.value = assign population.value id attr slot := by
  obtain ⟨e, refused⟩ | ⟨entity, a, here, seen, _, known, updated⟩ := set_cases model population id attr slot
  · rw [refused] at stored
    cases stored
  · rw [updated] at stored
    cases stored
    exact ⟨entity, here, ⟨a, seen⟩, known, entities_update .., value_update _ (List.getElem?_eq_some_iff.mp here).1 attr _⟩

/-! ### Wiring -/

/-- What happens to one value when an instance refers to its owner. -/
structure Write where
  target : Nat
  attr : Name
  appends : Bool

/-- The instance becomes the only one shown, or one more of several. -/
def receive (appends : Bool) (id : Nat) (slot : Slot) : Slot :=
  if appends then slot.append id else .one id

theorem receive_receive (appends : Bool) (id : Nat) (slot : Slot) :
    receive appends id (receive appends id slot) = receive appends id slot := by
  unfold receive
  cases appends with
  | false => rfl
  | true =>
    cases slot with
    | empty => simp [Slot.append]
    | one other => simp [Slot.append]
    | many ids => by_cases listed : id ∈ ids <;> simp [Slot.append, listed]

theorem mem_ids_receive {several : Bool} {id i : Nat} {slot : Slot} (listed : i ∈ (receive several id slot).ids) :
    i ∈ slot.ids ∨ i = id := by
  unfold receive at listed
  split at listed
  · cases slot with
    | empty => exact .inr (List.mem_singleton.mp listed)
    | one other => simpa [Slot.append, Slot.ids] using listed
    | many ids =>
      rw [Slot.append] at listed
      split at listed
      · exact .inl listed
      · simpa [Slot.ids] using listed
  · exact .inr (List.mem_singleton.mp listed)

namespace Write

def run (id : Nat) (values : Nat → Name → Slot) (write : Write) : Nat → Name → Slot :=
  assign values write.target write.attr (receive write.appends id (values write.target write.attr))

/-- The instances after a write. -/
def perform (id : Nat) (instances : List Instance) (write : Write) : List Instance :=
  instances.modify write.target fun inst => inst.put write.attr (receive write.appends id (inst.slot write.attr))

theorem run_of_hit {id i : Nat} {n : Name} {write : Write} (hit : write.target = i ∧ write.attr = n)
    (values : Nat → Name → Slot) : run id values write i n = receive write.appends id (values i n) := by
  obtain ⟨rfl, rfl⟩ := hit
  exact assign_self ..

theorem run_of_missed {id i : Nat} {n : Name} {write : Write} (missed : write.target = i → write.attr ≠ n)
    (values : Nat → Name → Slot) : run id values write i n = values i n :=
  assign_other fun same named => missed same.symm named.symm

theorem foldl_run_of_missed {id i : Nat} {n : Name} {writes : List Write} {values : Nat → Name → Slot}
    (missed : ∀ write ∈ writes, write.target = i → write.attr ≠ n) : writes.foldl (run id) values i n = values i n := by
  induction writes generalizing values with
  | nil => rfl
  | cons write writes ih =>
    rw [List.foldl_cons, ih fun w member => missed w (List.mem_cons_of_mem _ member)]
    exact run_of_missed (missed write List.mem_cons_self) values

/-- Writes that agree are as good as one. -/
theorem foldl_run_of_hit {id i : Nat} {n : Name} {appends : Bool} {writes : List Write} {values : Nat → Name → Slot}
    (hit : ∃ write ∈ writes, write.target = i ∧ write.attr = n)
    (agree : ∀ write ∈ writes, write.target = i → write.attr = n → write.appends = appends) :
    writes.foldl (run id) values i n = receive appends id (values i n) := by
  induction writes generalizing values with
  | nil =>
    obtain ⟨_, none, _⟩ := hit
    cases none
  | cons write writes ih =>
    have agreeLater : ∀ w ∈ writes, w.target = i → w.attr = n → w.appends = appends :=
      fun w member => agree w (List.mem_cons_of_mem _ member)
    rw [List.foldl_cons]
    by_cases later : ∃ w ∈ writes, w.target = i ∧ w.attr = n
    · rw [ih later agreeLater]
      by_cases here : write.target = i ∧ write.attr = n
      · rw [run_of_hit here, agree write List.mem_cons_self here.1 here.2, receive_receive]
      · rw [run_of_missed (not_and.mp here)]
    · have missed : ∀ w ∈ writes, w.target = i → w.attr ≠ n :=
        fun w member same named => later ⟨w, member, same, named⟩
      obtain ⟨w, member, here⟩ := hit
      rcases List.mem_cons.mp member with rfl | listed
      · rw [foldl_run_of_missed missed, run_of_hit here, agree w List.mem_cons_self here.1 here.2]
      · exact (later ⟨w, listed, here⟩).elim

end Write

theorem entities_performed {population after : Population} {id : Nat} {writes : List Write}
    (performed : after.instances = writes.foldl (Write.perform id) population.instances) :
    after.entities = population.entities := by
  induction writes generalizing population with
  | nil => exact congrArg (List.map Instance.entity) performed
  | cons write writes ih =>
    have later := @ih (population.update write.target write.attr (receive write.appends id)) performed
    exact later.trans (entities_update ..)

/-- Writes to instances that exist change the values as they say. -/
theorem value_performed {population after : Population} {id : Nat} {writes : List Write}
    (known : ∀ write ∈ writes, write.target < population.entities.length)
    (performed : after.instances = writes.foldl (Write.perform id) population.instances) :
    after.value = writes.foldl (Write.run id) population.value := by
  induction writes generalizing population with
  | nil =>
    funext i n
    rw [value, performed]
    rfl
  | cons write writes ih =>
    have later := @ih (population.update write.target write.attr (receive write.appends id))
      (fun other member => by rw [entities_update]; exact known other (List.mem_cons_of_mem _ member)) performed
    rw [later, value_update population (known write List.mem_cons_self)]
    rfl

/-- The write of a rule for one instance that is referred to, if that has the inverse attribute. -/
def writesTo (model : Model) (entities : List Name) (rule : WiringRule) (target : Nat) : List Write :=
  match entities[target]? with
  | none => []
  | some entity =>
    if model.isSubtypeOf entity rule.owner = .ok true then [⟨target, rule.ownerAttr, rule.action.appends⟩] else []

theorem mem_writesTo {entities : List Name} {rule : WiringRule} {target : Nat} {write : Write} :
    write ∈ writesTo model entities rule target ↔
      write = ⟨target, rule.ownerAttr, rule.action.appends⟩ ∧
        ∃ entity, entities[target]? = some entity ∧ model.isSubtypeOf entity rule.owner = .ok true := by
  unfold writesTo
  cases entities[target]? with
  | none => simp
  | some entity =>
    by_cases inherits : model.isSubtypeOf entity rule.owner = .ok true <;> simp [inherits]

/-- A target that is refused or not of the owning entity is left alone; any other receives the instance. -/
theorem wireTarget_cases (model : Model) (id : Nat) (entity : Name) (rule : WiringRule) (population : Population)
    (target : Nat) :
    (∃ e, wireTarget model id entity rule population target = (.error e, population)) ∨
      (∃ other, population.entities[target]? = some other ∧ model.isSubtypeOf other rule.owner = .ok false ∧
        wireTarget model id entity rule population target = (.ok (), population)) ∨
      ∃ other, population.entities[target]? = some other ∧ model.isSubtypeOf other rule.owner = .ok true ∧
        wireTarget model id entity rule population target =
          (.ok (), update
            { population with
              notices := population.notices ++
                [.wire entity rule.attr rule.owner rule.ownerAttr rule.action.title] }
            target rule.ownerAttr (receive rule.action.appends id)) := by
  unfold wireTarget
  cases here : population.entityOf target with
  | error e => exact .inl ⟨e, rfl⟩
  | ok other =>
    have there := entityOf_eq_ok_iff.mp here
    dsimp only
    cases inherits : model.isSubtypeOf other rule.owner with
    | error e => exact .inl ⟨.lookup e, rfl⟩
    | ok answer =>
      cases answer with
      | false => exact .inr (.inl ⟨other, there, inherits, rfl⟩)
      | true => exact .inr (.inr ⟨other, there, inherits, rfl⟩)

theorem lt_of_mem_writesTo {entities : List Name} {rule : WiringRule} {targets : List Nat} {write : Write}
    (member : write ∈ targets.flatMap (writesTo model entities rule)) : write.target < entities.length := by
  obtain ⟨target, _, listed⟩ := List.mem_flatMap.mp member
  obtain ⟨rfl, entity, there, _⟩ := mem_writesTo.mp listed
  exact (List.getElem?_eq_some_iff.mp there).1

theorem wireTarget_ok {id : Nat} {entity : Name} {rule : WiringRule} {population after : Population} {target : Nat}
    (wired : wireTarget model id entity rule population target = (.ok (), after)) :
    after.instances = (writesTo model population.entities rule target).foldl (Write.perform id) population.instances := by
  unfold writesTo
  obtain ⟨e, refused⟩ | ⟨other, there, inherits, left⟩ | ⟨other, there, inherits, received⟩ :=
    wireTarget_cases model id entity rule population target
  · rw [refused] at wired
    cases wired
  · rw [left] at wired
    cases wired
    rw [there]
    dsimp only
    rw [if_neg (by rw [inherits]; simp)]
    rfl
  · rw [received] at wired
    cases wired
    rw [there]
    dsimp only
    rw [if_pos inherits]
    rfl

theorem wireTargets_ok {id : Nat} {entity : Name} {rule : WiringRule} {population after : Population}
    {targets : List Nat} (wired : runAll (wireTarget model id entity rule) population targets = (.ok (), after)) :
    after.instances =
      (targets.flatMap (writesTo model population.entities rule)).foldl (Write.perform id) population.instances := by
  induction targets generalizing population with
  | nil =>
    cases wired
    rfl
  | cons target targets ih =>
    rw [runAll] at wired
    split at wired
    · rename_i next first
      have performed := wireTarget_ok first
      rw [ih wired, entities_performed performed, performed, List.flatMap_cons, List.foldl_append]
    · cases wired

/-- All rules of an instance, if none of its forward attributes is written on the way. -/
theorem wireRules_ok {id : Nat} {entity : Name} {reads : WiringRule → List Nat} {rules : List WiringRule}
    {population after : Population} (known : id < population.entities.length)
    (wired : runAll (wireRule model id entity) population rules = (.ok (), after))
    (same : ∀ rule ∈ rules, (population.value id rule.attr).ids = reads rule)
    (apart : ∀ rule ∈ rules, ∀ write ∈ (reads rule).flatMap (writesTo model population.entities rule),
      write.target = id → ∀ other ∈ rules, write.attr ≠ other.attr) :
    after.instances = (rules.flatMap fun rule => (reads rule).flatMap (writesTo model population.entities rule)).foldl
      (Write.perform id) population.instances := by
  induction rules generalizing population with
  | nil =>
    cases wired
    rfl
  | cons rule rules ih =>
    rw [runAll, wireRule, get_eq_value known] at wired
    dsimp only at wired
    rw [same rule List.mem_cons_self] at wired
    split at wired
    · rename_i next first
      have performed := wireTargets_ok first
      have entities := entities_performed performed
      have unread : ∀ other ∈ rules, next.value id other.attr = population.value id other.attr := by
        intro other member
        rw [value_performed (fun write => lt_of_mem_writesTo) performed]
        apply Write.foldl_run_of_missed
        intro write listed own
        exact apart rule List.mem_cons_self write listed own other (List.mem_cons_of_mem _ member)
      have later := ih (by rw [entities]; exact known) wired
        (fun other member => by rw [unread other member]; exact same other (List.mem_cons_of_mem _ member))
        (fun other member write listed own third listedThird => by
          rw [entities] at listed
          exact apart other (List.mem_cons_of_mem _ member) write listed own third (List.mem_cons_of_mem _ listedThird))
      rw [later, entities, performed, List.flatMap_cons, List.foldl_append]
    · cases wired

theorem wire_ok {population after : Population} {id : Nat} (wired : population.wire model id = (.ok (), after)) :
    ∃ entity rules noted, population.entities[id]? = some entity ∧ model.wiringRules entity = .ok rules ∧
      noted.instances = population.instances ∧ runAll (wireRule model id entity) noted rules = (.ok (), after) := by
  unfold wire at wired
  cases here : population.entityOf id with
  | error e => rw [here] at wired; cases wired
  | ok entity =>
    simp only [here] at wired
    split at wired
    · cases wired
    · rename_i rules ruled
      exact ⟨entity, rules, { population with notices := population.notices ++ model.wiringNotices entity },
        entityOf_eq_ok_iff.mp here, ruled, rfl, wired⟩

/-- A construction ends where it is refused: at its creation, at one of its values or while it is wired. -/
theorem construct_cases {population after : Population} {entity : Name} {values : List (Name × Slot)}
    {result : Except PopulationError Nat} (made : population.construct model entity values = (result, after)) :
    (∃ e, population.create model entity = (.error e, after) ∧ result = .error e) ∨
      ∃ id created, population.create model entity = (.ok id, created) ∧
        ((∃ e, runAll (fun population (attr, value) => population.set model id attr value) created values =
            (.error e, after) ∧ result = .error e) ∨
          ∃ filled, runAll (fun population (attr, value) => population.set model id attr value) created values =
            (.ok (), filled) ∧ (filled.wire model id).2 = after ∧ result = (filled.wire model id).1.map fun _ => id) := by
  unfold construct at made
  split at made
  · rename_i e created creating
    cases made
    exact .inl ⟨e, creating, rfl⟩
  · rename_i id created creating
    refine .inr ⟨id, created, creating, ?_⟩
    split at made
    · rename_i e filled filling
      cases made
      exact .inl ⟨e, filling, rfl⟩
    · rename_i filled filling
      refine .inr ⟨filled, filling, ?_⟩
      split at made
      all_goals
        rename_i wiring
        cases made
        rw [wiring]
        exact ⟨rfl, rfl⟩

theorem construct_ok {population after : Population} {entity : Name} {values : List (Name × Slot)} {id : Nat}
    (made : population.construct model entity values = (.ok id, after)) :
    ∃ created filled, population.create model entity = (.ok id, created) ∧
      runAll (fun population (attr, value) => population.set model id attr value) created values = (.ok (), filled) ∧
      filled.wire model id = (.ok (), after) := by
  obtain ⟨e, _, refused⟩ | ⟨id', created, creating, ⟨e, _, refused⟩ | ⟨filled, filling, rfl, answer⟩⟩ :=
    construct_cases made
  · cases refused
  · cases refused
  · cases wired : (filled.wire model id').1 with
    | error e =>
      rw [wired] at answer
      cases answer
    | ok _ =>
      rw [wired] at answer
      cases answer
      exact ⟨created, filled, creating, filling, Prod.ext wired rfl⟩

end Population

end Express
