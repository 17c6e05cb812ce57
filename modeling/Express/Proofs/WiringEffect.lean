import Express.Proofs.Upkeep
import Express.Proofs.Writes

/-!
# The effect of wiring

Wiring an instance changes only what its rules reach, shows the instance in all of that, and has no effect a second time
(`wire_effect`). Rules may write to one attribute several times and in both ways. Taken together, such writes add the
instance or give a value that does not depend on the one before.
-/

namespace Express

/-! ### Writes to one attribute -/

namespace Population

theorem mem_ids_receive_self (appends : Bool) (id : Nat) (slot : Slot) : id ∈ (receive appends id slot).ids := by
  unfold receive
  cases appends with
  | false => exact List.mem_singleton_self id
  | true =>
    cases slot with
    | empty => simp [Slot.append, Slot.ids]
    | one other => simp [Slot.append, Slot.ids]
    | many ids => by_cases listed : id ∈ ids <;> simp [Slot.append, Slot.ids, listed]

namespace Write

variable {id i : Nat} {n : Name}

/-- What writes make of one value: nothing, the value with the instance added, or a value with the instance whatever was
there before. -/
theorem foldl_run_cell (id i : Nat) (n : Name) (writes : List Write) :
    (∀ write ∈ writes, write.target = i → write.attr ≠ n) ∨
      (∀ values, writes.foldl (run id) values i n = receive true id (values i n)) ∨
      ∃ slot : Slot, id ∈ slot.ids ∧ ∀ values, writes.foldl (run id) values i n = slot := by
  induction writes with
  | nil => exact .inl fun _ none => by cases none
  | cons write writes ih =>
    simp only [List.foldl_cons]
    obtain missed | added | ⟨slot, listed, given⟩ := ih
    · have kept : ∀ values, writes.foldl (run id) values i n = values i n := fun values => foldl_run_of_missed missed
      by_cases hit : write.target = i ∧ write.attr = n
      · right
        cases appends : write.appends with
        | true =>
          left
          intro values
          rw [kept, run_of_hit hit, appends]
        | false =>
          refine .inr ⟨.one id, List.mem_singleton_self id, fun values => ?_⟩
          rw [kept, run_of_hit hit, appends]
          rfl
      · exact .inl (List.forall_mem_cons.mpr ⟨not_and.mp hit, missed⟩)
    · right
      by_cases hit : write.target = i ∧ write.attr = n
      · cases appends : write.appends with
        | true =>
          left
          intro values
          rw [added, run_of_hit hit, appends, receive_receive]
        | false =>
          -- Shown alone first and added then: the one that is alone is not looked at, so it is there twice.
          refine .inr ⟨receive true id (.one id), mem_ids_receive_self .., fun values => ?_⟩
          rw [added, run_of_hit hit, appends]
          rfl
      · left
        intro values
        rw [added, run_of_missed (not_and.mp hit)]
    · exact .inr (.inr ⟨slot, listed, fun values => given _⟩)

theorem mem_ids_foldl_run {writes : List Write} (hit : ∃ write ∈ writes, write.target = i ∧ write.attr = n)
    (values : Nat → Name → Slot) : id ∈ (writes.foldl (run id) values i n).ids := by
  obtain missed | added | ⟨slot, listed, given⟩ := foldl_run_cell id i n writes
  · obtain ⟨write, member, same, named⟩ := hit
    exact (missed write member same named).elim
  · rw [added]
    exact mem_ids_receive_self ..
  · rw [given]
    exact listed

/-- The same writes once more change nothing. -/
theorem foldl_run_foldl_run (id : Nat) (writes : List Write) (values : Nat → Name → Slot) :
    writes.foldl (run id) (writes.foldl (run id) values) = writes.foldl (run id) values := by
  funext i n
  obtain missed | added | ⟨slot, _, given⟩ := foldl_run_cell id i n writes
  · exact foldl_run_of_missed missed
  · rw [added, added, receive_receive]
  · rw [given, given]

end Write

end Population

/-! ### Attributes that have been given a value -/

namespace Instance

/-- The attributes that have been given a value. -/
def keys (inst : Instance) : List Name :=
  inst.slots.map (·.1)

theorem map_insert_of_mem {attr : Name} {slots : List (Name × Slot)} (present : attr ∈ slots.map (·.1)) (value : Slot) :
    (insert attr value slots).map (·.1) = slots.map (·.1) := by
  induction slots with
  | nil => cases present
  | cons entry others ih =>
    obtain ⟨key, old⟩ := entry
    unfold insert
    by_cases same : key = attr
    · rw [if_pos same]
      rfl
    · rw [if_neg same]
      have later := (List.mem_cons.mp present).resolve_left (Ne.symm same)
      exact congrArg (key :: ·) (ih later)

theorem nodup_map_insert {slots : List (Name × Slot)} (distinct : (slots.map (·.1)).Nodup) (attr : Name)
    (value : Slot) : ((insert attr value slots).map (·.1)).Nodup := by
  induction slots with
  | nil => exact List.nodup_singleton attr
  | cons entry others ih =>
    obtain ⟨key, old⟩ := entry
    obtain ⟨fresh, distinct⟩ := List.nodup_cons.mp distinct
    unfold insert
    by_cases same : key = attr
    · rw [if_pos same]
      exact List.nodup_cons.mpr ⟨fresh, distinct⟩
    · rw [if_neg same]
      refine List.nodup_cons.mpr ⟨fun again => ?_, ih distinct⟩
      obtain ⟨entry, member, named⟩ := List.mem_map.mp again
      rcases mem_insert member with rfl | old
      · exact same named.symm
      · exact fresh (List.mem_map.mpr ⟨entry, old, named⟩)

theorem slots_ext {slots others : List (Name × Slot)} (keys : slots.map (·.1) = others.map (·.1))
    (distinct : (slots.map (·.1)).Nodup)
    (same : ∀ attr ∈ slots.map (·.1), (slots.lookup attr).getD .empty = (others.lookup attr).getD .empty) :
    slots = others := by
  induction slots generalizing others with
  | nil => exact (List.map_eq_nil_iff.mp keys.symm).symm
  | cons entry slots ih =>
    obtain ⟨key, value⟩ := entry
    obtain ⟨⟨key', other⟩, others, rfl, named, later⟩ := List.map_eq_cons_iff.mp keys.symm
    obtain rfl : key' = key := named
    obtain ⟨fresh, distinctLater⟩ := List.nodup_cons.mp distinct
    have first := same key' List.mem_cons_self
    rw [List.lookup_cons_self, List.lookup_cons_self] at first
    obtain rfl : value = other := first
    refine congrArg _ (ih later.symm distinctLater fun attr member => ?_)
    have different : attr ≠ key' := fun equal => fresh (equal ▸ member)
    have rest := same attr (List.mem_cons_of_mem _ member)
    rwa [List.lookup_cons, List.lookup_cons, beq_false_of_ne different] at rest

/-- An instance is told by its entity, the attributes that have a value, and their values. -/
theorem eq_of_keys {inst other : Instance} (entity : inst.entity = other.entity) (keys : inst.keys = other.keys)
    (distinct : inst.keys.Nodup) (same : ∀ attr, inst.slot attr = other.slot attr) : inst = other := by
  obtain ⟨name, slots⟩ := inst
  obtain ⟨_, others⟩ := other
  obtain rfl := entity
  exact congrArg _ (slots_ext keys distinct fun attr _ => same attr)

end Instance

namespace Population

variable {model : Model} {population : Population}

/-- The attributes of each instance that have been given a value. -/
def keys (population : Population) : List (List Name) :=
  population.instances.map (·.keys)

theorem keys_update_getElem? (population : Population) (id : Nat) (attr : Name) (change : Slot → Slot) (i : Nat) :
    (population.update id attr change).keys[i]? =
      population.instances[i]?.map fun inst =>
        if id = i then (inst.put attr (change (inst.slot attr))).keys else inst.keys := by
  unfold keys update
  rw [List.getElem?_map, List.getElem?_modify]
  by_cases same : id = i
  · simp only [same, if_true]
    exact Option.map_map ..
  · simp [same]

/-- A change to an attribute that has a value gives a value to no other. -/
theorem keys_update_of_mem {id : Nat} {attr : Name}
    (present : ∀ keys, population.keys[id]? = some keys → attr ∈ keys) (change : Slot → Slot) :
    (population.update id attr change).keys = population.keys := by
  apply List.ext_getElem?
  intro i
  rw [keys_update_getElem?, keys, List.getElem?_map]
  apply Option.map_congr
  intro inst here
  split
  · rename_i same
    subst same
    have listed := present inst.keys (by rw [keys, List.getElem?_map, here]; rfl)
    exact Instance.map_insert_of_mem listed _
  · rfl

theorem keys_performed {after : Population} {id : Nat} {writes : List Write}
    (present : ∀ write ∈ writes, ∀ keys, population.keys[write.target]? = some keys → write.attr ∈ keys)
    (performed : after.instances = writes.foldl (Write.perform id) population.instances) :
    after.keys = population.keys := by
  induction writes generalizing population with
  | nil => exact congrArg (List.map Instance.keys) performed
  | cons write writes ih =>
    have first := keys_update_of_mem (present write List.mem_cons_self) (receive write.appends id)
    have later := @ih (population.update write.target write.attr (receive write.appends id))
      (fun other member => by rw [first]; exact present other (List.mem_cons_of_mem _ member)) performed
    exact later.trans first

theorem mem_keys_of_value {a i : Nat} {n : Name} (listed : i ∈ (population.value a n).ids) {keys : List Name}
    (here : population.keys[a]? = some keys) : n ∈ keys := by
  rw [Population.keys, List.getElem?_map] at here
  obtain ⟨inst, there, rfl⟩ := Option.map_eq_some_iff.mp here
  rw [value, there] at listed
  exact List.mem_map_of_mem (Instance.mem_slots_of_listed listed)

theorem nodup_keys_update (before : ∀ keys ∈ population.keys, keys.Nodup) (id : Nat) (attr : Name)
    (change : Slot → Slot) {keys : List Name} (member : keys ∈ (population.update id attr change).keys) :
    keys.Nodup := by
  obtain ⟨i, here⟩ := List.mem_iff_getElem?.mp member
  rw [keys_update_getElem?] at here
  obtain ⟨inst, there, rfl⟩ := Option.map_eq_some_iff.mp here
  have distinct := before inst.keys (List.mem_map_of_mem (List.mem_of_getElem? there))
  split
  · exact Instance.nodup_map_insert distinct ..
  · exact distinct

/-- No instance has two values for one attribute. -/
theorem after_nodup_keys (model : Model) (calls : List Call) : ∀ keys ∈ (after model calls).keys, keys.Nodup := by
  refine @after_induction model (fun population => ∀ keys ∈ population.keys, keys.Nodup)
    (fun _ none => by cases none) ?_ calls
  intro population next before step keys member
  cases step with
  | create found concrete =>
    rw [Population.keys, List.map_append] at member
    obtain old | new := List.mem_append.mp member
    · exact before keys old
    · rw [List.mem_singleton.mp new]
      exact List.nodup_nil
  | store here seen fits known => exact nodup_keys_update before _ _ _ member
  | wire step =>
    cases step with
    | note notices => exact before keys member
    | receive runner ruled listed there inherits => exact nodup_keys_update before _ _ _ member

/-- Populations with the same entities, the same attributes given and the same values have the same instances. -/
theorem instances_ext {other : Population} (entities : population.entities = other.entities)
    (keys : population.keys = other.keys) (distinct : ∀ keys ∈ population.keys, keys.Nodup)
    (value : population.value = other.value) : population.instances = other.instances := by
  have length : population.instances.length = other.instances.length := by
    rw [← length_entities, entities, length_entities]
  apply List.ext_getElem length
  intro i here there
  have entityAt := congrArg (·[i]?) entities
  have keysAt := congrArg (·[i]?) keys
  have valueAt attr := congrFun (congrFun value i) attr
  simp only [Population.entities, Population.keys, Population.value, List.getElem?_map, List.getElem?_eq_getElem here,
    List.getElem?_eq_getElem there] at entityAt keysAt valueAt
  exact Instance.eq_of_keys (Option.some.inj entityAt) (Option.some.inj keysAt)
    (distinct _ (List.mem_map_of_mem (List.getElem_mem here))) valueAt

/-- Writes that have been performed change nothing when they are performed again. -/
theorem instances_performed_again {wired again : Population} {id : Nat} {writes : List Write}
    (known : ∀ write ∈ writes, write.target < population.entities.length)
    (distinct : ∀ keys ∈ wired.keys, keys.Nodup)
    (performed : wired.instances = writes.foldl (Write.perform id) population.instances)
    (repeated : again.instances = writes.foldl (Write.perform id) wired.instances) :
    again.instances = wired.instances := by
  have values := value_performed known performed
  have entities := entities_performed performed
  have present : ∀ write ∈ writes, ∀ keys, wired.keys[write.target]? = some keys → write.attr ∈ keys := by
    intro write member keys there
    have listed : id ∈ (writes.foldl (Write.run id) population.value write.target write.attr).ids :=
      Write.mem_ids_foldl_run ⟨write, member, rfl, rfl⟩ population.value
    rw [← values] at listed
    exact mem_keys_of_value listed there
  have keys := keys_performed present repeated
  have value := value_performed (by rw [entities]; exact known) repeated
  rw [values, Write.foldl_run_foldl_run, ← values] at value
  exact instances_ext (entities_performed repeated) keys (by rw [keys]; exact distinct) value

/-! ### Wiring once and again -/

/-- A rule of instance `id` gives it to attribute `n` of instance `t`: its forward attribute refers to `t`, which is of
the owning entity. -/
def Reaches (model : Model) (population : Population) (id t : Nat) (n : Name) : Prop :=
  ∃ entity rules, population.entityOf id = .ok entity ∧ model.wiringRules entity = .ok rules ∧
    ∃ rule ∈ rules, rule.ownerAttr = n ∧
      (∃ slot, population.get id rule.attr = .ok slot ∧ slot.contains t = true) ∧
      ∃ other, population.entityOf t = .ok other ∧ model.isSubtypeOf other rule.owner = .ok true

theorem reaches_iff {id t : Nat} {n entity : Name} {rules : List WiringRule}
    (here : population.entities[id]? = some entity) (ruled : model.wiringRules entity = .ok rules) :
    population.Reaches model id t n ↔
      ∃ write ∈ writesOf model population id rules, write.target = t ∧ write.attr = n := by
  have read : ∀ rule : WiringRule, population.get id rule.attr = .ok (population.value id rule.attr) :=
    fun rule => get_eq_value (List.getElem?_eq_some_iff.mp here).1 rule.attr
  constructor
  · rintro ⟨_, _, runner, ruled', rule, listed, named, ⟨slot, shown, refers⟩, other, there, inherits⟩
    rw [entityOf_eq_ok_iff, here] at runner
    cases runner
    rw [ruled] at ruled'
    cases ruled'
    rw [read rule] at shown
    cases shown
    have written : (⟨t, n, rule.action.appends⟩ : Write) ∈ writesOf model population id rules :=
      mem_writesOf.mpr ⟨rule, listed, List.contains_iff_mem.mp refers, named.symm, rfl, other,
        entityOf_eq_ok_iff.mp there, inherits⟩
    exact ⟨_, written, rfl, rfl⟩
  · rintro ⟨write, member, rfl, rfl⟩
    obtain ⟨rule, listed, refers, named, _, other, there, inherits⟩ := mem_writesOf.mp member
    exact ⟨entity, rules, entityOf_eq_ok_iff.mpr here, ruled, rule, listed, named.symm,
      ⟨_, read rule, List.contains_iff_mem.mpr refers⟩, other, entityOf_eq_ok_iff.mpr there, inherits⟩

theorem get_congr {other : Population} (entities : population.entities = other.entities) {t : Nat} {n : Name}
    (value : population.value t n = other.value t n) : population.get t n = other.get t n := by
  by_cases known : t < population.entities.length
  · have knownOther : t < other.entities.length := by rw [← entities]; exact known
    rw [get_eq_value known, get_eq_value knownOther, value]
  · have unknown {shown : Population} (absent : ¬ t < shown.entities.length) :
        shown.get t n = .error (.unknownInstance t) := by
      rw [length_entities] at absent
      simp [Population.get, instance?, absent, Except.map]
    rw [unknown known, unknown (by rw [← entities]; exact known)]

/-- The writes of an instance that has just been wired are those it was wired with. -/
theorem writesOf_performed (free : model.StoredNamesFree) {wired : Population} {id : Nat}
    {entity : Name} {rules : List WiringRule} {e : Entity} {chain : List Entity}
    (here : population.entities[id]? = some entity) (placed : model.Placed entity e chain)
    (ruled : model.wiringRules entity = .ok rules)
    (performed : wired.instances = (writesOf model population id rules).foldl (Write.perform id) population.instances) :
    writesOf model wired id rules = writesOf model population id rules := by
  have kept : ∀ rule ∈ rules, wired.value id rule.attr = population.value id rule.attr := by
    intro rule listed
    rw [value_performed (fun _ => lt_of_mem_writesOf) performed]
    apply Write.foldl_run_of_missed
    intro write member
    exact forward_of_writes free here placed ruled member listed
  unfold writesOf
  rw [entities_performed performed]
  apply List.flatMap_congr
  intro rule listed
  rw [kept rule listed]

theorem exists_wire (finished : model.Finished) (inOrder : population.InOrder model) {id : Nat}
    (known : id < population.instances.length) : ∃ wired, population.wire model id = (.ok (), wired) :=
  ⟨_, Prod.ext (inOrder.wire_succeeds finished known) rfl⟩

/-- Wiring an instance changes only what its rules reach, all of which shows the instance afterwards. Wiring it again
leaves all instances as they are. -/
theorem wire_effect (finished : model.Finished) (free : model.StoredNamesFree) {calls : List Call}
    (reached : after model calls = population) {id : Nat} (known : id < population.instances.length) :
    ∃ wired, population.wire model id = (.ok (), wired) ∧ wired.entities = population.entities ∧
      (∀ t n, wired.get t n ≠ population.get t n → population.Reaches model id t n) ∧
      (∀ t n, population.Reaches model id t n → ∃ slot, wired.get t n = .ok slot ∧ slot.contains id = true) ∧
      ∃ again, wired.wire model id = (.ok (), again) ∧ again.instances = wired.instances := by
  have inOrder := reached ▸ after_inOrder finished calls
  obtain ⟨entity, here⟩ : ∃ entity, population.entities[id]? = some entity :=
    ⟨_, List.getElem?_eq_getElem (by rw [length_entities]; exact known)⟩
  obtain ⟨e, chain, placed⟩ := inOrder.exists_placed finished here
  obtain ⟨wired, ran⟩ := exists_wire finished inOrder known
  obtain ⟨rules, ruled, performed⟩ := wire_writes free here placed ran
  have entities := entities_performed performed
  have value := value_performed (fun _ => lt_of_mem_writesOf) performed
  refine ⟨wired, ran, entities, ?_, ?_, ?_⟩
  · intro t n changed
    rw [reaches_iff here ruled]
    by_contra missed
    have same : wired.value t n = population.value t n := by
      rw [value]
      exact Write.foldl_run_of_missed fun write member hit named => missed ⟨write, member, hit, named⟩
    exact changed (get_congr entities same)
  · intro t n reaches
    obtain ⟨write, member, rfl, rfl⟩ := (reaches_iff here ruled).mp reaches
    have there : write.target < wired.entities.length := by
      rw [entities]
      exact lt_of_mem_writesOf member
    refine ⟨_, get_eq_value there write.attr, List.contains_iff_mem.mpr ?_⟩
    rw [value]
    exact Write.mem_ids_foldl_run ⟨write, member, rfl, rfl⟩ population.value
  · have reachedWired : after model (calls ++ [.wire id]) = wired := by
      rw [after, List.foldl_append, ← after, reached]
      exact congrArg Prod.snd ran
    have knownWired : id < wired.instances.length := by
      rw [← length_entities, entities, length_entities]
      exact known
    have hereWired : wired.entities[id]? = some entity := by rw [entities, here]
    obtain ⟨again, ranAgain⟩ := exists_wire finished (reachedWired ▸ after_inOrder finished _) knownWired
    obtain ⟨_, ruledAgain, repeated⟩ := wire_writes free hereWired placed ranAgain
    rw [ruled] at ruledAgain
    cases ruledAgain
    rw [writesOf_performed free here placed ruled performed] at repeated
    refine ⟨again, ranAgain, instances_performed_again (fun _ => lt_of_mem_writesOf) ?_ performed repeated⟩
    exact reachedWired ▸ after_nodup_keys model _

/-- A folder shows one of the notes in it and a binder shows all, under the same name. A note is a binder itself. -/
def cabinetSchema : Schema where
  name := "cabinet"
  declarations :=
    [.entity
        { name := "folder"
          inverse := [{ name := .simple "notes", entity := "note", forAttr := "files" }] },
      .entity
        { name := "binder"
          subtypeOf := ["folder"]
          inverse :=
            [{ name := .qualified "folder" "notes", aggregate := some { kind := .set }, entity := "note",
               forAttr := "files" }] },
      .entity
        { name := "note"
          subtypeOf := ["binder"]
          explicit := [{ names := [.simple "files"], type := .collection { kind := .list } (.named "folder") }] }]

def cabinet : Model :=
  let model := (Draft.after {} [.schema cabinetSchema]).model
  { model with memberships := Model.membershipsOf model.selects }

theorem cabinet_finished : cabinet.Finished :=
  ⟨{}, [.schema cabinetSchema], Draft.finish_of_checks (by decide +kernel) (by decide +kernel) (by decide +kernel)
    (fun strict => absurd strict (by decide +kernel)) (by decide +kernel)⟩

/-- A binder, a note in the binder and in itself, and a second note that takes its place in the binder. -/
def cabinetCalls : List Call :=
  [.create "binder", .construct "note" [("files", .many [0, 1])], .construct "note" [("files", .many [0])]]

/-- Wired once more, the first note takes its place back, as the only note and as one of several. -/
theorem cabinet_note_takes_place :
    cabinet.Finished ∧ cabinet.StoredNamesFree ∧ (after cabinet cabinetCalls).instances.length = 3 ∧
      (after cabinet cabinetCalls).get 0 "notes" = .ok (.many [2, 2]) ∧
      (after cabinet cabinetCalls).Reaches cabinet 1 0 "notes" ∧
      ∃ wired slot again, (after cabinet cabinetCalls).wire cabinet 1 = (.ok (), wired) ∧
        wired.get 0 "notes" = .ok slot ∧ slot.contains 1 = true ∧ slot = .many [1, 1] ∧
        wired.wire cabinet 1 = (.ok (), again) ∧ again.instances = wired.instances := by
  have free : cabinet.StoredNamesFree := by decide +kernel
  have length : (after cabinet cabinetCalls).instances.length = 3 := by decide +kernel
  have before : (after cabinet cabinetCalls).get 0 "notes" = .ok (.many [2, 2]) := by decide +kernel
  have shown : ((after cabinet cabinetCalls).wire cabinet 1).2.get 0 "notes" = .ok (.many [1, 1]) := by decide +kernel
  obtain ⟨wired, ran, _, frame, shows, again, ranAgain, same⟩ :=
    wire_effect cabinet_finished free (rfl : after cabinet cabinetCalls = _)
      (show 1 < (after cabinet cabinetCalls).instances.length by rw [length]; decide)
  rw [ran] at shown
  have reaches := frame 0 "notes" (by rw [shown, before]; decide)
  obtain ⟨slot, showsNote, contains⟩ := shows 0 "notes" reaches
  refine ⟨cabinet_finished, free, length, before, reaches, wired, slot, again, ran, showsNote, contains, ?_, ranAgain,
    same⟩
  rw [shown] at showsNote
  exact (Except.ok.inj showsNote).symm

end Population

end Express
