import Express.Proofs.Moves
import Express.Proofs.Writes
import Mathlib.Order.Bounds.Basic

/-!
# Inverse attributes as a reverse view

In a population that has only been created and constructed, an inverse attribute shows exactly the instances that refer
to its owner (`inverse_shows_referrers`). The invariant is kept by one construction, which wires the newest instance.
-/

namespace Express

/-! ### What a slot shows -/

namespace Slot

/-- The slot shows the instances that refer to its owner: several of them in order, each once, or the latest one. -/
def Shows (slot : Slot) (several : Bool) (refers : Nat → Prop) : Prop :=
  match several with
  | true => (∀ id, slot ≠ .one id) ∧ slot.ids.Pairwise (· < ·) ∧ ∀ b, b ∈ slot.ids ↔ refers b
  | false => (slot = .empty ∧ ∀ b, ¬ refers b) ∨ ∃ b, slot = .one b ∧ IsGreatest {b | refers b} b

theorem shows_empty {several : Bool} {refers : Nat → Prop} (none : ∀ b, ¬ refers b) : Slot.empty.Shows several refers := by
  cases several with
  | true =>
    refine ⟨fun id same => ?_, List.Pairwise.nil, fun b => ⟨fun listed => ?_, fun h => (none b h).elim⟩⟩
    · cases same
    · cases listed
  | false => exact .inl ⟨rfl, none⟩

theorem Shows.congr {slot : Slot} {several : Bool} {refers refers' : Nat → Prop} (shows : slot.Shows several refers)
    (same : ∀ b, refers' b ↔ refers b) : slot.Shows several refers' := by
  have equal : refers' = refers := funext fun b => propext (same b)
  rw [equal]
  exact shows

theorem Shows.receive {slot : Slot} {several : Bool} {refers : Nat → Prop} {id : Nat} (shows : slot.Shows several refers)
    (below : ∀ b, refers b → b < id) :
    (Population.receive several id slot).Shows several fun b => refers b ∨ b = id := by
  cases several with
  | false => exact .inr ⟨id, rfl, .inr rfl, fun b h => h.elim (fun old => Nat.le_of_lt (below b old)) Nat.le_of_eq⟩
  | true =>
    obtain ⟨shape, ordered, listed⟩ := shows
    have smaller : ∀ b ∈ slot.ids, b < id := fun b member => below b ((listed b).mp member)
    have ids : (slot.append id).ids = slot.ids ++ [id] := by
      cases slot with
      | empty => rfl
      | one other => exact (shape other rfl).elim
      | many ids =>
        have fresh : id ∉ ids := fun member => Nat.lt_irrefl id (smaller id member)
        simp [append, Slot.ids, fresh]
    refine ⟨fun other same => ?_, ?_, fun b => ?_⟩
    · change slot.append id = .one other at same
      cases slot with
      | empty => cases same
      | one old => cases same
      | many ids => rw [append] at same; split at same <;> cases same
    · change (slot.append id).ids.Pairwise _
      rw [ids, List.pairwise_append]
      exact ⟨ordered, List.pairwise_singleton _ _, fun b member c last => by
        rw [List.mem_singleton.mp last]
        exact smaller b member⟩
    · change b ∈ (slot.append id).ids ↔ _
      rw [ids, List.mem_append, List.mem_singleton, listed]

end Slot

namespace Population

variable {model : Model}

/-- Instance `b` refers to `a` by an attribute whose counterpart is the inverse attribute `owner.attr`. -/
def Refers (model : Model) (population : Population) (owner attr : Name) (b a : Nat) : Prop :=
  ∃ entity rules, population.entityOf b = .ok entity ∧ model.wiringRules entity = .ok rules ∧
    ∃ rule ∈ rules, rule.owner = owner ∧ rule.ownerAttr = attr ∧
      ∃ slot, population.get b rule.attr = .ok slot ∧ slot.contains a = true

theorem refers_iff {population : Population} {owner attr : Name} {b a : Nat} :
    population.Refers model owner attr b a ↔ ∃ entity rules, population.entities[b]? = some entity ∧
      model.wiringRules entity = .ok rules ∧
      ∃ rule ∈ rules, rule.owner = owner ∧ rule.ownerAttr = attr ∧ a ∈ (population.value b rule.attr).ids := by
  unfold Refers
  refine exists₂_congr fun entity rules => ?_
  rw [entityOf_eq_ok_iff]
  refine and_congr_right fun here => and_congr_right fun _ => exists_congr fun rule => ?_
  have known : b < population.entities.length := (List.getElem?_eq_some_iff.mp here).1
  simp [get_eq_ok_iff, known, Slot.contains]

/-- Populations that successful creations and constructions lead to. -/
inductive Grown (model : Model) : Population → Prop where
  | empty : Grown model {}
  | create {population after : Population} {entity : Name} {id : Nat} (before : Grown model population)
      (made : population.create model entity = (.ok id, after)) : Grown model after
  | construct {population after : Population} {entity : Name} {values : List (Name × Slot)} {id : Nat}
      (before : Grown model population) (made : population.construct model entity values = (.ok id, after)) :
      Grown model after

theorem Grown.construct_of_ok {population : Population} (before : Grown model population) (id : Nat) (entity : Name)
    (values : List (Name × Slot)) (made : (population.construct model entity values).1 = .ok id) :
    Grown model (population.construct model entity values).2 :=
  before.construct (Prod.ext made rfl)

/-- Every instance is of an entity and refers to instances only, and every inverse attribute shows its referrers. -/
structure Mirrored (model : Model) (population : Population) : Prop where
  known : ∀ entity ∈ population.entities, ∃ e, model.find? entity = some (.entity e)
  bounded : ∀ id attr, ∀ i ∈ (population.value id attr).ids, i < population.entities.length
  reversed : ∀ {a entity e chain}, population.entities[a]? = some entity → model.Placed entity e chain →
    ∀ owner ∈ chain, ∀ attr ∈ owner.attributes, attr.inverse = true →
      (population.value a attr.name).Shows attr.type.isCollection
        (population.Refers model owner.name attr.name · a)

theorem mirrored_empty : Mirrored model {} where
  known := fun entity member => by cases member
  bounded := fun id attr i listed => by cases listed
  reversed := fun here => by cases here

/-! ### Creating -/

/-- A new instance has no values, so it refers to nothing. -/
theorem refers_create {population after : Population} {entity owner attr : Name} {id b a : Nat}
    (made : population.create model entity = (.ok id, after)) :
    after.Refers model owner attr b a ↔ population.Refers model owner attr b a := by
  obtain ⟨_, _, _, entities, value⟩ := create_ok made
  rw [refers_iff, refers_iff, value, entities]
  refine exists₂_congr fun other rules => ?_
  by_cases old : b < population.entities.length
  · rw [List.getElem?_append_left old]
  · have none := value_of_length_le (Nat.le_of_not_lt old)
    constructor
    · rintro ⟨_, _, rule, _, _, _, listed⟩
      rw [none] at listed
      cases listed
    · rintro ⟨there, _⟩
      exact (old (List.getElem?_eq_some_iff.mp there).1).elim

theorem Mirrored.create {population after : Population} {entity : Name} {id : Nat} (before : Mirrored model population)
    (finished : model.Finished) (made : population.create model entity = (.ok id, after)) : Mirrored model after := by
  obtain ⟨found, read, _, entities, value⟩ := create_ok made
  have named : found.name = entity := finished.indexed.find?_name read
  refine ⟨?_, ?_, ?_⟩
  · intro other member
    rw [entities] at member
    rcases List.mem_append.mp member with old | new
    · exact before.known other old
    · rw [List.mem_singleton.mp new, named]
      exact ⟨found, read⟩
  · intro i attr j listed
    rw [value] at listed
    rw [entities, List.length_append]
    exact Nat.lt_add_right 1 (before.bounded i attr j listed)
  · intro a other e chain here placed owner inChain attr own inverse
    rw [value]
    by_cases old : a < population.entities.length
    · rw [entities, List.getElem?_append_left old] at here
      exact (before.reversed here placed owner inChain attr own inverse).congr fun b => refers_create made
    · rw [value_of_length_le (Nat.le_of_not_lt old)]
      refine Slot.shows_empty fun b refers => ?_
      obtain ⟨_, _, _, _, rule, _, _, _, listed⟩ := refers_iff.mp ((refers_create made).mp refers)
      exact old (before.bounded b rule.attr a listed)

/-! ### Filling -/

/-- Setting values of an instance changes none of another instance and none of another name than a stored one. -/
structure Filled (model : Model) (id : Nat) (entity : Name) (before after : Population) : Prop where
  entities : after.entities = before.entities
  others : ∀ i n, i ≠ id → after.value i n = before.value i n
  stored : ∀ n, (∀ a, model.forwardAttribute entity n ≠ .ok (some a)) → after.value id n = before.value id n
  bounded : ∀ i n, ∀ j ∈ (after.value i n).ids, j < after.entities.length

theorem Filled.set {before filled after : Population} {id : Nat} {entity attr : Name} {slot : Slot}
    (here : before.entities[id]? = some entity) (filling : Filled model id entity before filled)
    (setting : filled.set model id attr slot = (.ok (), after)) : Filled model id entity before after := by
  obtain ⟨own, there, ⟨a, seen⟩, known, entities, value⟩ := set_ok setting
  rw [filling.entities, here] at there
  cases there
  refine ⟨entities.trans filling.entities, ?_, ?_, ?_⟩
  · intro i n different
    rw [value, assign_other fun same => (different same).elim]
    exact filling.others i n different
  · intro n unknown
    rw [value, assign_other fun _ named => unknown a (by rw [named]; exact seen)]
    exact filling.stored n unknown
  · intro i n j listed
    rw [entities]
    rw [value] at listed
    by_cases hit : i = id ∧ n = attr
    · obtain ⟨rfl, rfl⟩ := hit
      rw [assign_self] at listed
      exact known j listed
    · rw [assign_other fun same named => hit ⟨same, named⟩] at listed
      exact filling.bounded i n j listed

theorem filled_of_runAll {before after : Population} {id : Nat} {entity : Name} {values : List (Name × Slot)}
    (here : before.entities[id]? = some entity)
    (bounded : ∀ i n, ∀ j ∈ (before.value i n).ids, j < before.entities.length)
    (ran : runAll (fun population (attr, value) => population.set model id attr value) before values = (.ok (), after)) :
    Filled model id entity before after := by
  have run : ∀ {filled : Population}, Filled model id entity before filled →
      runAll (fun population (attr, value) => population.set model id attr value) filled values = (.ok (), after) →
      Filled model id entity before after := by
    clear ran
    induction values with
    | nil =>
      intro filled filling ran
      cases ran
      exact filling
    | cons value values ih =>
      intro filled filling ran
      rw [runAll] at ran
      split at ran
      · rename_i next setting
        exact ih (filling.set here setting) ran
      · cases ran
  exact run ⟨rfl, fun _ _ _ => rfl, fun _ _ => rfl, bounded⟩ ran

/-! ### Wiring the newest instance -/

theorem bounded_of_writes {id bound : Nat} {writes : List Write} {values : Nat → Name → Slot} (known : id < bound)
    (bounded : ∀ i n, ∀ j ∈ (values i n).ids, j < bound) :
    ∀ i n, ∀ j ∈ (writes.foldl (Write.run id) values i n).ids, j < bound := by
  induction writes generalizing values with
  | nil => exact bounded
  | cons write writes ih =>
    refine ih fun i n j listed => ?_
    by_cases hit : i = write.target ∧ n = write.attr
    · obtain ⟨rfl, rfl⟩ := hit
      rw [Write.run, assign_self] at listed
      rcases mem_ids_receive listed with old | rfl
      · exact bounded _ _ j old
      · exact known
    · rw [Write.run, assign_other fun same named => hit ⟨same, named⟩] at listed
      exact bounded i n j listed

/-! ### Constructing -/

/-- An instance that is constructed: first it is there, then it has values, then it is wired. -/
structure Construction (model : Model) (id : Nat) (entity : Name) (rules : List WiringRule)
    (created filled after : Population) : Prop where
  newest : created.entities.length = id + 1
  here : created.entities[id]? = some entity
  bare : ∀ n, created.value id n = .empty
  filling : Filled model id entity created filled
  ruled : model.wiringRules entity = .ok rules
  entities : after.entities = filled.entities
  value : after.value = (writesOf model filled id rules).foldl (Write.run id) filled.value

namespace Construction

variable {id : Nat} {entity : Name} {rules : List WiringRule} {created filled after : Population}

theorem entities_eq (made : Construction model id entity rules created filled after) :
    after.entities = created.entities :=
  made.entities.trans made.filling.entities

/-- Stored values are those that have been set. -/
theorem value_of_stored (made : Construction model id entity rules created filled after)
    (free : model.InverseNamesFree) {e : Entity} {chain : List Entity} (placed : model.Placed entity e chain) {b : Nat}
    {other : Name} {e' : Entity} {chain' : List Entity} (there : created.entities[b]? = some other)
    (owner : model.Placed other e' chain') {x : Entity} {s : Attribute} (inChain : x ∈ chain')
    (own : s ∈ x.attributes) (stored : s.isStored = true) : after.value b s.name = filled.value b s.name := by
  rw [made.value]
  refine Write.foldl_run_of_missed fun write member => ?_
  exact stored_of_writes free.storedNamesFree placed made.ruled (by rw [made.filling.entities]; exact there) owner inChain own stored
    member

/-- Setting values leaves inverse attributes alone. -/
theorem filling_inverse (made : Construction model id entity rules created filled after)
    (free : model.InverseNamesFree) {a : Nat} {other : Name} {e : Entity} {chain : List Entity}
    (there : created.entities[a]? = some other) (placed : model.Placed other e chain) {owner : Entity} {attr : Attribute}
    (inChain : owner ∈ chain) (own : attr ∈ owner.attributes) (inverse : attr.inverse = true) :
    filled.value a attr.name = created.value a attr.name := by
  by_cases new : a = id
  · subst new
    rw [made.here] at there
    cases there
    refine made.filling.stored _ fun forward seen => ?_
    obtain ⟨x, inChain', s, own', named, stored⟩ := (Model.forwardAttribute_some_iff placed.read).mp ⟨forward, seen⟩
    exact placed.inverse_ne_stored free.storedNamesFree inChain inChain' own own' inverse stored named.symm
  · exact made.filling.others a _ new

theorem refers_created_new (made : Construction model id entity rules created filled after) {owner attr : Name}
    {a : Nat} : ¬ created.Refers model owner attr id a := by
  intro refers
  obtain ⟨_, _, _, _, rule, _, _, _, listed⟩ := refers_iff.mp refers
  rw [made.bare] at listed
  cases listed

/-- An older instance refers to what it referred to before. -/
theorem refers_old (made : Construction model id entity rules created filled after) (finished : model.Finished)
    (free : model.InverseNamesFree) (known : ∀ entity ∈ created.entities, ∃ e, model.find? entity = some (.entity e))
    {owner attr : Name} {b a : Nat} (old : b ≠ id) :
    after.Refers model owner attr b a ↔ created.Refers model owner attr b a := by
  obtain ⟨e, found⟩ := known entity (List.mem_of_getElem? made.here)
  obtain ⟨chain, placed⟩ := Model.exists_placed finished found
  rw [refers_iff, refers_iff, made.entities_eq]
  refine exists₂_congr fun other rules' => and_congr_right fun there => and_congr_right fun ruled => ?_
  refine exists_congr fun rule => and_congr_right fun listed => and_congr_right fun _ => and_congr_right fun _ => ?_
  obtain ⟨e', found'⟩ := known other (List.mem_of_getElem? there)
  obtain ⟨chain', placed'⟩ := Model.exists_placed finished found'
  obtain ⟨x, inChain, s, own, named, stored⟩ := placed'.rule_stored ruled listed
  rw [← named, made.value_of_stored free placed there placed' inChain own stored, made.filling.others b _ old]

/-- The new instance refers to exactly what it writes to. -/
theorem refers_new (made : Construction model id entity rules created filled after) (free : model.InverseNamesFree)
    {e : Entity} {chain : List Entity} (placed : model.Placed entity e chain) {a : Nat}
    {other : Name} {e' : Entity} {chain' : List Entity} (there : created.entities[a]? = some other)
    (target : model.Placed other e' chain') {owner : Entity} {attr : Attribute} (inChain : owner ∈ chain')
    (own : attr ∈ owner.attributes) (inverse : attr.inverse = true) :
    after.Refers model owner.name attr.name id a ↔
      ∃ write ∈ writesOf model filled id rules, write.target = a ∧ write.attr = attr.name := by
  have same : ∀ rule ∈ rules, after.value id rule.attr = filled.value id rule.attr := by
    intro rule listed
    obtain ⟨x, inChain, s, own, named, stored⟩ := placed.rule_stored made.ruled listed
    rw [← named]
    exact made.value_of_stored free placed made.here placed inChain own stored
  rw [refers_iff, made.entities_eq]
  constructor
  · rintro ⟨self, rules', here, ruled, rule, listed, ownerNamed, attrNamed, refers⟩
    rw [made.here] at here
    cases here
    rw [made.ruled] at ruled
    cases ruled
    rw [same rule listed] at refers
    refine ⟨⟨a, rule.ownerAttr, rule.action.appends⟩, mem_writesOf.mpr ⟨rule, listed, refers, rfl, rfl, other, ?_, ?_⟩,
      rfl, attrNamed⟩
    · rw [made.filling.entities]
      exact there
    · exact (Model.isSubtypeOf_iff target.read).mpr ⟨owner, inChain, ownerNamed.symm⟩
  · rintro ⟨write, member, rfl, named⟩
    obtain ⟨rule, listed, refers, attrNamed, x, inChain', ownerNamed, a, own', inverse', called, _⟩ :=
      inverse_of_write placed made.ruled member (by rw [made.filling.entities]; exact there) target
    obtain ⟨rfl, rfl⟩ := target.eq_of_clashes free inChain' inChain own' own
      ⟨called.trans named, .inl ⟨inverse', .inl inverse⟩⟩
    refine ⟨entity, rules, made.here, made.ruled, rule, listed, ownerNamed.symm, attrNamed.symm.trans named, ?_⟩
    rw [same rule listed]
    exact refers

theorem mirrored (made : Construction model id entity rules created filled after) (finished : model.Finished)
    (free : model.InverseNamesFree) (before : Mirrored model created) : Mirrored model after := by
  obtain ⟨e, found⟩ := before.known entity (List.mem_of_getElem? made.here)
  obtain ⟨chain, runner⟩ := Model.exists_placed finished found
  refine ⟨?_, ?_, ?_⟩
  · rw [made.entities_eq]
    exact before.known
  · rw [made.value, made.entities]
    refine bounded_of_writes ?_ made.filling.bounded
    rw [made.filling.entities, made.newest]
    exact Nat.lt_succ_self id
  · intro a other e' chain' there target owner inChain attr own inverse
    rw [made.entities_eq] at there
    have shown := before.reversed there target owner inChain attr own inverse
    have untouched := made.filling_inverse free there target inChain own inverse
    have new := made.refers_new free runner there target inChain own inverse
    have old : ∀ b, b ≠ id → (after.Refers model owner.name attr.name b a ↔ created.Refers model owner.name attr.name b a) :=
      fun b => made.refers_old finished free before.known
    rw [made.value]
    by_cases hit : ∃ write ∈ writesOf model filled id rules, write.target = a ∧ write.attr = attr.name
    · have agree : ∀ write ∈ writesOf model filled id rules, write.target = a → write.attr = attr.name →
          write.appends = attr.type.isCollection := by
        rintro write member rfl named
        obtain ⟨_, _, _, _, x, inChain', _, a, own', inverse', called, collects⟩ :=
          inverse_of_write runner made.ruled member (by rw [made.filling.entities]; exact there) target
        obtain ⟨_, rfl⟩ := target.eq_of_clashes free inChain' inChain own' own
          ⟨called.trans named, .inl ⟨inverse', .inl inverse⟩⟩
        exact collects
      rw [Write.foldl_run_of_hit hit agree, untouched]
      have below : ∀ b, created.Refers model owner.name attr.name b a → b < id := by
        intro b refers
        obtain ⟨_, _, known, _⟩ := refers_iff.mp refers
        have bound := (List.getElem?_eq_some_iff.mp known).1
        have different : b ≠ id := fun same => made.refers_created_new (same ▸ refers)
        rw [made.newest] at bound
        omega
      refine (shown.receive below).congr fun b => ?_
      by_cases same : b = id
      · subst same
        exact ⟨fun _ => .inr rfl, fun _ => new.mpr hit⟩
      · rw [old b same]
        exact ⟨.inl, fun h => h.resolve_right same⟩
    · have missed : ∀ write ∈ writesOf model filled id rules, write.target = a → write.attr ≠ attr.name :=
        fun write member own named => hit ⟨write, member, own, named⟩
      rw [Write.foldl_run_of_missed missed, untouched]
      refine shown.congr fun b => ?_
      by_cases same : b = id
      · subst same
        exact ⟨fun refers => (hit (new.mp refers)).elim, fun refers => (made.refers_created_new refers).elim⟩
      · exact old b same

end Construction

theorem exists_construction (finished : model.Finished) (free : model.InverseNamesFree) {population after : Population}
    {entity : Name} {values : List (Name × Slot)} {id : Nat} (before : Mirrored model population)
    (made : population.construct model entity values = (.ok id, after)) :
    ∃ created filled rules, Mirrored model created ∧ Construction model id entity rules created filled after := by
  obtain ⟨created, filled, creating, filling, wiring⟩ := construct_ok made
  obtain ⟨e, found, rfl, entities, value⟩ := create_ok creating
  have named : e.name = entity := finished.indexed.find?_name found
  obtain ⟨chain, placed⟩ := Model.exists_placed finished found
  have mirrored := before.create finished creating
  have here : created.entities[population.entities.length]? = some entity := by
    rw [entities, named]
    exact List.getElem?_concat_length
  have filled' := filled_of_runAll here mirrored.bounded filling
  obtain ⟨rules, ruled, performed⟩ :=
    wire_writes free.storedNamesFree (by rw [filled'.entities]; exact here) placed wiring
  have wired := value_performed (fun write => lt_of_mem_writesOf) performed
  refine ⟨created, filled, rules, mirrored, ⟨?_, here, ?_, filled', ruled, entities_performed performed, wired⟩⟩
  · rw [entities, List.length_append, List.length_singleton]
  · intro n
    rw [value]
    exact value_of_length_le (Nat.le_refl _) n

theorem Grown.mirrored (finished : model.Finished) (free : model.InverseNamesFree) {population : Population}
    (grown : Grown model population) : Mirrored model population := by
  induction grown with
  | empty => exact mirrored_empty
  | create _ made ih => exact ih.create finished made
  | construct _ made ih =>
    obtain ⟨created, filled, rules, before, construction⟩ := exists_construction finished free ih made
    exact construction.mirrored finished free before

/-- In a grown population an inverse attribute shows the instances that refer to its owner, and no others. -/
theorem inverse_shows_referrers (finished : model.Finished) (free : model.InverseNamesFree) {population : Population}
    (grown : Grown model population) {a : Nat} {entity : Name} (here : population.entityOf a = .ok entity) :
    ∃ chain, model.ancestors entity = .ok chain ∧ ∀ owner ∈ chain, ∀ attr ∈ owner.attributes, attr.inverse = true →
      ∃ slot, population.get a attr.name = .ok slot ∧
        slot.Shows attr.type.isCollection (population.Refers model owner.name attr.name · a) := by
  have mirrored := grown.mirrored finished free
  have there := entityOf_eq_ok_iff.mp here
  obtain ⟨e, found⟩ := mirrored.known entity (List.mem_of_getElem? there)
  obtain ⟨chain, placed⟩ := Model.exists_placed finished found
  refine ⟨chain, placed.read, fun owner inChain attr own inverse => ?_⟩
  refine ⟨population.value a attr.name, get_eq_ok_iff.mpr ⟨(List.getElem?_eq_some_iff.mp there).1, rfl⟩, ?_⟩
  exact mirrored.reversed there placed owner inChain attr own inverse

/-- An item shows the tools that use it and the one that it is the main item of. -/
def workshopSchema : Schema where
  name := "workshop"
  declarations :=
    [.entity
        { name := "item"
          inverse :=
            [{ name := .simple "tools", aggregate := some { kind := .set }, entity := "tool", forAttr := "items" },
              { name := .simple "keeper", entity := "tool", forAttr := "main" }] },
      .entity { name := "part", subtypeOf := ["item"] },
      .entity
        { name := "tool"
          explicit :=
            [{ names := [.simple "items"], type := .collection { kind := .set } (.named "item") },
              { names := [.simple "main"], type := .named "item" }] }]

def workshopModel : Model :=
  let model := (Draft.after {} [.schema workshopSchema]).model
  { model with memberships := Model.membershipsOf model.selects }

/-- A part and two tools, both of which list it and have it as their main item. -/
def workshop : Population :=
  let part := (({} : Population).construct workshopModel "part" []).2
  let first := (part.construct workshopModel "tool" [("items", .many [0, 0]), ("main", .one 0)]).2
  (first.construct workshopModel "tool" [("main", .one 0), ("items", .many [1, 0])]).2

theorem workshop_part_shows_tools :
    workshopModel.Finished ∧ workshopModel.InverseNamesFree ∧ Grown workshopModel workshop ∧
      workshop.entityOf 0 = .ok "part" ∧ (∃ chain, workshopModel.ancestors "part" = .ok chain ∧
        ∀ owner ∈ chain, ∀ attr ∈ owner.attributes, attr.inverse = true →
          ∃ slot, workshop.get 0 attr.name = .ok slot ∧
            slot.Shows attr.type.isCollection (workshop.Refers workshopModel owner.name attr.name · 0)) ∧
    workshop.get 0 "tools" = .ok (.many [1, 2]) ∧ workshop.get 0 "keeper" = .ok (.one 2) := by
  have finished : workshopModel.Finished :=
    ⟨{}, [.schema workshopSchema], Draft.finish_of_checks (by decide +kernel) (by decide +kernel) (by decide +kernel)
      (fun strict => absurd strict (by decide +kernel)) (by decide +kernel)⟩
  have free : workshopModel.InverseNamesFree := by decide +kernel
  have grown : Grown workshopModel workshop := by
    have part := (@Grown.empty workshopModel).construct_of_ok 0 "part" [] (by decide +kernel)
    have first := part.construct_of_ok 1 "tool" [("items", .many [0, 0]), ("main", .one 0)] (by decide +kernel)
    exact first.construct_of_ok 2 "tool" [("main", .one 0), ("items", .many [1, 0])] (by decide +kernel)
  have here : workshop.entityOf 0 = .ok "part" := by decide +kernel
  exact ⟨finished, free, grown, here, inverse_shows_referrers finished free grown here, by decide +kernel,
    by decide +kernel⟩

end Population

end Express
