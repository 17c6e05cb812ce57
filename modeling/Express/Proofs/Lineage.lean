import Express.Model.Layout
import Express.Proofs.Slots
import Mathlib.Data.List.Perm.Subperm
import Mathlib.Logic.Relation

/-!
# Lineage

Inheritance between the entities of a model, each from its first parent. The bounded walks of the model are exact: a
walk is on a cycle exactly if some entity inherits from itself, and without cycles `ancestors` gives the whole chain.
-/

namespace Express.Model

theorem entity_eq_ok_iff {model : Model} {name : Name} {e : Entity} :
    model.entity name = .ok e ↔ model.find? name = some (.entity e) := by
  unfold entity get
  cases model.find? name with
  | none => simp [bind, Except.bind]
  | some d => cases d <;> simp [bind, Except.bind]

/-- An entity inherits from its first parent. -/
def Inherits (model : Model) (name parent : Name) : Prop :=
  ∃ e, model.find? name = some (.entity e) ∧ e.parent? = some parent

/-- No entity inherits from itself. -/
def Acyclic (model : Model) : Prop :=
  ∀ name, ¬ Relation.TransGen model.Inherits name name

theorem Inherits.unique {model : Model} {name parent other : Name} (h : model.Inherits name parent)
    (h' : model.Inherits name other) : parent = other := by
  obtain ⟨e, found, first⟩ := h
  obtain ⟨e', found', first'⟩ := h'
  rw [found] at found'
  cases found'
  exact Option.some.inj (first.symm.trans first')

theorem length_le_of_distinct {model : Model} {visited : List Name} (distinct : visited.Nodup)
    (known : visited ⊆ model.names) : visited.length ≤ model.definitions.length := by
  have bound := (List.subperm_of_subset distinct known).length_le
  rwa [names, List.length_map] at bound

/-! ### Cycles -/

/-- A walk that has come from all the names visited does not go back to one of them. -/
theorem Acyclic.fresh {model : Model} (acyclic : model.Acyclic) {visited : List Name} {name parent : Name}
    (reach : ∀ old ∈ visited, Relation.ReflTransGen model.Inherits old name) (step : model.Inherits name parent) :
    parent ∉ visited := by
  intro old
  exact acyclic parent ((Relation.TransGen.single step).trans_right (reach parent old))

theorem reach_cons {model : Model} {visited : List Name} {name parent : Name}
    (reach : ∀ old ∈ visited, Relation.ReflTransGen model.Inherits old name) (step : model.Inherits name parent) :
    ∀ old ∈ parent :: visited, Relation.ReflTransGen model.Inherits old parent := by
  intro old member
  rcases List.mem_cons.mp member with rfl | earlier
  · exact .refl
  · exact (reach old earlier).tail step

theorem revisits_eq_false {model : Model} (indexed : model.Indexed) (acyclic : model.Acyclic) {fuel : Nat}
    {visited : List Name} {e : Entity} (found : model.find? e.name = some (.entity e))
    (reach : ∀ name ∈ visited, Relation.ReflTransGen model.Inherits name e.name) :
    model.revisits fuel visited e = false := by
  induction fuel generalizing visited e with
  | zero => rfl
  | succ fuel ih =>
    rw [revisits]
    cases first : e.parent? with
    | none => rfl
    | some parent =>
      have step : model.Inherits e.name parent := ⟨e, found, first⟩
      dsimp only
      rw [if_neg (acyclic.fresh reach step)]
      split
      · rename_i above foundAbove
        have named : above.name = parent := indexed.find?_name foundAbove
        refine ih (by rw [named]; exact foundAbove) ?_
        rw [named]
        exact reach_cons reach step
      · rfl

/-- A walk that never ends runs out of names. -/
theorem revisits_eq_true {model : Model} (indexed : model.Indexed) {fuel : Nat} {visited : List Name} {e : Entity}
    (found : model.find? e.name = some (.entity e))
    (endless : ∀ name, Relation.ReflTransGen model.Inherits e.name name → ∃ parent, model.Inherits name parent)
    (distinct : visited.Nodup) (known : visited ⊆ model.names)
    (enough : model.definitions.length < fuel + visited.length) : model.revisits fuel visited e = true := by
  induction fuel generalizing visited e with
  | zero =>
    have bound := length_le_of_distinct distinct known
    omega
  | succ fuel ih =>
    obtain ⟨parent, step⟩ := endless e.name .refl
    have first : e.parent? = some parent := by
      obtain ⟨e', found', first⟩ := step
      rw [found] at found'
      cases found'
      exact first
    rw [revisits, first]
    dsimp only
    split
    · rfl
    · rename_i fresh
      obtain ⟨_, above, foundAbove, _⟩ := endless parent (.single step)
      have named : above.name = parent := indexed.find?_name foundAbove
      rw [foundAbove]
      refine ih (by rw [named]; exact foundAbove) ?_ (List.nodup_cons.mpr ⟨fresh, distinct⟩) ?_ ?_
      · rw [named]
        exact fun name reach => endless name (reach.head step)
      · exact List.cons_subset.mpr ⟨(indexed.find?_eq_some_iff.mp foundAbove).1, known⟩
      · rw [List.length_cons]
        omega

/-- From an entity that inherits from itself one never gets to a root. -/
theorem endless_of_cycle {model : Model} {name other : Name} (cycle : Relation.TransGen model.Inherits name name)
    (reach : Relation.ReflTransGen model.Inherits name other) : ∃ parent, model.Inherits other parent := by
  have around : Relation.TransGen model.Inherits other other := by
    induction reach with
    | refl => exact cycle
    | tail _ step ih =>
      obtain ⟨next, first, back⟩ := Relation.TransGen.head'_iff.mp ih
      rw [step.unique first]
      exact Relation.TransGen.tail' back first
  obtain ⟨parent, first, _⟩ := Relation.TransGen.head'_iff.mp around
  exact ⟨parent, first⟩

theorem acyclic_iff {model : Model} (indexed : model.Indexed) :
    model.Acyclic ↔ ∀ e, model.find? e.name = some (.entity e) → model.onCycle e = false := by
  constructor
  · intro acyclic e found
    refine revisits_eq_false indexed acyclic found ?_
    intro name member
    rw [List.mem_singleton.mp member]
  · intro clear name cycle
    obtain ⟨_, e, found, _⟩ := endless_of_cycle cycle .refl
    have named : e.name = name := indexed.find?_name found
    have caught : model.onCycle e = true := by
      refine revisits_eq_true indexed (by rw [named]; exact found) ?_ (List.nodup_singleton _) ?_ ?_
      · rw [named]
        exact fun other reach => endless_of_cycle cycle reach
      · rw [named]
        exact List.cons_subset.mpr ⟨(indexed.find?_eq_some_iff.mp found).1, List.nil_subset _⟩
      · rw [List.length_singleton]
        omega
    rw [clear e (by rw [named]; exact found)] at caught
    cases caught

/-! ### Chains -/

/-- The entities from the root down to `e`, the root being one without a parent that is an entity. -/
inductive Chain (model : Model) : Entity → List Entity → Prop where
  | root {e : Entity} (top : ∀ parent above, e.parent? = some parent → model.find? parent ≠ some (.entity above)) :
      Chain model e [e]
  | under {e above : Entity} {parent : Name} {chain : List Entity} (first : e.parent? = some parent)
      (found : model.find? parent = some (.entity above)) (upper : Chain model above chain) :
      Chain model e (chain ++ [e])

theorem climb_chain {model : Model} (indexed : model.Indexed) (acyclic : model.Acyclic) {fuel : Nat}
    {visited : List Name} {e : Entity} (found : model.find? e.name = some (.entity e)) (distinct : visited.Nodup)
    (known : visited ⊆ model.names)
    (reach : ∀ name ∈ visited, Relation.ReflTransGen model.Inherits name e.name)
    (enough : model.definitions.length ≤ fuel + visited.length) : model.Chain e (model.climb fuel visited e) := by
  have fresh : ∀ parent, e.parent? = some parent → parent ∉ visited :=
    fun parent first => acyclic.fresh reach ⟨e, found, first⟩
  induction fuel generalizing visited e with
  | zero =>
    refine .root fun parent above first foundAbove => fresh parent first ?_
    -- All names have been visited, the parent's too.
    have whole : visited.Perm model.names := by
      refine (List.subperm_of_subset distinct known).perm_of_length_le ?_
      rw [names, List.length_map]
      omega
    exact whole.mem_iff.mpr (indexed.find?_eq_some_iff.mp foundAbove).1
  | succ fuel ih =>
    rw [climb]
    cases first : e.parent? with
    | none => exact .root fun parent above second => by rw [first] at second; cases second
    | some parent =>
      dsimp only
      rw [if_neg (fresh parent first)]
      split
      · rename_i above foundAbove
        have named : above.name = parent := indexed.find?_name foundAbove
        have reachAbove : ∀ name ∈ parent :: visited, Relation.ReflTransGen model.Inherits name above.name := by
          rw [named]
          exact reach_cons reach ⟨e, found, first⟩
        have foundAbove' : model.find? above.name = some (.entity above) := by rw [named]; exact foundAbove
        refine .under first foundAbove (ih foundAbove' (List.nodup_cons.mpr ⟨fresh parent first, distinct⟩)
          (List.cons_subset.mpr ⟨(indexed.find?_eq_some_iff.mp foundAbove).1, known⟩) reachAbove ?_ ?_)
        · rw [List.length_cons]
          omega
        · exact fun next second => acyclic.fresh reachAbove ⟨above, foundAbove', second⟩
      · rename_i other
        refine .root fun next above second foundAbove => ?_
        rw [first] at second
        cases second
        exact other above foundAbove

theorem exists_ancestors {model : Model} {name : Name} {e : Entity} (known : model.entity name = .ok e) :
    ∃ chain, model.ancestors name = .ok chain := by
  rw [ancestors, known]
  exact ⟨_, rfl⟩

/-- Without cycles the ancestors of an entity are its whole chain. -/
theorem exists_chain {model : Model} (indexed : model.Indexed) (acyclic : model.Acyclic) {name : Name} {e : Entity}
    (found : model.find? name = some (.entity e)) :
    ∃ chain, model.ancestors name = .ok chain ∧ model.Chain e chain := by
  have named : e.name = name := indexed.find?_name found
  refine ⟨model.climb model.definitions.length [e.name] e, ?_, ?_⟩
  · rw [ancestors, entity_eq_ok_iff.mpr found]
    rfl
  · refine climb_chain indexed acyclic (by rw [named]; exact found) (List.nodup_singleton _) ?_ ?_
      (Nat.le_add_right _ _)
    · rw [named]
      exact List.cons_subset.mpr ⟨(indexed.find?_eq_some_iff.mp found).1, List.nil_subset _⟩
    · intro other member
      rw [List.mem_singleton.mp member]

namespace Chain

variable {model : Model} {e : Entity} {chain : List Entity}

theorem mem_self (h : model.Chain e chain) : e ∈ chain := by
  cases h with
  | root => exact List.mem_singleton_self e
  | under => exact List.mem_append_right _ (List.mem_singleton_self e)

/-- The entities of a chain are those that are inherited from. -/
theorem mem_iff (h : model.Chain e chain) (indexed : model.Indexed) (found : model.find? e.name = some (.entity e))
    {x : Entity} :
    x ∈ chain ↔ model.find? x.name = some (.entity x) ∧ Relation.ReflTransGen model.Inherits e.name x.name := by
  induction h with
  | @root e top =>
    rw [List.mem_singleton]
    constructor
    · rintro rfl
      exact ⟨found, .refl⟩
    · rintro ⟨foundX, reach⟩
      rcases Relation.ReflTransGen.cases_head reach with same | ⟨parent, ⟨e', found', first⟩, later⟩
      · rw [same, foundX] at found
        cases found
        rfl
      · rw [found] at found'
        cases found'
        exfalso
        rcases Relation.ReflTransGen.cases_head later with same | ⟨_, ⟨above, foundAbove, _⟩, _⟩
        · exact top parent x first (by rw [same]; exact foundX)
        · exact top parent above first foundAbove
  | @under e above parent chain first foundAbove upper ih =>
    have named : above.name = parent := indexed.find?_name foundAbove
    have step : model.Inherits e.name above.name := ⟨e, found, by rw [named]; exact first⟩
    have upperIff := ih (by rw [named]; exact foundAbove)
    rw [List.mem_append, List.mem_singleton, upperIff]
    constructor
    · rintro (⟨foundX, reach⟩ | rfl)
      · exact ⟨foundX, reach.head step⟩
      · exact ⟨found, .refl⟩
    · rintro ⟨foundX, reach⟩
      rcases Relation.ReflTransGen.cases_head reach with same | ⟨next, second, later⟩
      · right
        rw [same, foundX] at found
        cases found
        rfl
      · left
        rw [second.unique step] at later
        exact ⟨foundX, later⟩

/-- At the head of a chain stands an entity that inherits from none. -/
theorem exists_head (h : model.Chain e chain) :
    ∃ top, chain.head? = some top ∧ top ∈ chain ∧
      ∀ parent above, top.parent? = some parent → model.find? parent ≠ some (.entity above) := by
  induction h with
  | @root e top => exact ⟨e, rfl, List.mem_singleton_self e, top⟩
  | under first found upper ih =>
    obtain ⟨top, head, member, orphan⟩ := ih
    exact ⟨top, by rw [List.head?_append, head]; rfl, List.mem_append_left _ member, orphan⟩

theorem head_of_parentless (h : model.Chain e chain) {x : Entity} (member : x ∈ chain) (none : x.parent? = none) :
    chain.head? = some x := by
  induction h with
  | root => rw [List.mem_singleton.mp member]; rfl
  | under first found upper ih =>
    rcases List.mem_append.mp member with above | last
    · rw [List.head?_append, ih above]
      rfl
    · rw [List.mem_singleton.mp last, first] at none
      cases none

theorem unique {other : List Entity} (h : model.Chain e chain) (h' : model.Chain e other) : chain = other := by
  induction h generalizing other with
  | root top =>
    cases h' with
    | root => rfl
    | under first found => exact (top _ _ first found).elim
  | under first found upper ih =>
    cases h' with
    | root top => exact (top _ _ first found).elim
    | under first' found' upper' =>
      rw [first] at first'
      cases first'
      rw [found] at found'
      cases found'
      rw [ih upper']

/-- The chain of an ancestor is the upper part of the chain. -/
theorem exists_append (h : model.Chain e chain) {x : Entity} (member : x ∈ chain) :
    ∃ upper lower, model.Chain x upper ∧ chain = upper ++ lower := by
  induction h with
  | @root e top =>
    rw [List.mem_singleton.mp member]
    exact ⟨[e], [], .root top, rfl⟩
  | @under e above parent chain first found above ih =>
    rcases List.mem_append.mp member with inUpper | last
    · obtain ⟨upper, lower, climbed, rfl⟩ := ih inUpper
      exact ⟨upper, lower ++ [e], climbed, List.append_assoc _ _ _⟩
    · rw [List.mem_singleton.mp last]
      exact ⟨chain ++ [e], [], .under first found above, (List.append_nil _).symm⟩

theorem nodup_names (h : model.Chain e chain) (indexed : model.Indexed) (acyclic : model.Acyclic)
    (found : model.find? e.name = some (.entity e)) :
    (chain.map (·.name)).Nodup := by
  induction h with
  | root => exact List.nodup_singleton _
  | @under e above parent chain first foundAbove upper ih =>
    have named : above.name = parent := indexed.find?_name foundAbove
    rw [← named] at foundAbove
    have fresh : e.name ∉ chain.map (·.name) := by
      intro again
      obtain ⟨x, member, same⟩ := List.mem_map.mp again
      have reach := ((upper.mem_iff indexed foundAbove).mp member).2
      have step : model.Inherits e.name above.name := ⟨e, found, by rw [named]; exact first⟩
      rw [same] at reach
      exact acyclic e.name (Relation.TransGen.head' step reach)
    rw [List.map_append]
    exact List.Nodup.append (ih foundAbove) (List.nodup_singleton _) (by simpa using fresh)

end Chain

/-- The stored attributes that an entity has or inherits. -/
theorem forwardAttribute_some_iff {model : Model} {name attr : Name} {chain : List Entity}
    (climbed : model.ancestors name = .ok chain) :
    (∃ found, model.forwardAttribute name attr = .ok (some found)) ↔
      ∃ e ∈ chain, ∃ a ∈ e.attributes, a.name = attr ∧ a.isStored = true := by
  have read : model.forwardAttribute name attr =
      .ok ((chain.reverse.flatMap (·.attributes)).find? fun a => a.name == attr && a.isStored) := by
    rw [forwardAttribute, climbed]
    rfl
  rw [read]
  simp only [Except.ok.injEq, ← Option.isSome_iff_exists, List.find?_isSome, List.mem_flatMap, List.mem_reverse,
    Bool.and_eq_true, beq_iff_eq]
  constructor
  · rintro ⟨a, ⟨e, member, own⟩, fits⟩
    exact ⟨e, member, a, own, fits⟩
  · rintro ⟨e, member, a, own, fits⟩
    exact ⟨a, ⟨e, member, own⟩, fits⟩

/-! ### The same definitions -/

theorem climb_congr {model other : Model} (same : ∀ name, model.find? name = other.find? name) (fuel : Nat)
    (visited : List Name) (e : Entity) : model.climb fuel visited e = other.climb fuel visited e := by
  induction fuel generalizing visited e with
  | zero => rfl
  | succ fuel ih =>
    unfold climb
    simp only [same, ih]

/-- Lines of ancestors depend on nothing but the definitions and their index. -/
theorem ancestors_congr {model other : Model} (same : model.definitions = other.definitions)
    (indexes : model.index = other.index) (name : Name) : model.ancestors name = other.ancestors name := by
  have find : ∀ name, model.find? name = other.find? name := by
    intro name
    rw [find?, find?, slot?, slot?, same, indexes]
  unfold ancestors entity get
  simp only [same, find, climb_congr find]

theorem forwardAttribute_congr {model other : Model} (same : model.definitions = other.definitions)
    (indexes : model.index = other.index) (entity attr : Name) :
    model.forwardAttribute entity attr = other.forwardAttribute entity attr := by
  unfold forwardAttribute
  rw [ancestors_congr same indexes]

end Express.Model
