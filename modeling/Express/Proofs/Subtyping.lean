import Express.Proofs.Integrity
import Express.Proofs.InverseNames

/-!
# Subtyping

In a finished model every parent is an entity and no entity inherits from itself. So the ancestors of an entity are
those of its parent and the entity, the climb to them ends at an entity without parents and nowhere else, and
`isSubtypeOf` is the order that the parents generate (`ancestors_closure`).
-/

namespace Express.Model

variable {model : Model}

/-! ### How a climb ends -/

/-- There is no parent, it has been visited, it is no entity, or the bound is used up. -/
inductive Ending where
  | root
  | visited
  | notEntity
  | bound
  deriving DecidableEq, Repr

/-- The climb and the reason why it goes no further. -/
def climbEnding (model : Model) : Nat → List Name → Entity → List Entity × Ending
  | 0, _, entity => ([entity], .bound)
  | fuel + 1, visited, entity =>
    match entity.parent? with
    | none => ([entity], .root)
    | some parent =>
      if parent ∈ visited then ([entity], .visited)
      else match model.find? parent with
        | some (.entity above) =>
          let (chain, ending) := model.climbEnding fuel (parent :: visited) above
          (chain ++ [entity], ending)
        | _ => ([entity], .notEntity)

theorem climbEnding_fst (model : Model) (fuel : Nat) (visited : List Name) (e : Entity) :
    (model.climbEnding fuel visited e).1 = model.climb fuel visited e := by
  induction fuel generalizing visited e with
  | zero => rfl
  | succ fuel ih =>
    rw [climbEnding, climb]
    cases e.parent? with
    | none => rfl
    | some parent =>
      dsimp only
      by_cases old : parent ∈ visited
      · rw [if_pos old, if_pos old]
      · rw [if_neg old, if_neg old]
        cases model.find? parent with
        | none => rfl
        | some d =>
          cases d with
          | entity above => exact congrArg (· ++ [e]) (ih (parent :: visited) above)
          | _ => rfl

/-- A climb on which all parents are entities gets to a root before it comes back to where it was or to its bound. -/
theorem climbEnding_snd (finished : model.Finished) {fuel : Nat} {visited : List Name} {e : Entity}
    (found : model.find? e.name = some (.entity e)) (distinct : visited.Nodup) (known : visited ⊆ model.names)
    (reach : ∀ name ∈ visited, Relation.ReflTransGen model.Inherits name e.name)
    (enough : model.definitions.length < fuel + visited.length) : (model.climbEnding fuel visited e).2 = .root := by
  induction fuel generalizing visited e with
  | zero =>
    have bound := length_le_of_distinct distinct known
    omega
  | succ fuel ih =>
    rw [climbEnding]
    cases first : e.parent? with
    | none => rfl
    | some parent =>
      have step : model.Inherits e.name parent := ⟨e, found, first⟩
      have fresh : parent ∉ visited := finished.acyclic.fresh reach step
      obtain ⟨above, foundAbove⟩ := finished.exists_parent found first
      have named : above.name = parent := finished.indexed.find?_name foundAbove
      dsimp only
      rw [if_neg fresh, foundAbove]
      refine ih (by rw [named]; exact foundAbove) (List.nodup_cons.mpr ⟨fresh, distinct⟩) ?_ ?_ ?_
      · exact List.cons_subset.mpr ⟨(finished.indexed.find?_eq_some_iff.mp foundAbove).1, known⟩
      · rw [named]
        exact reach_cons reach step
      · rw [List.length_cons]
        omega

/-! ### The order of subtypes -/

theorem Finished.find?_of_mem (finished : model.Finished) {e : Entity} (member : e ∈ model.entities) :
    model.find? e.name = some (.entity e) :=
  finished.indexed.find?_of_definition_mem (mem_entities_iff.mp member)

/-- From an entity one only gets to entities. -/
theorem Finished.exists_of_reach (finished : model.Finished) {e : Entity} {name : Name}
    (found : model.find? e.name = some (.entity e)) (reach : Relation.ReflTransGen model.Inherits e.name name) :
    ∃ x, model.find? name = some (.entity x) := by
  rcases Relation.ReflTransGen.cases_tail reach with rfl | ⟨below, _, x, foundX, first⟩
  · exact ⟨e, found⟩
  · have named : x.name = below := finished.indexed.find?_name foundX
    exact finished.exists_parent (by rw [named]; exact foundX) first

theorem Finished.isSubtypeOf_iff_reach (finished : model.Finished) {e : Entity} {name : Name}
    (found : model.find? e.name = some (.entity e)) :
    model.isSubtypeOf e.name name = .ok true ↔ Relation.ReflTransGen model.Inherits e.name name := by
  obtain ⟨chain, read, climbed⟩ := finished.exists_chain found
  rw [isSubtypeOf_iff read]
  constructor
  · rintro ⟨x, member, rfl⟩
    exact ((climbed.mem_iff finished.indexed found).mp member).2
  · intro reach
    obtain ⟨x, foundX⟩ := finished.exists_of_reach found reach
    have named : x.name = name := finished.indexed.find?_name foundX
    rw [← named] at foundX reach
    exact ⟨x, (climbed.mem_iff finished.indexed found).mpr ⟨foundX, reach⟩, named⟩

/-- Entities that inherit from each other are one and the same. -/
theorem Acyclic.eq_of_reach (acyclic : model.Acyclic) {name other : Name}
    (up : Relation.ReflTransGen model.Inherits name other) (back : Relation.ReflTransGen model.Inherits other name) :
    name = other := by
  rcases Relation.reflTransGen_iff_eq_or_transGen.mp up with same | further
  · exact same.symm
  · exact (acyclic name (further.trans_left back)).elim

/-! ### Ancestors -/

/-- The ancestors of an entity: its parent's and itself, from an entity without parents on, and none of them twice. The
climb to them has ended at that root. -/
structure Descent (model : Model) (e : Entity) (chain : List Entity) : Prop where
  inherited : ∀ parent, e.parent? = some parent → ∃ upper, model.ancestors parent = .ok upper ∧ chain = upper ++ [e]
  alone : e.parent? = none → chain = [e]
  last : chain.getLast? = some e
  distinct : (chain.map (·.name)).Nodup
  root : ∃ root, chain.head? = some root ∧ root.parents = []
  climbed : model.climbEnding model.definitions.length [e.name] e = (chain, .root)

theorem Finished.descent (finished : model.Finished) {e : Entity} (found : model.find? e.name = some (.entity e)) :
    ∃ chain, model.ancestors e.name = .ok chain ∧ model.Descent e chain := by
  obtain ⟨chain, read, climbed⟩ := finished.exists_chain found
  have climb : model.climb model.definitions.length [e.name] e = chain := by
    rw [ancestors, entity_eq_ok_iff.mpr found] at read
    exact Except.ok.inj read
  refine ⟨chain, read, ?_, ?_, ?_, climbed.nodup_names finished.indexed finished.acyclic found, ?_, ?_⟩
  · intro parent first
    obtain ⟨above, foundAbove⟩ := finished.exists_parent found first
    obtain ⟨upper, readAbove, climbedAbove⟩ := finished.exists_chain foundAbove
    exact ⟨upper, readAbove, climbed.unique (.under first foundAbove climbedAbove)⟩
  · intro parentless
    refine climbed.unique (.root fun parent above first => ?_)
    rw [parentless] at first
    cases first
  · cases climbed with
    | root => rfl
    | under => exact List.getLast?_concat
  · obtain ⟨root, head, member, orphan⟩ := climbed.exists_head
    refine ⟨root, head, ?_⟩
    cases first : root.parent? with
    | none => exact List.head?_eq_none_iff.mp first
    | some parent =>
      -- The parent would be an entity, and the chain would go on.
      obtain ⟨above, foundAbove⟩ := finished.exists_parent ((climbed.mem_iff finished.indexed found).mp member).1 first
      exact (orphan parent above first foundAbove).elim
  · refine Prod.ext ((climbEnding_fst model _ _ e).trans climb) ?_
    refine climbEnding_snd finished found (List.nodup_singleton _) ?_ ?_ (Nat.lt_succ_self _)
    · exact List.cons_subset.mpr ⟨(finished.indexed.find?_eq_some_iff.mp found).1, List.nil_subset _⟩
    · intro name member
      rw [List.mem_singleton.mp member]

/-- In a finished model the ancestors of an entity are the closure of its first parents, and `isSubtypeOf` is an order
on the entities: inheriting in any number of steps. -/
theorem ancestors_closure (finished : model.Finished) :
    (∀ e ∈ model.entities, ∃ chain, model.ancestors e.name = .ok chain ∧ model.Descent e chain) ∧
    (∀ e ∈ model.entities, ∀ name, ∃ answer, model.isSubtypeOf e.name name = .ok answer ∧
      (answer = true ↔ Relation.ReflTransGen model.Inherits e.name name)) ∧
    (∀ e ∈ model.entities, model.isSubtypeOf e.name e.name = .ok true) ∧
    (∀ a ∈ model.entities, ∀ b ∈ model.entities, ∀ c ∈ model.entities, model.isSubtypeOf a.name b.name = .ok true →
      model.isSubtypeOf b.name c.name = .ok true → model.isSubtypeOf a.name c.name = .ok true) ∧
    (∀ a ∈ model.entities, ∀ b ∈ model.entities, model.isSubtypeOf a.name b.name = .ok true →
      model.isSubtypeOf b.name a.name = .ok true → a = b) := by
  have stored : ∀ e ∈ model.entities, model.find? e.name = some (.entity e) := fun e => finished.find?_of_mem
  have reaches : ∀ e ∈ model.entities, ∀ name, model.isSubtypeOf e.name name = .ok true ↔
      Relation.ReflTransGen model.Inherits e.name name :=
    fun e member name => finished.isSubtypeOf_iff_reach (stored e member)
  refine ⟨?_, ?_, ?_, ?_, ?_⟩
  · intro e member
    exact finished.descent (stored e member)
  · intro e member name
    obtain ⟨chain, read, _⟩ := finished.exists_chain (stored e member)
    have answer : model.isSubtypeOf e.name name = .ok (chain.any (·.name == name)) := by
      rw [isSubtypeOf, read]
      rfl
    refine ⟨_, answer, ?_⟩
    rw [← reaches e member name, answer, Except.ok.injEq]
  · intro e member
    exact (reaches e member e.name).mpr .refl
  · intro a memberA b memberB c _ up further
    rw [reaches a memberA] at up ⊢
    rw [reaches b memberB] at further
    exact up.trans further
  · intro a memberA b memberB up back
    rw [reaches a memberA] at up
    rw [reaches b memberB] at back
    have same := stored a memberA
    rw [finished.acyclic.eq_of_reach up back, stored b memberB] at same
    cases same
    rfl

/-- A catamaran is a ferry, and a ferry is a vessel. What makes a ferry an asset is not inherited. -/
def fleetSchema : Schema where
  name := "fleet"
  declarations :=
    [.entity
        { name := "catamaran"
          subtypeOf := ["ferry"]
          explicit := [{ names := [.simple "hulls"], optional := true, type := .simple .integer }] },
      .entity
        { name := "ferry"
          subtypeOf := ["vessel", "asset"]
          explicit := [{ names := [.simple "decks"], type := .simple .integer }]
          derived := [{ name := .qualified "vessel" "length", type := .simple .real, expression := "decks * 8.0" }] },
      .entity
        { name := "vessel"
          supertype := some { isAbstract := true }
          explicit :=
            [{ names := [.simple "flag"], optional := true, type := .simple .string },
              { names := [.simple "length", .simple "beam"], type := .simple .real }] },
      .entity { name := "asset", explicit := [{ names := [.simple "price"], type := .simple .real }] }]

def fleet : Model :=
  (Draft.after {} [.schema fleetSchema]).model

theorem fleet_finished : fleet.Finished :=
  ⟨{}, [.schema fleetSchema], by decide +kernel⟩

theorem fleet_catamaran_descent :
    fleet.Finished ∧
      (∃ e chain, fleet.ancestors "catamaran" = .ok chain ∧ fleet.Descent e chain ∧
        chain.map (·.name) = ["vessel", "ferry", "catamaran"]) ∧
      Relation.ReflTransGen fleet.Inherits "catamaran" "vessel" ∧
      ¬ Relation.ReflTransGen fleet.Inherits "catamaran" "asset" := by
  obtain ⟨e, member, named⟩ : ∃ e ∈ fleet.entities, e.name = "catamaran" := by decide +kernel
  obtain ⟨descents, answers, _⟩ := ancestors_closure fleet_finished
  obtain ⟨chain, read, descent⟩ := descents e member
  obtain ⟨yes, answered, up⟩ := answers e member "vessel"
  obtain ⟨no, refused, aside⟩ := answers e member "asset"
  rw [named] at read answered refused up aside
  have names : (fleet.ancestors "catamaran").toOption.map (·.map (·.name)) = some ["vessel", "ferry", "catamaran"] := by
    decide +kernel
  rw [read] at names
  refine ⟨fleet_finished, ⟨e, chain, read, descent, Option.some.inj names⟩, up.mp ?_, fun reach => ?_⟩
  · have vessel : fleet.isSubtypeOf "catamaran" "vessel" = .ok true := by decide +kernel
    exact Except.ok.inj (answered.symm.trans vessel)
  · have asset : fleet.isSubtypeOf "catamaran" "asset" = .ok false := by decide +kernel
    rw [aside.mpr reach, asset] at refused
    cases refused

end Express.Model
