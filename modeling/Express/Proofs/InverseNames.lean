import Express.Proofs.Rules
import Mathlib.Data.List.Pairwise

/-!
# Names of inverse attributes

Along a chain the names of inverse attributes may be kept apart from each other and from those of stored attributes.
Then a rule writes to one inverse attribute only, and never to what a rule reads.
-/

namespace Express

namespace Attribute

/-- Two attributes share a name, and one of them is inverse and the other inverse or stored. -/
def Clashes (a b : Attribute) : Prop :=
  a.name = b.name ∧ (a.inverse = true ∧ (b.inverse = true ∨ b.isStored = true) ∨ b.inverse = true ∧ a.isStored = true)

instance (a b : Attribute) : Decidable (a.Clashes b) :=
  inferInstanceAs (Decidable (_ ∧ _))

theorem Clashes.symm {a b : Attribute} (h : a.Clashes b) : b.Clashes a := by
  obtain ⟨named, ⟨inverse, inverseToo | stored⟩ | ⟨inverse, stored⟩⟩ := h
  · exact ⟨named.symm, .inl ⟨inverseToo, .inl inverse⟩⟩
  · exact ⟨named.symm, .inr ⟨inverse, stored⟩⟩
  · exact ⟨named.symm, .inl ⟨inverse, .inr stored⟩⟩

theorem not_inverse_of_isStored {a : Attribute} (stored : a.isStored = true) : a.inverse ≠ true := by
  intro inverse
  rw [isStored, inverse] at stored
  cases stored

end Attribute

namespace Model

/-- Along the chain of every entity, no inverse attribute shares its name with another inverse or a stored one. -/
def InverseNamesFree (model : Model) : Prop :=
  ∀ e ∈ model.entities, ∀ chain ∈ (model.ancestors e.name).toOption,
    (chain.flatMap (·.attributes)).Pairwise fun a b => ¬ a.Clashes b

instance (model : Model) : Decidable model.InverseNamesFree :=
  inferInstanceAs (Decidable (∀ e ∈ model.entities, ∀ chain ∈ (model.ancestors e.name).toOption,
    (chain.flatMap (·.attributes)).Pairwise fun a b => ¬ a.Clashes b))

/-- Along the chain of every entity, no inverse attribute shares its name with a stored one. -/
def StoredNamesFree (model : Model) : Prop :=
  ∀ e ∈ model.entities, ∀ chain ∈ (model.ancestors e.name).toOption,
    ∀ a ∈ chain.flatMap (·.attributes), ∀ s ∈ chain.flatMap (·.attributes),
      a.inverse = true → s.isStored = true → a.name ≠ s.name

instance (model : Model) : Decidable model.StoredNamesFree :=
  inferInstanceAs (Decidable (∀ e ∈ model.entities, ∀ chain ∈ (model.ancestors e.name).toOption,
    ∀ a ∈ chain.flatMap (·.attributes), ∀ s ∈ chain.flatMap (·.attributes),
      a.inverse = true → s.isStored = true → a.name ≠ s.name))

theorem InverseNamesFree.storedNamesFree {model : Model} (free : model.InverseNamesFree) : model.StoredNamesFree := by
  intro e listed chain read a ownA s ownS inverse stored named
  have clash : a.Clashes s := ⟨named, .inl ⟨inverse, .inr stored⟩⟩
  by_cases same : a = s
  · subst same
    exact Attribute.not_inverse_of_isStored stored inverse
  · have symmetric : Std.Symm fun a b : Attribute => ¬ a.Clashes b := ⟨fun a b h clash => h clash.symm⟩
    exact (free e listed chain read).forall ownA ownS same clash

/-- Some entity of the chain has a stored attribute of that name. -/
def StoredIn (chain : List Entity) (attr : Name) : Prop :=
  ∃ x ∈ chain, ∃ a ∈ x.attributes, a.name = attr ∧ a.isStored = true

instance (chain : List Entity) (attr : Name) : Decidable (StoredIn chain attr) :=
  inferInstanceAs (Decidable (∃ x ∈ chain, ∃ a ∈ x.attributes, _))

/-- Some entity of the chain has an inverse attribute of that name. -/
def InverseIn (chain : List Entity) (attr : Name) : Prop :=
  ∃ x ∈ chain, ∃ a ∈ x.attributes, a.name = attr ∧ a.inverse = true

instance (chain : List Entity) (attr : Name) : Decidable (InverseIn chain attr) :=
  inferInstanceAs (Decidable (∃ x ∈ chain, ∃ a ∈ x.attributes, _))

/-- An entity of a finished model with its chain. -/
structure Placed (model : Model) (entity : Name) (e : Entity) (chain : List Entity) : Prop where
  finished : model.Finished
  found : model.find? entity = some (.entity e)
  read : model.ancestors entity = .ok chain
  climbed : model.Chain e chain

variable {model : Model}

theorem exists_placed (finished : model.Finished) {entity : Name} {e : Entity}
    (found : model.find? entity = some (.entity e)) : ∃ chain, model.Placed entity e chain := by
  obtain ⟨chain, read, climbed⟩ := finished.exists_chain found
  exact ⟨chain, finished, found, read, climbed⟩

namespace Placed

variable {entity : Name} {e : Entity} {chain : List Entity}

theorem name (placed : model.Placed entity e chain) : e.name = entity :=
  placed.finished.indexed.find?_name placed.found

theorem find?_of_mem (placed : model.Placed entity e chain) {x : Entity} (member : x ∈ chain) :
    model.find? x.name = some (.entity x) :=
  ((placed.climbed.mem_iff placed.finished.indexed (by rw [placed.name]; exact placed.found)).mp member).1

theorem mem_entities (placed : model.Placed entity e chain) : e ∈ model.entities :=
  List.mem_filterMap.mpr ⟨_, (placed.finished.indexed.find?_iff_mem.mp placed.found).1, rfl⟩

theorem mem_toOption (placed : model.Placed entity e chain) : chain ∈ (model.ancestors e.name).toOption := by
  rw [placed.name, placed.read]
  rfl

/-- Attributes of a chain that would clash are one and the same. -/
theorem eq_of_clashes (placed : model.Placed entity e chain) (free : model.InverseNamesFree) {x y : Entity}
    {a b : Attribute} (inX : x ∈ chain) (inY : y ∈ chain) (ownX : a ∈ x.attributes) (ownY : b ∈ y.attributes)
    (clash : a.Clashes b) : x = y ∧ a = b := by
  have apart := free e placed.mem_entities chain placed.mem_toOption
  obtain ⟨_, between⟩ := List.pairwise_flatMap.mp apart
  constructor
  · by_contra different
    have symmetric : Std.Symm fun x y : Entity => ∀ a ∈ x.attributes, ∀ b ∈ y.attributes, ¬ a.Clashes b :=
      ⟨fun x y h b ownB a ownA clash => h a ownA b ownB clash.symm⟩
    exact between.forall inX inY different a ownX b ownY clash
  · by_contra different
    have symmetric : Std.Symm fun a b : Attribute => ¬ a.Clashes b := ⟨fun a b h clash => h clash.symm⟩
    exact apart.forall (List.mem_flatMap.mpr ⟨x, inX, ownX⟩) (List.mem_flatMap.mpr ⟨y, inY, ownY⟩)
      different clash

/-- An inverse attribute and a stored one of the same chain have different names. -/
theorem inverse_ne_stored (placed : model.Placed entity e chain) (free : model.StoredNamesFree) {x y : Entity}
    {a s : Attribute} (inX : x ∈ chain) (inY : y ∈ chain) (ownX : a ∈ x.attributes) (ownY : s ∈ y.attributes)
    (inverse : a.inverse = true) (stored : s.isStored = true) : a.name ≠ s.name :=
  free e placed.mem_entities chain placed.mem_toOption a (List.mem_flatMap.mpr ⟨x, inX, ownX⟩) s
    (List.mem_flatMap.mpr ⟨y, inY, ownY⟩) inverse stored

/-- The forward attribute of a rule that the entity runs is stored along its chain. -/
theorem rule_stored (placed : model.Placed entity e chain) {rules : List WiringRule} {rule : WiringRule}
    (ruled : model.wiringRules entity = .ok rules) (member : rule ∈ rules) :
    ∃ x ∈ chain, ∃ s ∈ x.attributes, s.name = rule.attr ∧ s.isStored = true := by
  have named := placed.name
  subst named
  exact rule_attr_stored placed.finished placed.found placed.climbed placed.read ruled member

/-- What a rule writes to an instance is an inverse attribute along that instance's chain. -/
theorem rule_writes_inverse (placed : model.Placed entity e chain) {other : Name} {e' : Entity} {chain' : List Entity}
    (runner : model.Placed other e' chain') {rules : List WiringRule} {rule : WiringRule}
    (ruled : model.wiringRules other = .ok rules) (member : rule ∈ rules)
    (inherits : model.isSubtypeOf entity rule.owner = .ok true) :
    ∃ x ∈ chain, x.name = rule.owner ∧ ∃ a ∈ x.attributes,
      a.inverse = true ∧ a.name = rule.ownerAttr ∧ rule.action.appends = a.type.isCollection := by
  obtain ⟨x, inChain, named⟩ := (isSubtypeOf_iff placed.read).mp inherits
  obtain ⟨owner, found, counterpart⟩ := rule_counterpart runner.read ruled member
  rw [← named, placed.find?_of_mem inChain] at found
  cases found
  exact ⟨x, inChain, named, counterpart⟩

end Placed

end Model

end Express
