import Express.Proofs.Upkeep

/-!
# Stored and inverse attributes apart

Storing a value changes stored attributes and wiring changes inverse attributes. The two meet only in a name that one
entity of a chain stores and another has as an inverse attribute; everywhere else a stored attribute is not changed by
wiring and has a value that fits it (`writers_apart`).
-/

namespace Express.Population

variable {model : Model} {population next : Population}

theorem InOrder.inverseIn (inOrder : population.InOrder model) {entity n : Name} {e : Entity} {chain : List Entity}
    {appends : Bool} {b : Nat} (placed : model.Placed entity e chain)
    (writes : Writes model population.entities entity n appends b) : Model.InverseIn chain n := by
  obtain ⟨x, inChain, a, own, inverse, named, _⟩ := inOrder.exists_inverse placed writes
  exact ⟨x, inChain, a, own, named, inverse⟩

/-! ### What each writer changes -/

theorem set_accepts_iff {a : Nat} {n entity : Name} {chain : List Entity} (read : model.ancestors entity = .ok chain)
    (here : population.entities[a]? = some entity) :
    (∃ slot, (population.set model a n slot).1 = .ok ()) ↔ Model.StoredIn chain n := by
  rw [Model.StoredIn, ← Model.forwardAttribute_some_iff read]
  constructor
  · rintro ⟨slot, accepted⟩
    obtain ⟨e, refused⟩ | ⟨other, found, there, seen, _⟩ := set_cases model population a n slot
    · rw [refused] at accepted
      cases accepted
    · rw [here] at there
      obtain rfl := Option.some.inj there
      exact ⟨found, seen⟩
  · -- The empty slot fits every attribute.
    rintro ⟨found, seen⟩
    have checked : population.checkValue model a n .empty = .ok () := by
      simp only [checkValue, entityOf_eq_ok_iff.mpr here, bind, Except.bind, seen]
      rfl
    exact ⟨.empty, by rw [set, checked]⟩

theorem set_changes {a b : Nat} {n attr entity : Name} {slot : Slot} {chain : List Entity}
    (read : model.ancestors entity = .ok chain) (here : population.entities[a]? = some entity)
    (changed : (population.set model b attr slot).2.get a n ≠ population.get a n) :
    b = a ∧ attr = n ∧ Model.StoredIn chain n := by
  obtain ⟨e, refused⟩ | ⟨other, found, there, _, _, _, updated⟩ := set_cases model population b attr slot
  · rw [refused] at changed
    exact (changed rfl).elim
  · by_cases hit : a = b ∧ n = attr
    · obtain ⟨rfl, rfl⟩ := hit
      exact ⟨rfl, rfl, (set_accepts_iff read here).mp ⟨slot, by rw [updated]⟩⟩
    · have known := (List.getElem?_eq_some_iff.mp here).1
      rw [updated, get_eq_value (by rw [entities_update]; exact known), get_eq_value known,
        value_update population (List.getElem?_eq_some_iff.mp there).1] at changed
      exact (changed (congrArg _ (assign_other fun same named => hit ⟨same, named⟩))).elim

theorem InOrder.wire_changes (inOrder : population.InOrder model) {a b : Nat} {entity n : Name} {e : Entity}
    {chain : List Entity} (placed : model.Placed entity e chain) (here : population.entities[a]? = some entity)
    (changed : (population.wire model b).2.get a n ≠ population.get a n) : Model.InverseIn chain n := by
  have steps := wire_steps model population b
  have known := (List.getElem?_eq_some_iff.mp here).1
  rw [get_eq_value (by rw [steps.entities]; exact known), get_eq_value known] at changed
  obtain same | ⟨other, appends, there, writes⟩ := steps.value_cases a n
  · exact (changed (congrArg _ same)).elim
  · rw [here] at there
    obtain rfl := Option.some.inj there
    exact inOrder.inverseIn placed writes

/-! ### Values that fit -/

/-- A stored attribute whose name is no inverse attribute of the chain has a value that fits it. -/
def StoredFit (model : Model) (population : Population) : Prop :=
  ∀ (a : Nat) entity e chain n found, population.entities[a]? = some entity → model.Placed entity e chain →
    model.forwardAttribute entity n = .ok (some found) → ¬ Model.InverseIn chain n →
    (population.value a n).fits found.type = true

theorem StoredFit.step (inOrder : population.InOrder model) (before : population.StoredFit model)
    (step : Step model population next) : next.StoredFit model := by
  intro a entity e chain n found here placed seen apart
  obtain new | ⟨known, same | ⟨stored, sees, fits⟩ | ⟨appends, b, writes, _⟩⟩ := step.value_at here n
  · rw [new]
    rfl
  · rw [same]
    exact before a entity e chain n found known placed seen apart
  · rw [seen] at sees
    cases sees
    exact fits
  · exact (apart (inOrder.inverseIn placed writes)).elim

theorem after_storedFit (finished : model.Finished) (calls : List Call) : (after model calls).StoredFit model := by
  -- That a rule writes only inverse attributes is known of populations in order, so the two go together.
  have both : (after model calls).InOrder model ∧ (after model calls).StoredFit model := by
    refine @after_induction model (fun population => population.InOrder model ∧ population.StoredFit model) ?_ ?_ calls
    · exact ⟨after_inOrder finished [], fun a _ _ _ _ _ here => by cases here⟩
    · intro population next before step
      exact ⟨before.1.step finished step, before.2.step before.1 step⟩
  exact both.2

/-- Storing changes stored attributes, wiring changes inverse attributes. In a name that is not both, no inverse
attribute takes a value, wiring leaves a stored attribute as it is, and its value fits it. -/
theorem writers_apart (finished : model.Finished) {calls : List Call} (reached : after model calls = population)
    {a : Nat} {entity : Name} (here : population.entityOf a = .ok entity) :
    ∃ chain, model.ancestors entity = .ok chain ∧ ∀ n,
      ((∃ slot, (population.set model a n slot).1 = .ok ()) ↔ Model.StoredIn chain n) ∧
      (∀ b attr slot, (population.set model b attr slot).2.get a n ≠ population.get a n →
        b = a ∧ attr = n ∧ Model.StoredIn chain n) ∧
      (∀ b, (population.wire model b).2.get a n ≠ population.get a n → Model.InverseIn chain n) ∧
      (¬ (Model.StoredIn chain n ∧ Model.InverseIn chain n) →
        (∀ slot, (population.set model a n slot).1 = .ok () → ¬ Model.InverseIn chain n) ∧
        ∀ found, model.forwardAttribute entity n = .ok (some found) →
          (∀ b, (population.wire model b).2.get a n = population.get a n) ∧
          ∃ slot, population.get a n = .ok slot ∧ slot.fits found.type = true) := by
  have inOrder := reached ▸ after_inOrder finished calls
  have storedFit := reached ▸ after_storedFit finished calls
  have there := entityOf_eq_ok_iff.mp here
  obtain ⟨e, chain, placed⟩ := inOrder.exists_placed finished there
  refine ⟨chain, placed.read, fun n => ?_⟩
  have accepts := set_accepts_iff (n := n) placed.read there
  have changes b : (population.wire model b).2.get a n ≠ population.get a n → Model.InverseIn chain n :=
    inOrder.wire_changes placed there
  refine ⟨accepts, fun b attr slot => set_changes placed.read there, changes, fun apart => ?_⟩
  refine ⟨fun slot accepted inverse => apart ⟨accepts.mp ⟨slot, accepted⟩, inverse⟩, fun found seen => ?_⟩
  have stored : Model.StoredIn chain n := (Model.forwardAttribute_some_iff placed.read).mp ⟨found, seen⟩
  have noInverse : ¬ Model.InverseIn chain n := fun inverse => apart ⟨stored, inverse⟩
  refine ⟨fun b => ?_, _, get_eq_value (List.getElem?_eq_some_iff.mp there).1 n,
    storedFit a entity e chain n found there placed seen noInverse⟩
  by_contra changed
  exact noInverse (changes b changed)

/-- A folder that a binder owns, and a note in the folder. -/
def lendingCalls : List Call :=
  [.create "binder", .construct "folder" [("owner", .one 0)], .construct "note" [("file", .one 1)]]

theorem office_folder_keeps_owner :
    office.Finished ∧ (after office lendingCalls).entityOf 1 = .ok "folder" ∧
      ∃ chain found, office.ancestors "folder" = .ok chain ∧ ¬ Model.InverseIn chain "owner" ∧
        office.forwardAttribute "folder" "owner" = .ok (some found) ∧
        (∀ b, ((after office lendingCalls).wire office b).2.get 1 "owner" = (after office lendingCalls).get 1 "owner") ∧
        ∃ slot, (after office lendingCalls).get 1 "owner" = .ok slot ∧ slot.fits found.type = true ∧ slot = .one 0 := by
  have here : (after office lendingCalls).entityOf 1 = .ok "folder" := by decide +kernel
  have noInverse : ∀ chain ∈ (office.ancestors "folder").toOption, ¬ Model.InverseIn chain "owner" := by decide +kernel
  have owned : (after office lendingCalls).get 1 "owner" = .ok (.one 0) := by decide +kernel
  obtain ⟨sees, seen, isStored⟩ := exists_ok_of_map
    (show (office.forwardAttribute "folder" "owner").toOption.map Option.isSome = some true by decide +kernel)
  obtain ⟨found, rfl⟩ := Option.isSome_iff_exists.mp isStored
  obtain ⟨chain, read, writers⟩ := writers_apart office_finished rfl here
  have apart := noInverse chain (by rw [read]; rfl)
  obtain ⟨_, _, _, keeps⟩ := writers "owner"
  obtain ⟨kept, slot, shown, fits⟩ := (keeps fun both => apart both.2).2 found seen
  refine ⟨office_finished, here, chain, found, read, apart, seen, kept, slot, shown, fits, ?_⟩
  rw [owned] at shown
  exact (Except.ok.inj shown).symm

/-- A binder that is its own owner, and a note that refers to it and has not been wired. -/
def ownedCalls : List Call :=
  [.create "binder", .set 0 "owner" (.one 0), .create "note", .set 1 "file" (.one 0)]

/-- The owner of a binder is stored, as a folder has it, and lists the notes in the binder. -/
theorem office_binder_owner_wired :
    office.Finished ∧ (after office ownedCalls).entityOf 0 = .ok "binder" ∧
      (∃ chain, office.ancestors "binder" = .ok chain ∧ Model.InverseIn chain "owner") ∧
      ((after office ownedCalls).set office 0 "owner" (.one 1)).1 = .ok () ∧
      (after office ownedCalls).get 0 "owner" = .ok (.one 0) ∧
      ∃ found slot, office.forwardAttribute "binder" "owner" = .ok (some found) ∧
        ((after office ownedCalls).wire office 1).2.get 0 "owner" = .ok slot ∧ slot = .many [0, 1] ∧
        slot.fits found.type = false := by
  obtain ⟨chain, read, inverse⟩ := exists_ok_of_map
    (show (office.ancestors "binder").toOption.map (fun chain => decide (Model.InverseIn chain "owner")) = some true by
      decide +kernel)
  obtain ⟨sees, seen, typed⟩ := exists_ok_of_map
    (show (office.forwardAttribute "binder" "owner").toOption.map (Option.map (·.type.isCollection)) = some (some false) by
      decide +kernel)
  obtain ⟨found, rfl, single⟩ := Option.map_eq_some_iff.mp typed
  exact ⟨office_finished, by decide +kernel, ⟨chain, read, of_decide_eq_true inverse⟩, by decide +kernel,
    by decide +kernel, found, _, seen, by decide +kernel, rfl, single⟩

end Express.Population
