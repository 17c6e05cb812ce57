import Express.Proofs.Upkeep

/-!
# Repetition in inverse attributes

An inverse attribute lists an instance once, unless the attribute is single in one entity of its owner's chain and a
collection in another (`inverse_lists_once`). An instance with a rule for each is first shown alone and then added to
itself, since the one that is shown alone is not looked at.
-/

namespace Express

namespace Slot

/-- A slot as rules leave it: one instance alone has a rule for that, and of several only the first may be there twice,
if it has rules of both kinds. -/
def Wired (slot : Slot) (writes : Bool → Nat → Prop) : Prop :=
  match slot with
  | .empty => True
  | .one b => writes false b
  | .many ids => ids.Nodup ∨ ∃ b rest, ids = b :: b :: rest ∧ (b :: rest).Nodup ∧ writes true b ∧ writes false b

theorem Wired.mono {slot : Slot} {writes more : Bool → Nat → Prop} (wired : slot.Wired writes)
    (kept : ∀ appends b, writes appends b → more appends b) : slot.Wired more := by
  cases slot with
  | empty => trivial
  | one b => exact kept false b wired
  | many ids =>
    obtain distinct | ⟨b, rest, same, distinct, appending, assigning⟩ := wired
    · exact .inl distinct
    · exact .inr ⟨b, rest, same, distinct, kept true b appending, kept false b assigning⟩

theorem Wired.receive {slot : Slot} {writes : Bool → Nat → Prop} (wired : slot.Wired writes) {appends : Bool} {id : Nat}
    (writing : writes appends id) : (Population.receive appends id slot).Wired writes := by
  cases appends with
  | false => exact writing
  | true =>
    change (slot.append id).Wired writes
    cases slot with
    | empty => exact .inl (List.nodup_singleton id)
    | one other =>
      -- No look at who is there: this is where an instance of both kinds of rules gets in twice.
      by_cases same : other = id
      · subst same
        exact .inr ⟨other, [], rfl, List.nodup_singleton other, writing, wired⟩
      · left
        simpa using same
    | many ids =>
      rw [append]
      split
      · exact wired
      · rename_i unlisted
        have fresh : id ∉ ids := by simpa using unlisted
        obtain distinct | ⟨b, rest, rfl, distinct, both⟩ := wired
        · left
          simpa using distinct.concat fresh
        · refine .inr ⟨b, rest ++ [id], rfl, ?_, both⟩
          simpa using distinct.concat (List.not_mem_of_not_mem_cons fresh)

theorem Wired.nodup_or {slot : Slot} {writes : Bool → Nat → Prop} (wired : slot.Wired writes) :
    slot.ids.Nodup ∨
      ∃ b rest, slot = .many (b :: b :: rest) ∧ (b :: rest).Nodup ∧ writes true b ∧ writes false b := by
  cases slot with
  | empty => exact .inl List.nodup_nil
  | one b => exact .inl (List.nodup_singleton b)
  | many ids =>
    obtain distinct | ⟨b, rest, rfl, both⟩ := wired
    · exact .inl distinct
    · exact .inr ⟨b, rest, rfl, both⟩

end Slot

/-- Along the chain, the inverse attributes of that name are all collections or all single. -/
def Model.AgreeIn (chain : List Entity) (attr : Name) : Prop :=
  ∀ a ∈ chain.flatMap (·.attributes), ∀ b ∈ chain.flatMap (·.attributes), a.inverse = true → b.inverse = true →
    a.name = attr → b.name = attr → a.type.isCollection = b.type.isCollection

instance (chain : List Entity) (attr : Name) : Decidable (Model.AgreeIn chain attr) :=
  inferInstanceAs (Decidable (∀ a ∈ chain.flatMap (·.attributes), ∀ b ∈ chain.flatMap (·.attributes),
    a.inverse = true → b.inverse = true → a.name = attr → b.name = attr → a.type.isCollection = b.type.isCollection))

namespace Population

variable {model : Model} {population next : Population}

/-- What is not stored has been written by rules only. -/
def WrittenByRules (model : Model) (population : Population) : Prop :=
  ∀ (a : Nat) entity n, population.entities[a]? = some entity →
    (∀ found, model.forwardAttribute entity n ≠ .ok (some found)) →
    (population.value a n).Wired (Writes model population.entities entity n)

theorem WrittenByRules.step (before : population.WrittenByRules model) (step : Step model population next) :
    next.WrittenByRules model := by
  intro a entity n here unstored
  obtain new | ⟨known, same | ⟨found, seen, _⟩ | ⟨appends, b, writes, received⟩⟩ := step.value_at here n
  · rw [new]
    trivial
  · rw [same]
    exact (before a entity n known unstored).mono fun _ _ writes => writes.step step
  · exact (unstored found seen).elim
  · rw [received]
    have kept := (before a entity n known unstored).receive writes
    exact kept.mono fun _ _ writes => writes.step step

theorem after_writtenByRules (model : Model) (calls : List Call) : (after model calls).WrittenByRules model :=
  after_induction (fun a _ _ here => by cases here) WrittenByRules.step calls

/-- An attribute that is not stored lists an instance twice only at its front, if that instance has a rule to be shown
alone and a rule to be added. So it lists each once if the inverse attributes of its name are all of one kind. -/
theorem inverse_lists_once (finished : model.Finished) {calls : List Call} (reached : after model calls = population)
    {a : Nat} {entity : Name} (here : population.entityOf a = .ok entity) :
    ∃ chain, model.ancestors entity = .ok chain ∧ ∀ n, ¬ Model.StoredIn chain n →
      ∃ slot, population.get a n = .ok slot ∧
        (slot.ids.Nodup ∨ ∃ b rest, slot = .many (b :: b :: rest) ∧ (b :: rest).Nodup ∧
          Writes model population.entities entity n true b ∧ Writes model population.entities entity n false b) ∧
        (Model.AgreeIn chain n → slot.ids.Nodup) := by
  have inOrder := reached ▸ after_inOrder finished calls
  have written := reached ▸ after_writtenByRules model calls
  have there := entityOf_eq_ok_iff.mp here
  obtain ⟨e, chain, placed⟩ := inOrder.exists_placed finished there
  refine ⟨chain, placed.read, fun n unstored => ?_⟩
  have wired := written a entity n there fun found seen =>
    unstored ((Model.forwardAttribute_some_iff placed.read).mp ⟨found, seen⟩)
  refine ⟨_, get_eq_value (List.getElem?_eq_some_iff.mp there).1 n, wired.nodup_or, ?_⟩
  intro agree
  obtain distinct | ⟨b, rest, _, _, appending, assigning⟩ := wired.nodup_or
  · exact distinct
  · obtain ⟨x, inX, p, ownX, inverseP, namedP, collects⟩ := inOrder.exists_inverse placed appending
    obtain ⟨y, inY, q, ownY, inverseQ, namedQ, single⟩ := inOrder.exists_inverse placed assigning
    have same := agree p (List.mem_flatMap.mpr ⟨x, inX, ownX⟩) q (List.mem_flatMap.mpr ⟨y, inY, ownY⟩) inverseP inverseQ
      namedP namedQ
    rw [collects, single] at same
    cases same

theorem office_index_lists_once :
    office.Finished ∧ (after office officeCalls).entityOf 0 = .ok "binder" ∧
      ∃ chain, office.ancestors "binder" = .ok chain ∧ ¬ Model.StoredIn chain "index" ∧ Model.AgreeIn chain "index" ∧
        ∃ slot, (after office officeCalls).get 0 "index" = .ok slot ∧ slot.ids.Nodup ∧ slot = .many [1, 2] := by
  have here : (after office officeCalls).entityOf 0 = .ok "binder" := by decide +kernel
  have apart : ∀ chain ∈ (office.ancestors "binder").toOption,
      ¬ Model.StoredIn chain "index" ∧ Model.AgreeIn chain "index" := by decide +kernel
  have listed : (after office officeCalls).get 0 "index" = .ok (.many [1, 2]) := by decide +kernel
  obtain ⟨chain, read, lists⟩ := inverse_lists_once office_finished rfl here
  obtain ⟨unstored, agree⟩ := apart chain (by rw [read]; rfl)
  obtain ⟨slot, shown, _, once⟩ := lists "index" unstored
  refine ⟨office_finished, here, chain, read, unstored, agree, slot, shown, once agree, ?_⟩
  rw [listed] at shown
  exact (Except.ok.inj shown).symm

/-- A binder and a note in it. -/
def filingCalls : List Call :=
  [.construct "binder" [], .construct "note" [("file", .one 0)]]

/-- A note in a binder is first shown as the one note of a folder, then added to the notes of the binder, where it is
already. -/
theorem office_binder_lists_note_twice :
    office.Finished ∧ (after office filingCalls).entityOf 0 = .ok "binder" ∧
      (∃ chain, office.ancestors "binder" = .ok chain ∧ Model.InverseIn chain "notes" ∧ ¬ Model.StoredIn chain "notes") ∧
      ∃ slot, (after office filingCalls).get 0 "notes" = .ok slot ∧ ¬ slot.ids.Nodup := by
  have twice : (after office filingCalls).get 0 "notes" = .ok (.many [1, 1]) := by decide +kernel
  obtain ⟨chain, read, kinds⟩ := exists_ok_of_map
    (show (office.ancestors "binder").toOption.map
        (fun chain => decide (Model.InverseIn chain "notes" ∧ ¬ Model.StoredIn chain "notes")) =
      some true by decide +kernel)
  exact ⟨office_finished, by decide +kernel, ⟨chain, read, of_decide_eq_true kinds⟩, _, twice, by decide⟩

end Population

end Express
