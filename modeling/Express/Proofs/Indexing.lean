import Express.Proofs.Slots

/-!
# The indexes of a draft

Every step of a draft keeps the indexes of its model in agreement with the lists that they point into, whether the
step succeeds or fails on the way.
-/

namespace Express

theorem FunctionDecl.signature_name {settings : Settings} {decl : FunctionDecl} {function : FunctionSignature}
    (h : decl.signature settings = .ok function) : function.name = decl.name := by
  unfold signature at h
  split at h
  · cases h
  · split at h
    · cases h
    · cases h; rfl

namespace Draft

variable {draft : Draft}

theorem empty_indexed (settings : Settings) : (empty settings).model.Indexed :=
  ⟨.nil, .nil⟩

/-! ### Slots for names -/

theorem resolve_indexed (indexed : draft.model.Indexed) (name referrer : Name) :
    (draft.resolve name referrer).model.Indexed := by
  unfold resolve
  split
  · exact indexed
  · rename_i missing
    exact append_indexed (by exact indexed) (mt indexed.contains_iff.mpr missing)

/-- A name that has a slot keeps it. -/
theorem slot?_resolve {other : Name} {slot : Nat} (slotted : draft.model.slot? other = some slot)
    (name referrer : Name) : (draft.resolve name referrer).model.slot? other = some slot := by
  unfold resolve
  split
  · exact slotted
  · rename_i missing
    have different : other ≠ name := by
      rintro rfl
      exact missing (Option.isSome_of_mem slotted)
    exact (Index.get?_insert_other different _ _).trans slotted

theorem relate_indexed (indexed : draft.model.Indexed) (referrer name : Name) :
    (draft.relate referrer name).model.Indexed :=
  resolve_indexed indexed name referrer

theorem foldl_relate_indexed (indexed : draft.model.Indexed) (referrer : Name) (related : List Name) :
    (related.foldl (·.relate referrer) draft).model.Indexed := by
  induction related generalizing draft with
  | nil => exact indexed
  | cons name related ih => exact ih (relate_indexed indexed referrer name)

theorem declare_indexed (indexed : draft.model.Indexed) (d : Definition) : (draft.declare d).2.model.Indexed := by
  unfold declare
  dsimp only
  split
  · exact indexed
  · split
    · rename_i slot slotted
      exact replace_indexed (by exact indexed) slotted
    · rename_i unslotted
      exact append_indexed (by exact indexed) (indexed.definitions.get?_eq_none_iff.mp unslotted)

/-! ### Attributes -/

theorem withType_cases (draft : Draft) (entity : Name) (spec : AttributeSpec) :
    draft.withType entity spec = draft ∨ draft.withType entity spec = draft.resolve spec.type.base entity := by
  unfold withType
  cases spec.type.namesDefinition
  · exact .inl rfl
  · exact .inr rfl

theorem withType_indexed (indexed : draft.model.Indexed) (entity : Name) (spec : AttributeSpec) :
    (draft.withType entity spec).model.Indexed := by
  rcases withType_cases draft entity spec with same | same <;> rw [same]
  · exact indexed
  · exact resolve_indexed indexed _ _

theorem slot?_withType {entity : Name} {slot : Nat} (slotted : draft.model.slot? entity = some slot)
    (spec : AttributeSpec) : (draft.withType entity spec).model.slot? entity = some slot := by
  rcases withType_cases draft entity spec with same | same <;> rw [same]
  · exact slotted
  · exact slot?_resolve slotted _ _

theorem link_indexed (indexed : draft.model.Indexed) (entity : Name) (spec : AttributeSpec) :
    (draft.link entity spec).model.Indexed := by
  unfold link
  split
  · exact ⟨indexed.definitions, indexed.functions⟩
  · exact indexed

/-- An attribute of an accepted type goes into the entity that is found under the name, or it is refused. -/
theorem attach_of_type (indexed : draft.model.Indexed) {entity : Name} {spec : AttributeSpec} {type : TypeRef}
    (typed : draft.attributeType entity spec = .ok type) :
    (∃ slot e, (draft.withType entity spec).model.find? entity = some (.entity e) ∧
      (draft.withType entity spec).model.slot? e.name = some slot ∧
      draft.attach entity spec = (.ok (), ((draft.withType entity spec).replace slot
        (.entity { e with attributes := e.attributes ++ [spec.attach type] })).link entity spec)) ∨
    ∃ e, draft.attach entity spec = (.error e, draft.withType entity spec) := by
  have resolved := withType_indexed indexed entity spec
  unfold attach
  rw [typed]
  dsimp only
  cases slotted : draft.model.slot? entity with
  | none => exact .inr ⟨_, rfl⟩
  | some slot =>
    have slottedToo := slot?_withType slotted spec
    dsimp only [Option.bind_some]
    cases there : (draft.withType entity spec).model.definitions[slot]? with
    | none => exact .inr ⟨_, rfl⟩
    | some d =>
      have found : (draft.withType entity spec).model.find? entity = some d := by
        rw [Model.find?, slottedToo]
        exact there
      cases d with
      | entity e =>
        have named : e.name = entity := resolved.find?_name found
        exact .inl ⟨slot, e, found, by rw [named, slottedToo], rfl⟩
      | _ => exact .inr ⟨_, rfl⟩

theorem attach_indexed (indexed : draft.model.Indexed) (entity : Name) (spec : AttributeSpec) :
    (draft.attach entity spec).2.model.Indexed := by
  have resolved := withType_indexed indexed entity spec
  cases typed : draft.attributeType entity spec with
  | error e =>
    rw [attach, typed]
    exact indexed
  | ok type =>
    obtain ⟨slot, e, _, slotted, attached⟩ | ⟨e, attached⟩ := attach_of_type indexed typed
    · rw [attached]
      exact link_indexed (replace_indexed resolved (by exact slotted)) entity spec
    · rw [attached]
      exact resolved

/-! ### Declarations -/

theorem guarded_model {α : Type} (outcome : Outcome ModelError Draft α) :
    (guarded outcome).2.model = outcome.2.model := by
  obtain ⟨result, draft⟩ := outcome
  cases result <;> rfl

theorem unitary_snd {α : Type} (outcome : Outcome ModelError Draft α) : (unitary outcome).2 = outcome.2 := by
  obtain ⟨result, draft⟩ := outcome
  cases result <;> rfl

theorem addType_indexed (indexed : draft.model.Indexed) (decl : TypeDecl) :
    (draft.addType decl).2.model.Indexed := by
  rw [addType, guarded_model]
  split
  · exact indexed
  · exact declare_indexed indexed _

theorem complete_indexed (indexed : draft.model.Indexed) (decl : EntityDecl) :
    (draft.complete decl).2.model.Indexed :=
  @runAll_keeps _ _ _ (fun draft : Draft => draft.attach decl.name) (·.model.Indexed) _
    (fun _ spec _ before => attach_indexed before decl.name spec) _
    (foldl_relate_indexed indexed decl.name _)

theorem noteIgnored_model (draft : Draft) (decl : EntityDecl) : (draft.noteIgnored decl).model = draft.model := by
  unfold noteIgnored
  split <;> rfl

theorem addEntity_indexed (indexed : draft.model.Indexed) (decl : EntityDecl) :
    (draft.addEntity decl).2.model.Indexed := by
  have declared := @declare_indexed (draft.noteIgnored decl) (by rw [noteIgnored_model]; exact indexed)
    (.entity decl.bare)
  rw [addEntity, guarded_model]
  split
  · rename_i e failed same
    rw [same] at declared
    exact declared
  · rename_i slot bare same
    rw [same] at declared
    have completed := complete_indexed declared decl
    split
    · rename_i e failed same
      rw [same] at completed
      exact completed
    · rename_i after same
      rw [same] at completed
      exact completed

theorem addFunction_indexed (indexed : draft.model.Indexed) (decl : FunctionDecl) :
    (draft.addFunction decl).2.model.Indexed := by
  rw [addFunction, guarded_model]
  split
  · exact indexed
  · rename_i unknown
    split
    · exact indexed
    · rename_i function signed
      refine ⟨indexed.definitions, ?_⟩
      have lists := indexed.functions.insert (mt indexed.functionSlot?_isSome_iff.mpr unknown)
      rw [List.length_map, ← FunctionDecl.signature_name signed] at lists
      rw [List.map_append]
      exact FunctionDecl.signature_name signed ▸ lists

theorem addDeclaration_indexed (indexed : draft.model.Indexed) (declaration : Declaration) :
    (draft.addDeclaration declaration).2.model.Indexed := by
  cases declaration with
  | type decl => rw [addDeclaration, unitary_snd]; exact addType_indexed indexed decl
  | entity decl => rw [addDeclaration, unitary_snd]; exact addEntity_indexed indexed decl
  | function decl => exact addFunction_indexed indexed decl
  | rule name => exact indexed

theorem runAll_addDeclaration_indexed (indexed : draft.model.Indexed) (declarations : List Declaration) :
    (runAll addDeclaration draft declarations).2.model.Indexed :=
  @runAll_keeps _ _ _ addDeclaration (·.model.Indexed) declarations
    (fun _ declaration _ before => addDeclaration_indexed before declaration) _ indexed

theorem addSchema_indexed (indexed : draft.model.Indexed) (schema : Schema) :
    (draft.addSchema schema).2.model.Indexed :=
  runAll_addDeclaration_indexed (by exact ⟨indexed.definitions, indexed.functions⟩) schema.declarations

end Draft

end Express
