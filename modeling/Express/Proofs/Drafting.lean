import Express.Proofs.Contents

/-!
# Drafting a schema

A declaration is refused exactly if its name is taken or its function needs an `AGGREGATE`. Otherwise the draft gives
the answers that `View.add` foretells, and after a whole schema those of all its declarations together.
-/

namespace Express

namespace FunctionDecl

theorem signature_ok (settings : Settings) {decl : FunctionDecl} (supported : decl.usesAggregate = false) :
    ∃ function, decl.signature settings = .ok function := by
  have signed := decl.signature_isSome settings
  rw [supported] at signed
  cases same : decl.signature settings with
  | error e => rw [same] at signed; cases signed
  | ok function => exact ⟨function, rfl⟩

end FunctionDecl

namespace Draft

/-! ### One declaration -/

theorem addType_view {draft : Draft} (indexed : draft.model.Indexed) {decl : TypeDecl}
    (fresh : decl.name ∉ draft.view.declared) :
    ∃ slot after, draft.addType decl = (.ok slot, after) ∧ after.view = draft.view.add (.type decl) := by
  obtain ⟨d, defines⟩ := decl.definition_ok draft.model.settings
  have named := TypeDecl.definition_name defines
  obtain ⟨slot, after, declared, view⟩ := declare_view indexed (by rw [named]; exact fresh)
  refine ⟨slot, after, ?_, ?_⟩
  · rw [addType, defines]
    exact congrArg guarded declared
  · have defined : (Declaration.type decl).definition? draft.view.settings = some d := by
      rw [Declaration.definition?, show draft.view.settings = draft.model.settings from rfl, defines]
      rfl
    rw [view, View.add, defined, named]
    simp [Declaration.mentions, Declaration.registers?, Declaration.entityUses, Declaration.links,
      Declaration.signature?, named]

theorem view_noteIgnored (draft : Draft) (decl : EntityDecl) : (draft.noteIgnored decl).view = draft.view := by
  unfold noteIgnored
  split <;> rfl

theorem complete_view {draft : Draft} (indexed : draft.model.Indexed) (decl : EntityDecl) {e : Entity}
    (present : decl.name ∈ draft.view.names) (declared : decl.name ∈ draft.view.declared)
    (defined : draft.view.definition decl.name = .entity e) :
    ∃ after, draft.complete decl = (.ok (), after) ∧ after.view = View.attach { draft.view with
      names := (decl.children ++ decl.subtypeOf).foldl mention draft.view.names
      entityUses := draft.view.entityUses ++ (decl.children ++ decl.subtypeOf) }
        decl.name e (decl.attributes draft.view.settings) := by
  have relating := view_foldl_relate indexed decl.name (decl.children ++ decl.subtypeOf)
  obtain ⟨after, attached, attaching⟩ := runAll_attach_view
    (foldl_relate_indexed indexed decl.name (decl.children ++ decl.subtypeOf)) decl.name
    (decl.attributes draft.view.settings)
    (by rw [relating]; exact mem_foldl_mention.mpr (.inl present)) (by rw [relating]; exact declared)
    (by rw [relating]; exact defined) (decl.attributes_sound _)
  rw [relating] at attaching
  exact ⟨after, attached, attaching⟩

theorem addEntity_view {draft : Draft} (indexed : draft.model.Indexed) {decl : EntityDecl}
    (fresh : decl.name ∉ draft.view.declared) :
    ∃ slot after, draft.addEntity decl = (.ok slot, after) ∧ after.view = draft.view.add (.entity decl) := by
  have noting := view_noteIgnored draft decl
  have noted : (draft.noteIgnored decl).model.Indexed := by rw [noteIgnored_model]; exact indexed
  obtain ⟨slot, bare, declared, declaring⟩ := @declare_view _ noted (.entity decl.bare)
    (by change _ ∉ (draft.noteIgnored decl).view.declared; rw [noting]; exact fresh)
  rw [noting] at declaring
  have indexedBare := declare_indexed noted (.entity decl.bare)
  rw [declared] at indexedBare
  obtain ⟨after, completed, completing⟩ := complete_view indexedBare decl
    (by rw [declaring]; exact mem_mention.mpr (.inr rfl))
    (by rw [declaring]; exact List.mem_append_right _ (List.mem_singleton_self _))
    (by rw [declaring]; exact Function.update_self ..)
  refine ⟨slot, after, ?_, ?_⟩
  · rw [addEntity, declared]
    dsimp only
    rw [completed]
    rfl
  · rw [completing, declaring, View.add]
    simp only [View.attach, Declaration.mentions, Declaration.definition?, Declaration.registers?,
      Declaration.entityUses, Declaration.links, Declaration.signature?, EntityDecl.filterMap_reference?_attributes,
      EntityDecl.filterMap_link?_attributes, EntityDecl.references, EntityDecl.entityUses, EntityDecl.definition]
    simp [EntityDecl.bare, EntityDecl.links, Definition.name, Function.comp_def]

theorem addFunction_view {draft : Draft} (indexed : draft.model.Indexed) {decl : FunctionDecl}
    (fresh : decl.name ∉ draft.view.functions.map (·.name)) (supported : decl.usesAggregate = false) :
    ∃ after, draft.addFunction decl = (.ok (), after) ∧ after.view = draft.view.add (.function decl) := by
  obtain ⟨function, signed⟩ : ∃ function, decl.signature draft.model.settings = .ok function :=
    FunctionDecl.signature_ok _ supported
  refine ⟨_, by rw [addFunction, if_neg (mt indexed.functionSlot?_isSome_iff.mp fresh), signed]; rfl, ?_⟩
  have defined : (Declaration.function decl).signature? draft.view.settings = some function := by
    rw [Declaration.signature?, show draft.view.settings = draft.model.settings from rfl, signed]
    rfl
  rw [View.add, defined]
  simp [Declaration.mentions, Declaration.registers?, Declaration.entityUses, Declaration.links,
    Declaration.definition?]
  rfl

/-! ### Refusals -/

theorem addType_refused {draft : Draft} {decl : TypeDecl} (known : decl.name ∈ draft.view.declared) :
    ∃ e after, draft.addType decl = (.error e, after) ∧ after.view = draft.view.fail e := by
  obtain ⟨d, defines⟩ := decl.definition_ok draft.model.settings
  rw [← TypeDecl.definition_name defines] at known
  rw [addType, defines]
  dsimp only
  rw [declare_refused known]
  exact ⟨_, _, rfl, rfl⟩

theorem addEntity_refused {draft : Draft} {decl : EntityDecl} (known : decl.name ∈ draft.view.declared) :
    ∃ e after, draft.addEntity decl = (.error e, after) ∧ after.view = draft.view.fail e := by
  rw [← view_noteIgnored draft decl] at known ⊢
  have same := declare_refused (show (Definition.entity decl.bare).name ∈ (draft.noteIgnored decl).declared from known)
  rw [addEntity, same]
  exact ⟨_, _, rfl, rfl⟩

theorem addFunction_refused {draft : Draft} (indexed : draft.model.Indexed) {decl : FunctionDecl}
    (refused : ¬ (decl.name ∉ draft.view.functions.map (·.name) ∧ decl.usesAggregate = false)) :
    ∃ e after, draft.addFunction decl = (.error e, after) ∧ after.view = draft.view.fail e := by
  unfold addFunction
  by_cases known : decl.name ∈ draft.view.functions.map (·.name)
  · rw [if_pos (indexed.functionSlot?_isSome_iff.mpr known)]
    exact ⟨_, _, rfl, rfl⟩
  · rw [if_neg (mt indexed.functionSlot?_isSome_iff.mp known)]
    have aggregate : decl.usesAggregate = true := by
      by_contra supported
      exact refused ⟨known, by simpa using supported⟩
    have unsigned := decl.signature_isSome draft.model.settings
    rw [aggregate] at unsigned
    cases signed : decl.signature draft.model.settings with
    | error e => exact ⟨_, _, rfl, rfl⟩
    | ok function => rw [signed] at unsigned; cases unsigned

theorem addDeclaration_view {draft : Draft} (indexed : draft.model.Indexed) {declaration : Declaration}
    (admitted : draft.view.Admits declaration) :
    ∃ after, draft.addDeclaration declaration = (.ok (), after) ∧ after.view = draft.view.add declaration := by
  cases declaration with
  | type decl =>
    obtain ⟨slot, after, added, view⟩ := addType_view indexed admitted
    exact ⟨after, by rw [addDeclaration, added]; rfl, view⟩
  | entity decl =>
    obtain ⟨slot, after, added, view⟩ := addEntity_view indexed admitted
    exact ⟨after, by rw [addDeclaration, added]; rfl, view⟩
  | function decl => exact addFunction_view indexed admitted.1 admitted.2
  | rule name =>
    refine ⟨_, rfl, ?_⟩
    rw [view_note]
    simp [View.add, Declaration.mentions, Declaration.registers?, Declaration.entityUses, Declaration.links,
      Declaration.signature?, Declaration.definition?]

theorem addDeclaration_refused {draft : Draft} (indexed : draft.model.Indexed) {declaration : Declaration}
    (refused : ¬ draft.view.Admits declaration) :
    ∃ e after, draft.addDeclaration declaration = (.error e, after) ∧ after.view = draft.view.fail e := by
  cases declaration with
  | type decl =>
    obtain ⟨e, after, added, view⟩ := addType_refused (not_not.mp refused)
    exact ⟨e, after, by rw [addDeclaration, added]; rfl, view⟩
  | entity decl =>
    obtain ⟨e, after, added, view⟩ := addEntity_refused (not_not.mp refused)
    exact ⟨e, after, by rw [addDeclaration, added]; rfl, view⟩
  | function decl => exact addFunction_refused indexed refused
  | rule name => exact (refused trivial).elim

/-! ### A whole schema -/

namespace View

def addAll (view : View) (declarations : List Declaration) : View :=
  declarations.foldl add view

/-- Every name is free when its declaration comes, and no function needs an `AGGREGATE`. -/
structure AdmitsAll (view : View) (declarations : List Declaration) : Prop where
  distinct : (view.declared ++ declarations.filterMap (·.registers?)).Nodup
  distinctFunctions : (view.functions.map (·.name) ++ (declarations.filterMap (·.asFunction?)).map (·.name)).Nodup
  noAggregate : ∀ decl ∈ declarations.filterMap (·.asFunction?), decl.usesAggregate = false

theorem admits_head {view : View} {declaration : Declaration} {declarations : List Declaration}
    (all : view.AdmitsAll (declaration :: declarations)) : view.Admits declaration := by
  obtain ⟨distinct, distinctFunctions, noAggregate⟩ := all
  cases declaration with
  | rule name => trivial
  | function decl =>
    refine ⟨fun member => ?_, noAggregate decl (by simp [Declaration.asFunction?])⟩
    exact (List.nodup_append.mp distinctFunctions).2.2 _ member _ (by simp [Declaration.asFunction?]) rfl
  | _ =>
    intro member
    exact (List.nodup_append.mp distinct).2.2 _ member _ (by simp [Declaration.registers?]) rfl

theorem functions_add {view : View} {declaration : Declaration} (admitted : view.Admits declaration) :
    (view.add declaration).functions.map (·.name) =
      view.functions.map (·.name) ++ (declaration.asFunction?.map (·.name)).toList := by
  cases declaration with
  | function decl =>
    obtain ⟨function, signed⟩ := FunctionDecl.signature_ok view.settings admitted.2
    simp [add, Declaration.signature?, signed, Except.toOption, Declaration.asFunction?,
      FunctionDecl.signature_name signed]
  | _ => simp [add, Declaration.signature?, Declaration.asFunction?]

theorem admitsAll_cons {view : View} {declaration : Declaration} {declarations : List Declaration} :
    view.AdmitsAll (declaration :: declarations) ↔
      view.Admits declaration ∧ (view.add declaration).AdmitsAll declarations := by
  have registers : (declaration :: declarations).filterMap (·.registers?) =
      declaration.registers?.toList ++ declarations.filterMap (·.registers?) := by
    cases declaration <;> rfl
  have functions : (declaration :: declarations).filterMap (·.asFunction?) =
      declaration.asFunction?.toList ++ declarations.filterMap (·.asFunction?) := by
    cases declaration <;> rfl
  have names : ((declaration :: declarations).filterMap (·.asFunction?)).map (·.name) =
      (declaration.asFunction?.map (·.name)).toList ++ (declarations.filterMap (·.asFunction?)).map (·.name) := by
    cases declaration <;> rfl
  constructor
  · intro all
    have admitted := admits_head all
    obtain ⟨distinct, distinctFunctions, noAggregate⟩ := all
    refine ⟨admitted, ⟨?_, ?_, ?_⟩⟩
    · rw [add, List.append_assoc, ← registers]
      exact distinct
    · rw [functions_add admitted, List.append_assoc, ← names]
      exact distinctFunctions
    · intro decl member
      exact noAggregate decl (by rw [functions]; exact List.mem_append_right _ member)
  · rintro ⟨admitted, distinct, distinctFunctions, noAggregate⟩
    refine ⟨?_, ?_, ?_⟩
    · rw [registers, ← List.append_assoc]
      exact distinct
    · rw [names, ← List.append_assoc, ← functions_add admitted]
      exact distinctFunctions
    · intro decl member
      rw [functions, List.mem_append] at member
      rcases member with first | later
      · cases declaration with
        | function decl' => cases List.mem_singleton.mp first; exact admitted.2
        | _ => cases first
      · exact noAggregate decl later

theorem AdmitsAll.add {view : View} {declaration : Declaration} (before : view.AdmitsAll [])
    (admitted : view.Admits declaration) : (view.add declaration).AdmitsAll [] := by
  obtain ⟨distinct, distinctFunctions, _⟩ := before
  simp only [List.filterMap_nil, List.append_nil, List.map_nil] at distinct distinctFunctions
  refine ⟨?_, ?_, by simp⟩
  · rw [List.filterMap_nil, List.append_nil, View.add, List.nodup_append]
    refine ⟨distinct, ?_, ?_⟩
    · cases declaration <;> simp [Declaration.registers?]
    · intro a known b new same
      cases declaration with
      | type decl | entity decl =>
        cases List.mem_singleton.mp new
        exact admitted (same ▸ known)
      | _ => cases new
  · rw [List.filterMap_nil, List.map_nil, List.append_nil, functions_add admitted, List.nodup_append]
    refine ⟨distinctFunctions, ?_, ?_⟩
    · cases declaration <;> simp [Declaration.asFunction?]
    · intro a known b new same
      cases declaration with
      | function decl =>
        cases List.mem_singleton.mp new
        rw [same] at known
        exact admitted.1 known
      | _ => cases new

end View

/-- Declarations whose names are free give the answers of all of them. -/
theorem runAll_addDeclaration_view {draft : Draft} (indexed : draft.model.Indexed) {declarations : List Declaration}
    (all : draft.view.AdmitsAll declarations) :
    ∃ after, runAll addDeclaration draft declarations = (.ok (), after) ∧
      after.view = draft.view.addAll declarations := by
  induction declarations generalizing draft with
  | nil => exact ⟨draft, rfl, rfl⟩
  | cons declaration declarations ih =>
    obtain ⟨admitted, others⟩ := View.admitsAll_cons.mp all
    obtain ⟨next, added, view⟩ := addDeclaration_view indexed admitted
    have indexedNext := addDeclaration_indexed indexed declaration
    rw [added] at indexedNext
    rw [← view] at others
    obtain ⟨after, addedAll, viewAll⟩ := ih indexedNext others
    refine ⟨after, ?_, ?_⟩
    · rw [runAll, added]
      exact addedAll
    · rw [viewAll, view]
      rfl

theorem admitsAll_of_runAll {draft after : Draft} (indexed : draft.model.Indexed) {declarations : List Declaration}
    (before : draft.view.AdmitsAll []) (ran : runAll addDeclaration draft declarations = (.ok (), after)) :
    draft.view.AdmitsAll declarations := by
  induction declarations generalizing draft with
  | nil => exact before
  | cons declaration declarations ih =>
    by_cases admitted : draft.view.Admits declaration
    · obtain ⟨next, added, view⟩ := addDeclaration_view indexed admitted
      have indexedNext := addDeclaration_indexed indexed declaration
      rw [added] at indexedNext
      rw [runAll, added] at ran
      have all := ih indexedNext (by rw [view]; exact before.add admitted) ran
      rw [view] at all
      exact View.admitsAll_cons.mpr ⟨admitted, all⟩
    · obtain ⟨e, stopped, refused, _⟩ := addDeclaration_refused indexed admitted
      rw [runAll, refused] at ran
      cases ran

/-! ### The answers after a schema -/

namespace View

variable (view : View) (declarations : List Declaration)

theorem addAll_cons (declaration : Declaration) :
    view.addAll (declaration :: declarations) = (view.add declaration).addAll declarations :=
  rfl

theorem addAll_title : (view.addAll declarations).title = view.title := by
  induction declarations generalizing view with
  | nil => rfl
  | cons declaration declarations ih => exact ih _

theorem addAll_settings : (view.addAll declarations).settings = view.settings := by
  induction declarations generalizing view with
  | nil => rfl
  | cons declaration declarations ih => exact ih _

theorem addAll_failure : (view.addAll declarations).failure = view.failure := by
  induction declarations generalizing view with
  | nil => rfl
  | cons declaration declarations ih => exact ih _

theorem addAll_names : (view.addAll declarations).names =
    (declarations.flatMap (·.mentions)).foldl mention view.names := by
  induction declarations generalizing view with
  | nil => rfl
  | cons declaration declarations ih =>
    rw [addAll_cons, ih, List.flatMap_cons, List.foldl_append]
    rfl

theorem addAll_entityUses : (view.addAll declarations).entityUses =
    view.entityUses ++ declarations.flatMap (·.entityUses) := by
  induction declarations generalizing view with
  | nil => simp [addAll]
  | cons declaration declarations ih => rw [addAll_cons, ih, add, List.append_assoc, List.flatMap_cons]

theorem addAll_links : (view.addAll declarations).links =
    view.links.insertAll (declarations.flatMap (·.links)) := by
  induction declarations generalizing view with
  | nil => simp [addAll]
  | cons declaration declarations ih => rw [addAll_cons, ih, add, List.flatMap_cons, ReverseIndex.insertAll_append]

theorem addAll_functions : (view.addAll declarations).functions =
    view.functions ++ declarations.filterMap (·.signature? view.settings) := by
  induction declarations generalizing view with
  | nil => simp [addAll]
  | cons declaration declarations ih =>
    rw [addAll_cons, ih, add, List.append_assoc, List.filterMap_cons]
    cases declaration.signature? view.settings <;> rfl

variable {view declarations}

theorem addAll_definition_of_not_mem {name : Name} (absent : name ∉ declarations.filterMap (·.registers?)) :
    (view.addAll declarations).definition name = view.definition name := by
  induction declarations generalizing view with
  | nil => rfl
  | cons declaration declarations ih =>
    have names := declaration.definition?_name view.settings
    have absentLater : name ∉ declarations.filterMap (·.registers?) := by
      intro later
      obtain ⟨other, member, registers⟩ := List.mem_filterMap.mp later
      exact absent (List.mem_filterMap.mpr ⟨other, List.mem_cons_of_mem _ member, registers⟩)
    rw [addAll_cons, ih absentLater, add]
    cases defined : declaration.definition? view.settings with
    | none => rfl
    | some d =>
      rw [defined] at names
      refine Function.update_of_ne ?_ _ _
      rintro rfl
      exact absent (List.mem_filterMap.mpr ⟨declaration, List.mem_cons_self, names.symm⟩)

/-- What is declared once is defined as its declaration says. -/
theorem addAll_definition_of_mem (distinct : (declarations.filterMap (·.registers?)).Nodup) {declaration : Declaration}
    (member : declaration ∈ declarations) {d : Definition} (defined : declaration.definition? view.settings = some d) :
    (view.addAll declarations).definition d.name = d := by
  induction declarations generalizing view with
  | nil => cases member
  | cons first others ih =>
    have named := declaration.definition?_name view.settings
    rw [defined] at named
    rw [addAll_cons]
    rcases List.mem_cons.mp member with rfl | later
    · rw [List.filterMap_cons, ← named] at distinct
      rw [addAll_definition_of_not_mem (List.nodup_cons.mp distinct).1, add, defined]
      exact Function.update_self ..
    · refine ih ?_ later defined
      rw [List.filterMap_cons] at distinct
      split at distinct
      · exact distinct
      · exact (List.nodup_cons.mp distinct).2

end View

end Draft

namespace Model

/-- The model holds what the declarations of a schema say and nothing else. -/
structure Reflects (settings : Settings) (schema : Schema) (model : Model) : Prop where
  titled : model.schema = schema.name
  settled : model.settings = settings
  names : model.names = (schema.declarations.flatMap (·.mentions)).foldl mention []
  declared : ∀ declaration ∈ schema.declarations, ∀ d, declaration.definition? settings = some d →
    model.definition d.name = d
  undeclared : ∀ name, name ∉ schema.registered → model.definition name = .entity (.placeholder name)
  links : model.links = ReverseIndex.empty.insertAll (schema.declarations.flatMap (·.links))
  functions : model.functions = schema.declarations.filterMap (·.signature? settings)
  indexed : model.Indexed

end Model

namespace Draft

/-- Nothing but a title. -/
def titled (settings : Settings) (title : Name) : Draft where
  model := { settings, schema := title }

theorem titled_indexed (settings : Settings) (title : Name) : (titled settings title).model.Indexed :=
  ⟨.nil, .nil⟩

theorem titled_admits (settings : Settings) (title : Name) : (titled settings title).view.AdmitsAll [] :=
  ⟨List.nodup_nil, List.nodup_nil, fun _ member => by cases member⟩

/-- A schema's declarations go through exactly if no name is taken twice and no function needs an `AGGREGATE`. -/
theorem addSchema_ok_iff (settings : Settings) (schema : Schema) :
    (∃ draft, (empty settings).addSchema schema = (.ok (), draft)) ↔
      schema.registered.Nodup ∧ (schema.functions.map (·.name)).Nodup ∧
        ∀ decl ∈ schema.functions, decl.usesAggregate = false := by
  constructor
  · rintro ⟨draft, added⟩
    obtain ⟨distinct, distinctFunctions, noAggregate⟩ := admitsAll_of_runAll (titled_indexed settings schema.name)
      (titled_admits settings schema.name) added
    exact ⟨distinct, distinctFunctions, noAggregate⟩
  · rintro ⟨distinct, distinctFunctions, noAggregate⟩
    have all : (titled settings schema.name).view.AdmitsAll schema.declarations :=
      ⟨distinct, distinctFunctions, noAggregate⟩
    obtain ⟨after, added, _⟩ := runAll_addDeclaration_view (titled_indexed settings schema.name) all
    exact ⟨after, added⟩

theorem addSchema_reflects {settings : Settings} {schema : Schema} {draft : Draft}
    (added : (empty settings).addSchema schema = (.ok (), draft)) :
    draft.model.Reflects settings schema ∧ draft.failure = none ∧
      draft.entityUses = schema.declarations.flatMap (·.entityUses) := by
  have all := admitsAll_of_runAll (titled_indexed settings schema.name)
      (titled_admits settings schema.name) added
  obtain ⟨after, same, view⟩ := runAll_addDeclaration_view (titled_indexed settings schema.name) all
  obtain rfl : draft = after := congrArg Prod.snd (added.symm.trans same)
  have settled : draft.view.settings = settings := by rw [view, View.addAll_settings]; rfl
  have indexed := addSchema_indexed (empty_indexed settings) schema
  rw [added] at indexed
  refine ⟨⟨?_, settled, ?_, ?_, ?_, ?_, ?_, indexed⟩, ?_, ?_⟩
  · change draft.view.title = _
    rw [view, View.addAll_title]
    rfl
  · change draft.view.names = _
    rw [view, View.addAll_names]
    rfl
  · intro declaration member d defined
    change draft.view.definition _ = _
    rw [view]
    exact View.addAll_definition_of_mem all.distinct member defined
  · intro name absent
    change draft.view.definition _ = _
    rw [view, View.addAll_definition_of_not_mem absent]
    rfl
  · change draft.view.links = _
    rw [view, View.addAll_links]
    rfl
  · change draft.view.functions = _
    rw [view, View.addAll_functions]
    rfl
  · change draft.view.failure = _
    rw [view, View.addAll_failure]
    rfl
  · change draft.view.entityUses = _
    rw [view, View.addAll_entityUses]
    rfl

end Draft

end Express
