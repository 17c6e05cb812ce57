import Express.Proofs.Drafting
import Express.Proofs.Finishing

/-!
# Calls and moves

A draft is worked on by calls, each of which may fail half-way. Whatever a call does, it does by a few kinds of moves,
and what every move keeps holds of every draft that calls can lead to (`after_induction`).
-/

namespace Express

namespace Draft

inductive Call where
  | schema (schema : Schema)
  | declaration (declaration : Declaration)
  | type (decl : TypeDecl)
  | entity (decl : EntityDecl)
  | function (decl : FunctionDecl)
  | attach (entity : Name) (spec : AttributeSpec)
  deriving DecidableEq, Repr

/-- The draft that a call leaves, whether it succeeds or fails. -/
def call (draft : Draft) : Call → Draft
  | .schema schema => (draft.addSchema schema).2
  | .declaration declaration => (draft.addDeclaration declaration).2
  | .type decl => (draft.addType decl).2
  | .entity decl => (draft.addEntity decl).2
  | .function decl => (draft.addFunction decl).2
  | .attach entity spec => (draft.addAttribute entity spec).2

def after (settings : Settings) (calls : List Call) : Draft :=
  calls.foldl call (empty settings)

/-! ### The indexes after calls -/

theorem call_indexed {draft : Draft} (indexed : draft.model.Indexed) (c : Call) : (draft.call c).model.Indexed := by
  cases c with
  | schema schema => exact addSchema_indexed indexed schema
  | declaration declaration => exact addDeclaration_indexed indexed declaration
  | type decl => exact addType_indexed indexed decl
  | entity decl => exact addEntity_indexed indexed decl
  | function decl => exact addFunction_indexed indexed decl
  | attach entity spec =>
    rw [call, addAttribute, guarded_model]
    exact attach_indexed indexed entity spec

theorem foldl_call_indexed {draft : Draft} (indexed : draft.model.Indexed) (calls : List Call) :
    (calls.foldl call draft).model.Indexed := by
  induction calls generalizing draft with
  | nil => exact indexed
  | cons c calls ih => exact ih (call_indexed indexed c)

/-- Whatever calls are made, the indexes agree with the lists that they point into. -/
theorem after_indexed (settings : Settings) (calls : List Call) : (after settings calls).model.Indexed :=
  foldl_call_indexed (empty_indexed settings) calls

namespace View

/-- The answers once an entity is declared and related to others, before it has attributes. -/
def addBare (view : View) (decl : EntityDecl) : View :=
  { view with
    names := (decl.children ++ decl.subtypeOf).foldl mention (mention view.names decl.name)
    definition := Function.update view.definition decl.name (.entity decl.bare)
    declared := view.declared ++ [decl.name]
    entityUses := view.entityUses ++ (decl.children ++ decl.subtypeOf) }

inductive Move (view : View) : View → Prop where
  | title (name : Name) : Move view { view with title := name }
  | fail (e : ModelError) : Move view (view.fail e)
  | mention (names : List Name) : Move view { view with names := names.foldl mention view.names }
  | type (decl : TypeDecl) (fresh : decl.name ∉ view.declared) : Move view (view.add (.type decl))
  | entity (decl : EntityDecl) (fresh : decl.name ∉ view.declared) : Move view (view.addBare decl)
  | function (decl : FunctionDecl) (fresh : view.Admits (.function decl)) : Move view (view.add (.function decl))
  | attach {entity : Name} {e : Entity} {spec : AttributeSpec} (present : entity ∈ view.names)
      (declared : entity ∈ view.declared) (defined : view.definition entity = .entity e) (sound : spec.Sound) :
      Move view (view.attach entity e [spec])

def Moves : View → View → Prop :=
  Relation.ReflTransGen Move

end View

open View

/-! ### Each call moves -/

theorem guarded_moves {α : Type} {view : View} {outcome : Outcome ModelError Draft α}
    (moves : Moves view outcome.2.view) : Moves view (guarded outcome).2.view := by
  obtain ⟨result, draft⟩ := outcome
  cases result with
  | ok a => exact moves
  | error e => exact moves.tail (.fail e)

theorem runAll_moves {α : Type} {step : Draft → α → Outcome ModelError Draft Unit} {items : List α}
    (kept : ∀ {draft item}, draft.model.Indexed → (step draft item).2.model.Indexed)
    (moves : ∀ {draft item}, draft.model.Indexed → Moves draft.view (step draft item).2.view) {draft : Draft}
    (indexed : draft.model.Indexed) : Moves draft.view (runAll step draft items).2.view :=
  (@runAll_keeps _ _ _ step (fun state => state.model.Indexed ∧ Moves draft.view state.view) items
    (fun _ _ _ before => ⟨kept before.1, before.2.trans (moves before.1)⟩) draft ⟨indexed, .refl⟩).2

theorem attributeType_sound {draft : Draft} (indexed : draft.model.Indexed) {entity : Name} {spec : AttributeSpec}
    {type : TypeRef} (h : draft.attributeType entity spec = .ok type) :
    entity ∈ draft.view.names ∧ entity ∈ draft.view.declared ∧ spec.Sound := by
  unfold attributeType at h
  split at h
  · cases h
  · rename_i known
    rw [Bool.not_eq_true, Bool.not_eq_false', Bool.and_eq_true, indexed.contains_iff, List.contains_iff_mem] at known
    split at h
    · cases h
    · split at h
      · cases h
      · rename_i required
        refine ⟨known.1, known.2, ?_, ?_⟩
        · unfold TypeSpec.resolve TypeSpec.typeRef? at h
          split at h
          · rename_i same
            split at same
            · assumption
            · cases same
          · cases h
        · intro inverse
          rw [inverse] at required
          simpa using required

theorem attach_moves {draft : Draft} (indexed : draft.model.Indexed) (entity : Name) (spec : AttributeSpec) :
    Moves draft.view (draft.attach entity spec).2.view := by
  cases typed : draft.attributeType entity spec with
  | error e =>
    rw [attach, typed]
    exact .refl
  | ok type =>
    obtain ⟨present, declared, sound⟩ := attributeType_sound indexed typed
    cases defined : draft.view.definition entity with
    | entity e =>
      obtain ⟨after, attached, view⟩ := attach_view indexed present declared defined sound
      rw [attached, view]
      exact .single (.attach present declared defined sound)
    | _ =>
      -- A slot of another kind: the type's name is registered, and that is all.
      have resolved := view_withType indexed entity spec
      obtain ⟨slot, e, found, _⟩ | ⟨e, attached⟩ := attach_of_type indexed typed
      · have same : draft.view.definition entity = .entity e :=
          (congrFun (congrArg View.definition resolved) entity).symm.trans (Model.definition_of_find? found)
        rw [defined] at same
        cases same
      · rw [attached, resolved]
        exact .single (.mention _)

theorem addType_moves {draft : Draft} (indexed : draft.model.Indexed) (decl : TypeDecl) :
    Moves draft.view (draft.addType decl).2.view := by
  by_cases known : decl.name ∈ draft.view.declared
  · obtain ⟨e, after, refused, view⟩ := addType_refused known
    rw [refused, view]
    exact .single (.fail e)
  · obtain ⟨slot, after, added, view⟩ := addType_view indexed known
    rw [added, view]
    exact .single (.type decl known)

theorem addEntity_moves {draft : Draft} (indexed : draft.model.Indexed) (decl : EntityDecl) :
    Moves draft.view (draft.addEntity decl).2.view := by
  by_cases known : decl.name ∈ draft.view.declared
  · obtain ⟨e, after, refused, view⟩ := addEntity_refused known
    rw [refused, view]
    exact .single (.fail e)
  · refine guarded_moves ?_
    have noting := view_noteIgnored draft decl
    have noted : (draft.noteIgnored decl).model.Indexed := by rw [noteIgnored_model]; exact indexed
    obtain ⟨slot, bare, declared, declaring⟩ := @declare_view _ noted (.entity decl.bare)
      (by change _ ∉ (draft.noteIgnored decl).view.declared; rw [noting]; exact known)
    have indexedBare := declare_indexed noted (.entity decl.bare)
    rw [declared] at indexedBare
    have relating := view_foldl_relate indexedBare decl.name (decl.children ++ decl.subtypeOf)
    rw [declaring, noting] at relating
    have attaching := @runAll_moves _ (·.attach decl.name) (decl.attributes bare.model.settings)
      (fun indexed => attach_indexed indexed decl.name _) (fun indexed => attach_moves indexed decl.name _) _
      (foldl_relate_indexed indexedBare decl.name (decl.children ++ decl.subtypeOf))
    rw [relating] at attaching
    rw [declared]
    dsimp only
    have added : Moves draft.view (bare.complete decl).2.view := attaching.head (.entity decl known)
    split
    · rename_i e after same
      rw [same] at added
      exact added
    · rename_i after same
      rw [same] at added
      exact added

theorem addFunction_moves {draft : Draft} (indexed : draft.model.Indexed) (decl : FunctionDecl) :
    Moves draft.view (draft.addFunction decl).2.view := by
  by_cases admitted : draft.view.Admits (.function decl)
  · obtain ⟨after, added, view⟩ := addFunction_view indexed admitted.1 admitted.2
    rw [added, view]
    exact .single (.function decl admitted)
  · obtain ⟨e, after, refused, view⟩ := addFunction_refused indexed admitted
    rw [refused, view]
    exact .single (.fail e)

theorem addDeclaration_moves {draft : Draft} (indexed : draft.model.Indexed) (declaration : Declaration) :
    Moves draft.view (draft.addDeclaration declaration).2.view := by
  cases declaration with
  | type decl => rw [addDeclaration, unitary_snd]; exact addType_moves indexed decl
  | entity decl => rw [addDeclaration, unitary_snd]; exact addEntity_moves indexed decl
  | function decl => exact addFunction_moves indexed decl
  | rule name => exact .refl

theorem call_moves {draft : Draft} (indexed : draft.model.Indexed) (c : Call) :
    Moves draft.view (draft.call c).view := by
  cases c with
  | schema schema =>
    have added := @runAll_moves _ addDeclaration schema.declarations (fun indexed => addDeclaration_indexed indexed _)
      (fun indexed => addDeclaration_moves indexed _)
      { draft with model := { draft.model with schema := schema.name } } ⟨indexed.definitions, indexed.functions⟩
    exact added.head (.title schema.name)
  | declaration declaration => exact addDeclaration_moves indexed declaration
  | type decl => exact addType_moves indexed decl
  | entity decl => exact addEntity_moves indexed decl
  | function decl => exact addFunction_moves indexed decl
  | attach entity spec => exact guarded_moves (attach_moves indexed entity spec)

/-! ### What every move keeps -/

theorem moves_induction {keeps : View → Prop} (kept : ∀ {view next}, keeps view → Move view next → keeps next)
    {view next : View} (before : keeps view) (moves : Moves view next) : keeps next := by
  induction moves with
  | refl => exact before
  | tail _ move ih => exact kept ih move

/-- Whatever the empty draft has and every move keeps, each draft has. -/
theorem after_induction {keeps : View → Prop} (kept : ∀ {view next}, keeps view → Move view next → keeps next)
    {settings : Settings} (start : keeps (empty settings).view) (calls : List Call) :
    keeps (after settings calls).view := by
  have run : ∀ draft : Draft, draft.model.Indexed → keeps draft.view → keeps (calls.foldl call draft).view := by
    induction calls with
    | nil => exact fun draft _ before => before
    | cons c calls ih =>
      exact fun draft indexed before =>
        ih _ (call_indexed indexed c) (moves_induction kept before (call_moves indexed c))
  exact run _ (empty_indexed settings) start

/-- A draft becomes a model if it passes the checks one by one. -/
theorem finish_of_checks {settings : Settings} {calls : List Call} (unfailed : (after settings calls).failure = none)
    (uses : (after settings calls).checkEntityUses = .ok ()) (cycles : (after settings calls).checkCycles = .ok ())
    (strict : (after settings calls).model.settings.strict = true → (after settings calls).model.placeholders = [])
    (links : (runAll checkLink (after settings calls) (after settings calls).model.sortedLinks).1 = .ok ()) :
    (after settings calls).finish.1 = .ok
      { (after settings calls).model with memberships := Model.membershipsOf (after settings calls).model.selects } := by
  have indexed := after_indexed settings calls
  have valid : (after settings calls).Valid :=
    ⟨unfailed, (checkEntityUses_ok_iff _).mp uses, (checkCycles_ok_iff indexed).mp cycles, strict,
      (links_ok_iff _ _).mp links⟩
  exact (finish_ok_iff indexed).mpr ⟨valid, rfl⟩

end Draft

namespace Model

/-- A model that some calls have led to. -/
def Finished (model : Model) : Prop :=
  ∃ settings calls, (Draft.after settings calls).finish.1 = .ok model

theorem Finished.indexed {model : Model} (finished : model.Finished) : model.Indexed := by
  obtain ⟨settings, calls, ended⟩ := finished
  obtain ⟨_, rfl⟩ := (Draft.finish_ok_iff (Draft.after_indexed settings calls)).mp ended
  have indexed := Draft.after_indexed settings calls
  exact ⟨indexed.definitions, indexed.functions⟩

theorem Finished.acyclic {model : Model} (finished : model.Finished) : model.Acyclic := by
  obtain ⟨settings, calls, ended⟩ := finished
  obtain ⟨valid, rfl⟩ := (Draft.finish_ok_iff (Draft.after_indexed settings calls)).mp ended
  exact valid.acyclic

theorem Finished.exists_chain {model : Model} (finished : model.Finished) {name : Name} {e : Entity}
    (found : model.find? name = some (.entity e)) :
    ∃ chain, model.ancestors name = .ok chain ∧ model.Chain e chain :=
  Model.exists_chain finished.indexed finished.acyclic found

end Model

end Express
