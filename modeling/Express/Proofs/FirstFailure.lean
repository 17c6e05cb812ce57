import Express.Proofs.Moves

/-!
# The first failure

A draft remembers the error of the first call that fails, and finishing answers with it whatever calls follow. A failed
call leaves everything that was drafted as it was. Only an attribute for something that is not an entity may leave a
placeholder behind, for its type (`first_failure_remains`).
-/

namespace Express.Draft

/-! ### Answers -/

/-- What a call answers, with the draft that it leaves. -/
def answer (draft : Draft) : Call → Outcome ModelError Draft Unit
  | .schema schema => draft.addSchema schema
  | .declaration declaration => draft.addDeclaration declaration
  | .type decl => unitary (draft.addType decl)
  | .entity decl => unitary (draft.addEntity decl)
  | .function decl => draft.addFunction decl
  | .attach entity spec => draft.addAttribute entity spec

theorem answer_snd (draft : Draft) (c : Call) : (draft.answer c).2 = draft.call c := by
  cases c with
  | type decl => exact unitary_snd _
  | entity decl => exact unitary_snd _
  | _ => rfl

def errorOf {α : Type} (outcome : Outcome ModelError Draft α) : Option ModelError :=
  match outcome.1 with
  | .error e => some e
  | .ok _ => none

/-- The errors among the answers to calls that are made one after the other. -/
def errors (draft : Draft) : List Call → List ModelError
  | [] => []
  | c :: calls => (errorOf (draft.answer c)).toList ++ errors (draft.call c) calls

/-! ### Remembering -/

/-- An error answered is remembered, if it is the first. -/
def Remembers {α : Type} (draft : Draft) (outcome : Outcome ModelError Draft α) : Prop :=
  outcome.2.failure = draft.failure.or (errorOf outcome)

theorem resolve_failure (draft : Draft) (name referrer : Name) :
    (draft.resolve name referrer).failure = draft.failure := by
  unfold resolve
  split <;> rfl

theorem link_failure (draft : Draft) (entity : Name) (spec : AttributeSpec) :
    (draft.link entity spec).failure = draft.failure := by
  unfold link
  split <;> rfl

theorem attach_failure {draft : Draft} (indexed : draft.model.Indexed) (entity : Name) (spec : AttributeSpec) :
    (draft.attach entity spec).2.failure = draft.failure := by
  cases typed : draft.attributeType entity spec with
  | error e => rw [attach, typed]
  | ok type =>
    have kept : (draft.withType entity spec).failure = draft.failure := by
      rcases withType_cases draft entity spec with same | same <;> rw [same]
      exact resolve_failure ..
    obtain ⟨slot, e, _, _, attached⟩ | ⟨e, attached⟩ := attach_of_type indexed typed
    · rw [attached]
      exact (link_failure ..).trans kept
    · rw [attached]
      exact kept

theorem guarded_remembers {α : Type} {draft : Draft} {outcome : Outcome ModelError Draft α}
    (kept : outcome.2.failure = draft.failure) : draft.Remembers (guarded outcome) := by
  obtain ⟨result, next⟩ := outcome
  cases result with
  | error e => exact congrArg (Option.or · (some e)) kept
  | ok a => exact kept.trans Option.or_none.symm

theorem addDeclaration_remembers {draft : Draft} (indexed : draft.model.Indexed) (declaration : Declaration) :
    draft.Remembers (draft.addDeclaration declaration) := by
  unfold Remembers
  by_cases admitted : draft.view.Admits declaration
  · obtain ⟨after, added, view⟩ := addDeclaration_view indexed admitted
    have kept : after.failure = draft.failure := congrArg View.failure view
    rw [added, kept]
    exact (Option.or_none).symm
  · obtain ⟨e, after, refused, view⟩ := addDeclaration_refused indexed admitted
    have failed : after.failure = draft.failure.or (some e) := congrArg View.failure view
    rw [refused, failed]
    rfl

/-- A schema stops at its first declaration that fails, so it answers with what is remembered. -/
theorem runAll_remembers {draft : Draft} (indexed : draft.model.Indexed) (declarations : List Declaration) :
    draft.Remembers (runAll addDeclaration draft declarations) := by
  induction declarations generalizing draft with
  | nil => exact (Option.or_none).symm
  | cons declaration declarations ih =>
    have first := addDeclaration_remembers indexed declaration
    have indexedNext := addDeclaration_indexed indexed declaration
    unfold Remembers at first ih ⊢
    rw [runAll]
    rcases added : draft.addDeclaration declaration with ⟨result, next⟩
    rw [added] at first indexedNext
    cases result with
    | error e => exact first
    | ok =>
      have kept : next.failure = draft.failure := first.trans Option.or_none
      rw [← kept]
      exact ih indexedNext

theorem answer_remembers {draft : Draft} (indexed : draft.model.Indexed) (c : Call) :
    draft.Remembers (draft.answer c) := by
  cases c with
  | schema schema =>
    exact @runAll_remembers { draft with model := { draft.model with schema := schema.name } }
      ⟨indexed.definitions, indexed.functions⟩ _
  | declaration declaration => exact addDeclaration_remembers indexed declaration
  | type decl => exact addDeclaration_remembers indexed (.type decl)
  | entity decl => exact addDeclaration_remembers indexed (.entity decl)
  | function decl => exact addDeclaration_remembers indexed (.function decl)
  | attach entity spec => exact guarded_remembers (attach_failure indexed entity spec)

theorem foldl_call_failure {draft : Draft} (indexed : draft.model.Indexed) (calls : List Call) :
    (calls.foldl call draft).failure = draft.failure.or (draft.errors calls).head? := by
  induction calls generalizing draft with
  | nil => exact Option.or_none.symm
  | cons c calls ih =>
    have remembered := answer_remembers indexed c
    unfold Remembers at remembered
    rw [answer_snd] at remembered
    rw [List.foldl_cons, ih (call_indexed indexed c), remembered, errors, List.head?_append, Option.head?_toList,
      Option.or_assoc]

theorem finish_of_failure {draft : Draft} {e : ModelError} (failed : draft.failure = some e) :
    draft.finish.1 = .error e := by
  unfold finish validate
  rw [failed]

/-! ### What a failed call leaves -/

/-- Slots, functions, links and declarations are the same. -/
def SameContents (draft next : Draft) : Prop :=
  next.model = draft.model ∧ next.declared = draft.declared

/-- The contents are the same but for a placeholder behind the other slots. -/
def GainsPlaceholder (draft next : Draft) : Prop :=
  ∃ name, name ∉ draft.model.names ∧ next.declared = draft.declared ∧ next.model =
    { draft.model with
      definitions := draft.model.definitions ++ [.entity (.placeholder name)]
      index := draft.model.index.insert name draft.model.definitions.length }

variable {draft next : Draft} {e : ModelError}

theorem addType_error (indexed : draft.model.Indexed) {decl : TypeDecl}
    (failed : draft.addType decl = (.error e, next)) : draft.SameContents next := by
  by_cases known : decl.name ∈ draft.view.declared
  · obtain ⟨d, defines⟩ := decl.definition_ok draft.model.settings
    rw [← TypeDecl.definition_name defines] at known
    rw [addType, defines] at failed
    dsimp only at failed
    rw [declare_refused known] at failed
    cases failed
    exact ⟨rfl, rfl⟩
  · obtain ⟨slot, after, added, _⟩ := addType_view indexed known
    rw [added] at failed
    cases failed

theorem addEntity_error (indexed : draft.model.Indexed) {decl : EntityDecl}
    (failed : draft.addEntity decl = (.error e, next)) : draft.SameContents next := by
  by_cases known : decl.name ∈ draft.view.declared
  · have noted : draft.SameContents (draft.noteIgnored decl) := by
      unfold noteIgnored
      split <;> exact ⟨rfl, rfl⟩
    have refused := @declare_refused (draft.noteIgnored decl) (.entity decl.bare) (by rw [noted.2]; exact known)
    rw [addEntity, refused] at failed
    cases failed
    exact noted
  · obtain ⟨slot, after, added, _⟩ := addEntity_view indexed known
    rw [added] at failed
    cases failed

theorem addFunction_error {decl : FunctionDecl} (failed : draft.addFunction decl = (.error e, next)) :
    draft.SameContents next := by
  unfold addFunction at failed
  split at failed
  · cases failed
    exact ⟨rfl, rfl⟩
  · split at failed <;> cases failed
    exact ⟨rfl, rfl⟩

theorem resolve_contents (indexed : draft.model.Indexed) (name referrer : Name) :
    draft.SameContents (draft.resolve name referrer) ∨ draft.GainsPlaceholder (draft.resolve name referrer) := by
  unfold resolve
  by_cases known : draft.model.contains name = true
  · rw [if_pos known]
    exact .inl ⟨rfl, rfl⟩
  · rw [if_neg known]
    exact .inr ⟨name, mt indexed.contains_iff.mpr known, rfl, rfl⟩

theorem addAttribute_error (indexed : draft.model.Indexed) {entity : Name} {spec : AttributeSpec}
    (failed : draft.addAttribute entity spec = (.error e, next)) :
    draft.SameContents next ∨ draft.GainsPlaceholder next := by
  unfold addAttribute at failed
  cases typed : draft.attributeType entity spec with
  | error e =>
    rw [attach, typed] at failed
    cases failed
    exact .inl ⟨rfl, rfl⟩
  | ok type =>
    obtain ⟨slot, stored, _, _, attached⟩ | ⟨refusal, attached⟩ := attach_of_type indexed typed
    · rw [attached] at failed
      cases failed
    · rw [attached] at failed
      cases failed
      rcases withType_cases draft entity spec with same | same <;> rw [same]
      · exact .inl ⟨rfl, rfl⟩
      · exact resolve_contents indexed _ _

/-- The first error that a call answers is what finishing answers in the end, and a failed call leaves the contents of
the draft alone, up to a placeholder that a refused attribute may bring. -/
theorem first_failure_remains (settings : Settings) (calls : List Call) :
    (∀ e others, (empty settings).errors calls = e :: others → (after settings calls).finish.1 = .error e) ∧
    (∀ decl e next, (after settings calls).addType decl = (.error e, next) → (after settings calls).SameContents next) ∧
    (∀ decl e next, (after settings calls).addEntity decl = (.error e, next) → (after settings calls).SameContents next) ∧
    (∀ decl e next, (after settings calls).addFunction decl = (.error e, next) →
      (after settings calls).SameContents next) ∧
    ∀ entity spec e next, (after settings calls).addAttribute entity spec = (.error e, next) →
      (after settings calls).SameContents next ∨ (after settings calls).GainsPlaceholder next := by
  have indexed := after_indexed settings calls
  refine ⟨?_, fun _ _ _ => addType_error indexed, fun _ _ _ => addEntity_error indexed, fun _ _ _ => addFunction_error,
    fun _ _ _ _ => addAttribute_error indexed⟩
  intro e others failed
  apply finish_of_failure
  rw [after, foldl_call_failure (empty_indexed settings), failed]
  rfl

/-- A plank is no entity, so it cannot have a grain, and it is declared only once. -/
def carpentry : List Call :=
  [.type { name := "plank", body := .simple .real }, .attach "plank" { name := .simple "grain", type := { base := "wood" } },
    .type { name := "plank", body := .named "board" }, .entity { name := "shelf" }]

theorem carpentry_first_failure :
    (empty {}).errors carpentry = [.kindMismatch "plank" .entity .wrapper, .duplicateDeclaration "plank"] ∧
      (after {} carpentry).finish.1 = .error (.kindMismatch "plank" .entity .wrapper) ∧
      (∃ next, (after {} carpentry).addType { name := "shelf", body := .simple .real } =
        (.error (.duplicateDeclaration "shelf"), next) ∧ (after {} carpentry).SameContents next) ∧
      ∃ next, (after {} carpentry).addAttribute "plank" { name := .simple "maker", type := { base := "smith" } } =
        (.error (.kindMismatch "plank" .entity .wrapper), next) ∧ (after {} carpentry).GainsPlaceholder next := by
  obtain ⟨finished, types, _, _, attributes⟩ := first_failure_remains {} carpentry
  have answered : (empty {}).errors carpentry =
      [.kindMismatch "plank" .entity .wrapper, .duplicateDeclaration "plank"] := by decide +kernel
  have taken : ((after {} carpentry).addType { name := "shelf", body := .simple .real }).1 =
      .error (.duplicateDeclaration "shelf") := by decide +kernel
  have unfit : ((after {} carpentry).addAttribute "plank" { name := .simple "maker", type := { base := "smith" } }).1 =
      .error (.kindMismatch "plank" .entity .wrapper) := by decide +kernel
  refine ⟨answered, finished _ _ answered, ⟨_, Prod.ext taken rfl, types _ _ _ (Prod.ext taken rfl)⟩, _,
    Prod.ext unfit rfl, ?_⟩
  refine (attributes _ _ _ _ (Prod.ext unfit rfl)).resolve_left fun same => ?_
  have longer := congrArg (·.definitions.length) same.1
  revert longer
  decide +kernel

end Express.Draft
