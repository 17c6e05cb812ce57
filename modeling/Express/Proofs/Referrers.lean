import Express.Proofs.FirstFailure

/-!
# Referrers

Who is named for a placeholder. The record is made when the placeholder is, so it says who used the name first. A name
that nobody declares therefore has the first entity on record that refers to it (`addSchema_blamed`).
-/

namespace Express

/-- The one who is to be named for a name, if it is among the names used. -/
def blame (name : Name) (used : List Name) (user : Name) : Option Name :=
  if name ∈ used then some user else none

theorem blame_nil (name user : Name) : blame name [] user = none :=
  if_neg List.not_mem_nil

theorem blame_append (name : Name) (first others : List Name) (user : Name) :
    blame name (first ++ others) user = (blame name first user).or (blame name others user) := by
  unfold blame
  by_cases early : name ∈ first <;> simp [early]

theorem isSome_or_blame {name user : Name} {used : List Name} {who : Option Name} :
    (who.or (blame name used user)).isSome = true ↔ who.isSome = true ∨ name ∈ used := by
  unfold blame
  cases who <;> simp

namespace Draft

/-- A name that nobody has declared has a slot exactly if somebody has used it, who is then on record. -/
structure Blamed (draft : Draft) (name : Name) (who : Option Name) : Prop where
  indexed : draft.model.Indexed
  slotted : name ∈ draft.model.names ↔ who.isSome = true
  recorded : draft.referrers.lookup name = who

namespace Blamed

variable {draft next : Draft} {name : Name} {who : Option Name}

theorem of_same (blamed : draft.Blamed name who) (indexed : next.model.Indexed)
    (names : next.model.names = draft.model.names) (referrers : next.referrers = draft.referrers) :
    next.Blamed name who :=
  ⟨indexed, by rw [names]; exact blamed.slotted, by rw [referrers]; exact blamed.recorded⟩

/-! ### Uses -/

theorem resolve (blamed : draft.Blamed name who) (used user : Name) :
    (draft.resolve used user).Blamed name (who.or (blame name [used] user)) := by
  have names : (draft.resolve used user).model.names = mention draft.model.names used :=
    congrArg View.names (view_resolve blamed.indexed used user)
  refine ⟨resolve_indexed blamed.indexed used user, ?_, ?_⟩
  · rw [names, mem_mention, isSome_or_blame, blamed.slotted, List.mem_singleton]
  unfold Draft.resolve
  by_cases known : draft.model.contains used = true
  · rw [if_pos known, blamed.recorded]
    by_cases same : name = used
    · -- The name has a slot already, so someone is on record and stays there.
      have someone := blamed.slotted.mp (same ▸ blamed.indexed.contains_iff.mp known)
      rw [Option.or_of_isSome someone]
    · rw [blame, if_neg (by simpa using same), Option.or_none]
  · rw [if_neg known]
    change (draft.referrers ++ [(used, user)]).lookup name = _
    have last : [(used, user)].lookup name = blame name [used] user := by
      rw [List.lookup_cons, List.lookup_nil, blame]
      by_cases same : name = used
      · rw [beq_iff_eq.mpr same, if_pos (List.mem_singleton.mpr same)]
      · rw [beq_eq_false_iff_ne.mpr same, if_neg (mt List.mem_singleton.mp same)]
    rw [List.lookup_append, blamed.recorded, last]

theorem relate (blamed : draft.Blamed name who) (user used : Name) :
    (draft.relate user used).Blamed name (who.or (blame name [used] user)) :=
  (blamed.resolve used user).of_same (relate_indexed blamed.indexed user used) rfl rfl

theorem foldl_relate (blamed : draft.Blamed name who) (user : Name) (used : List Name) :
    (used.foldl (·.relate user) draft).Blamed name (who.or (blame name used user)) := by
  induction used generalizing draft who with
  | nil =>
    rw [blame_nil, Option.or_none]
    exact blamed
  | cons first used ih =>
    rw [← List.singleton_append, blame_append, ← Option.or_assoc]
    exact ih (blamed.relate user first)

theorem withType (blamed : draft.Blamed name who) (entity : Name) (spec : AttributeSpec) :
    (draft.withType entity spec).Blamed name (who.or (blame name spec.type.reference?.toList entity)) := by
  unfold Draft.withType TypeSpec.reference?
  by_cases names : spec.type.namesDefinition = true
  · rw [if_pos names, if_pos names]
    exact blamed.resolve _ _
  · rw [if_neg names, if_neg names, Option.toList_none, blame_nil, Option.or_none]
    exact blamed

theorem attach (blamed : draft.Blamed name who) {entity : Name} {spec : AttributeSpec}
    (attached : draft.attach entity spec = (.ok (), next)) :
    next.Blamed name (who.or (blame name spec.type.reference?.toList entity)) := by
  cases typed : draft.attributeType entity spec with
  | error e =>
    rw [Draft.attach, typed] at attached
    cases attached
  | ok type =>
    have indexed := attach_indexed blamed.indexed entity spec
    rw [attached] at indexed
    obtain ⟨slot, e, _, slotted, same⟩ | ⟨e, same⟩ := attach_of_type blamed.indexed typed
    · rw [same] at attached
      cases attached
      refine (blamed.withType entity spec).of_same indexed ?_ ?_
      · refine (congrArg View.names (view_link _ entity spec)).trans (names_replace ?_ (by exact slotted))
        exact withType_indexed blamed.indexed entity spec
      · unfold Draft.link
        cases spec.role <;> rfl
    · rw [same] at attached
      cases attached

theorem runAll_attach (blamed : draft.Blamed name who) {entity : Name} {specs : List AttributeSpec}
    (attached : runAll (·.attach entity) draft specs = (.ok (), next)) :
    next.Blamed name (who.or (blame name (specs.filterMap (·.type.reference?)) entity)) := by
  induction specs generalizing draft who with
  | nil =>
    cases attached
    rw [List.filterMap_nil, blame_nil, Option.or_none]
    exact blamed
  | cons spec specs ih =>
    rcases first : draft.attach entity spec with ⟨e | _, middle⟩
    · rw [runAll, first] at attached
      cases attached
    · rw [runAll, first] at attached
      have others := ih (blamed.attach first) attached
      rw [Option.or_assoc, ← blame_append] at others
      have split : (spec :: specs).filterMap (·.type.reference?) =
          spec.type.reference?.toList ++ specs.filterMap (·.type.reference?) := by
        rw [List.filterMap_cons]
        cases spec.type.reference? <;> rfl
      rw [split]
      exact others

/-! ### Declarations -/

theorem declare (blamed : draft.Blamed name who) {d : Definition} {slot : Nat} (other : name ≠ d.name)
    (declared : draft.declare d = (.ok slot, next)) : next.Blamed name who := by
  by_cases known : d.name ∈ draft.declared
  · rw [declare_refused known] at declared
    cases declared
  · obtain ⟨place, after, same, view⟩ := declare_view blamed.indexed known
    obtain rfl : next = after := congrArg Prod.snd (declared.symm.trans same)
    have names : next.model.names = mention draft.model.names d.name := congrArg View.names view
    have referrers : (draft.declare d).2.referrers = draft.referrers := by
      unfold Draft.declare
      rw [if_neg (by simpa using known)]
      dsimp only
      split <;> rfl
    have indexed := declare_indexed blamed.indexed d
    rw [declared] at referrers indexed
    refine ⟨indexed, ?_, by rw [referrers]; exact blamed.recorded⟩
    rw [names, mem_mention, blamed.slotted]
    exact or_iff_left other

theorem addType (blamed : draft.Blamed name who) {decl : TypeDecl} {slot : Nat} (other : name ≠ decl.name)
    (added : draft.addType decl = (.ok slot, next)) : next.Blamed name who := by
  obtain ⟨d, defines⟩ := decl.definition_ok draft.model.settings
  rw [← TypeDecl.definition_name defines] at other
  rw [Draft.addType, defines] at added
  dsimp only at added
  rcases declared : draft.declare d with ⟨e | place, after⟩
  · rw [declared] at added
    cases added
  · rw [declared] at added
    cases added
    exact blamed.declare other declared

theorem complete (blamed : draft.Blamed name who) {decl : EntityDecl} (completed : draft.complete decl = (.ok (), next)) :
    next.Blamed name (who.or (blame name decl.references decl.name)) := by
  have attached := (blamed.foldl_relate decl.name (decl.children ++ decl.subtypeOf)).runAll_attach completed
  rw [EntityDecl.filterMap_reference?_attributes, Option.or_assoc, ← blame_append] at attached
  exact attached

theorem addEntity (blamed : draft.Blamed name who) {decl : EntityDecl} {slot : Nat} (other : name ≠ decl.name)
    (added : draft.addEntity decl = (.ok slot, next)) :
    next.Blamed name (who.or (blame name decl.references decl.name)) := by
  have noted : (draft.noteIgnored decl).Blamed name who := by
    refine blamed.of_same ?_ (congrArg View.names (view_noteIgnored draft decl)) ?_
    · rw [noteIgnored_model]
      exact blamed.indexed
    · unfold noteIgnored
      cases decl.ignoredExpression? <;> rfl
  unfold Draft.addEntity at added
  rcases declared : (draft.noteIgnored decl).declare (.entity decl.bare) with ⟨e | place, bare⟩
  · rw [declared] at added
    cases added
  · rw [declared] at added
    dsimp only at added
    rcases completed : bare.complete decl with ⟨e | _, after⟩
    · rw [completed] at added
      cases added
    · rw [completed] at added
      cases added
      exact (noted.declare (by exact other) declared).complete completed

theorem addFunction (blamed : draft.Blamed name who) {decl : FunctionDecl}
    (added : draft.addFunction decl = (.ok (), next)) : next.Blamed name who := by
  have indexed := addFunction_indexed blamed.indexed decl
  rw [added] at indexed
  unfold Draft.addFunction at added
  split at added
  · cases added
  · split at added <;> cases added
    exact blamed.of_same indexed rfl rfl

/-- Whom a name is blamed on by the entities among some declarations. -/
theorem runAll_addDeclaration (blamed : draft.Blamed name who) {declarations : List Declaration}
    (absent : name ∉ declarations.filterMap (·.registers?))
    (added : runAll addDeclaration draft declarations = (.ok (), next)) :
    next.Blamed name (who.or
      (((declarations.filterMap (·.asEntity?)).find? (name ∈ ·.references)).map (·.name))) := by
  induction declarations generalizing draft who with
  | nil =>
    cases added
    rw [List.filterMap_nil, List.find?_nil, Option.map_none, Option.or_none]
    exact blamed
  | cons declaration declarations ih =>
    have later : name ∉ declarations.filterMap (·.registers?) := by
      intro member
      obtain ⟨registering, listed, same⟩ := List.mem_filterMap.mp member
      exact absent (List.mem_filterMap.mpr ⟨registering, List.mem_cons_of_mem _ listed, same⟩)
    have other : declaration.registers? ≠ some name := fun same =>
      absent (List.mem_filterMap.mpr ⟨declaration, List.mem_cons_self, same⟩)
    rcases first : draft.addDeclaration declaration with ⟨e | _, middle⟩
    · rw [runAll, first] at added
      cases added
    rw [runAll, first] at added
    cases declaration with
    | type decl =>
      rcases step : draft.addType decl with ⟨e | slot, after⟩ <;> rw [addDeclaration, step] at first <;> cases first
      exact ih (blamed.addType (fun same => other (congrArg some same.symm)) step) later added
    | entity decl =>
      rcases step : draft.addEntity decl with ⟨e | slot, after⟩ <;> rw [addDeclaration, step] at first <;> cases first
      have others := ih (blamed.addEntity (fun same => other (congrArg some same.symm)) step) later added
      rw [List.filterMap_cons_some (by rfl), List.find?_cons]
      by_cases refers : name ∈ decl.references
      · simpa [blame, refers, Option.or_assoc] using others
      · simpa [blame, refers] using others
    | function decl => exact ih (blamed.addFunction first) later added
    | rule title =>
      cases first
      have noted : (draft.note (.ruleSkipped title)).Blamed name who := blamed.of_same blamed.indexed rfl rfl
      exact ih noted later added

end Blamed

/-- A name that a schema does not declare is blamed on the first entity that refers to it. -/
theorem addSchema_blamed {settings : Settings} {schema : Schema} {draft : Draft} {name : Name}
    (added : (empty settings).addSchema schema = (.ok (), draft)) (absent : name ∉ schema.registered) :
    draft.Blamed name ((schema.entities.find? (name ∈ ·.references)).map (·.name)) := by
  have before : (titled settings schema.name).Blamed name none :=
    ⟨titled_indexed settings schema.name, by simp [titled, Model.names], rfl⟩
  exact before.runAll_addDeclaration absent added

end Draft

end Express
