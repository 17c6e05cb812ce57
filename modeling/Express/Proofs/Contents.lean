import Express.Proofs.Consistency
import Express.Proofs.Indexing

/-!
# What a draft holds

A draft as a set of answers: the names with a slot, what is defined under each name, what has been declared, linked and
used as an entity. Each lemma gives the answers after an operation from those before it.
-/

namespace Express

/-! ### Attributes as declarations describe them -/

namespace TypeSpec

/-- The described type, taken as it is. -/
def typeRef (spec : TypeSpec) : TypeRef :=
  { base := spec.base, isCollection := spec.isCollection, rank := spec.rank, isGeneric := spec.isGeneric }

def reference? (spec : TypeSpec) : Option Name :=
  if spec.namesDefinition then some spec.base else none

/-- It is a collection exactly if its rank is positive. -/
def Sound (spec : TypeSpec) : Prop :=
  spec.isCollection = decide (1 ≤ spec.rank)

theorem Sound.resolve {spec : TypeSpec} (sound : spec.Sound) : spec.resolve = .ok spec.typeRef := by
  unfold Sound at sound
  rw [TypeSpec.resolve, typeRef?, if_pos sound]
  rfl

end TypeSpec

namespace ElementType

theorem spec_sound (settings : Settings) (type : ElementType) : (type.spec settings).Sound := by
  cases type with
  | collection head element => simp [spec, TypeSpec.Sound]
  | _ => rfl

theorem spec_isGeneric_base (settings : Settings) (type : ElementType) :
    (type.spec settings).isGeneric = (type.innermost.spec settings).isGeneric ∧
      (type.spec settings).base = (type.innermost.spec settings).base := by
  induction type with
  | collection head element ih => exact ih
  | _ => exact ⟨rfl, rfl⟩

theorem innermost_ne_collection (type : ElementType) (head : CollectionHead) (element : ElementType) :
    type.innermost ≠ .collection head element := by
  induction type with
  | collection _ _ ih => exact ih
  | _ => intro same; cases same

theorem spec_reference? (settings : Settings) (type : ElementType) :
    (type.spec settings).reference? = type.reference? := by
  obtain ⟨generic, base⟩ := spec_isGeneric_base settings type
  rw [TypeSpec.reference?, TypeSpec.namesDefinition, generic, base, reference?]
  cases inner : type.innermost with
  | collection head element => exact (innermost_ne_collection type head element inner).elim
  | simple simple => cases simple <;> rfl
  | named name => simp [spec]
  | generic label => rfl

end ElementType

namespace AttributeSpec

/-- The attribute with its type taken as described. -/
def attached (spec : AttributeSpec) : Attribute :=
  spec.attach spec.type.typeRef

/-- The link that an inverse attribute of an entity stands for. -/
def link? (entity : Name) (spec : AttributeSpec) : Option ReverseLink :=
  spec.role.forAttr?.map fun forAttr =>
    { owner := entity, ownerAttr := spec.name.base, target := spec.type.base, targetAttr := forAttr }

/-- Nothing about the description is wrong in itself. -/
def Sound (spec : AttributeSpec) : Prop :=
  spec.type.Sound ∧ (spec.role.forAttr?.isSome = true → spec.optional = false)

end AttributeSpec

namespace EntityDecl

theorem mem_attributes_iff {settings : Settings} {decl : EntityDecl} {spec : AttributeSpec} :
    spec ∈ decl.attributes settings ↔
      (∃ clause ∈ decl.explicit, spec ∈ clause.specs settings) ∨
      (∃ clause ∈ decl.derived, clause.spec settings = spec) ∨ ∃ clause ∈ decl.inverse, clause.spec = spec := by
  rw [attributes, List.mem_append, List.mem_append, List.mem_flatMap, List.mem_map, List.mem_map, or_assoc]

theorem attributes_sound (settings : Settings) (decl : EntityDecl) :
    ∀ spec ∈ decl.attributes settings, spec.Sound := by
  intro spec member
  rcases mem_attributes_iff.mp member with ⟨clause, _, member⟩ | ⟨clause, _, rfl⟩ | ⟨clause, _, rfl⟩
  · obtain ⟨name, _, rfl⟩ := List.mem_map.mp member
    exact ⟨ElementType.spec_sound settings clause.type, fun h => by cases h⟩
  · exact ⟨ElementType.spec_sound settings clause.type, fun h => by cases h⟩
  · refine ⟨?_, fun _ => rfl⟩
    rw [TypeSpec.Sound, InverseClause.spec]
    cases clause.aggregate <;> rfl

theorem filterMap_reference?_attributes (settings : Settings) (decl : EntityDecl) :
    (decl.attributes settings).filterMap (·.type.reference?) = decl.attributeReferences := by
  have explicit : ∀ clause : ExplicitClause, (clause.specs settings).filterMap (·.type.reference?) =
      clause.names.flatMap fun _ => clause.type.reference?.toList := by
    intro clause
    rw [ExplicitClause.specs, List.filterMap_map, List.filterMap_eq_flatMap_toList]
    simp [ElementType.spec_reference?]
  have derived : ∀ clause : DerivedClause, (clause.spec settings).type.reference? = clause.type.reference? :=
    fun clause => ElementType.spec_reference? settings clause.type
  have inverse : ∀ clause : InverseClause, clause.spec.type.reference? = clause.reference? :=
    fun clause => rfl
  simp only [attributes, attributeReferences, List.filterMap_append, List.filterMap_flatMap, List.filterMap_map,
    Function.comp_def, explicit, derived, inverse]

/-- The links of the inverse attributes. -/
def links (decl : EntityDecl) : List ReverseLink :=
  decl.inverse.map fun clause =>
    { owner := decl.name, ownerAttr := clause.name.base, target := clause.entity, targetAttr := clause.forAttr }

theorem filterMap_link?_attributes (settings : Settings) (decl : EntityDecl) :
    (decl.attributes settings).filterMap (·.link? decl.name) = decl.links := by
  have explicit : (decl.explicit.flatMap fun clause => (clause.specs settings).filterMap (·.link? decl.name)) = [] := by
    simp [ExplicitClause.specs, AttributeSpec.link?, Role.forAttr?]
  have derived : decl.derived.filterMap ((·.link? decl.name) ∘ DerivedClause.spec settings) = [] :=
    List.filterMap_eq_nil_iff.mpr fun _ _ => rfl
  rw [attributes, List.filterMap_append, List.filterMap_append, List.filterMap_flatMap, List.filterMap_map,
    List.filterMap_map, derived, explicit]
  exact congrFun List.filterMap_eq_map decl.inverse

/-- The entity with all its attributes. -/
def definition (settings : Settings) (decl : EntityDecl) : Definition :=
  .entity { decl.bare with attributes := (decl.attributes settings).map (·.attached) }

end EntityDecl

namespace TypeDecl

theorem definition_name {settings : Settings} {decl : TypeDecl} {d : Definition}
    (h : decl.definition settings = .ok d) : d.name = decl.name := by
  unfold definition at h
  split at h
  · cases h; rfl
  · rw [(ElementType.spec_sound settings _).resolve] at h; cases h; rfl
  all_goals cases h; rfl

theorem definition_ok (settings : Settings) (decl : TypeDecl) : ∃ d, decl.definition settings = .ok d := by
  unfold definition
  split
  · exact ⟨_, rfl⟩
  · rw [(ElementType.spec_sound settings _).resolve]; exact ⟨_, rfl⟩
  all_goals exact ⟨_, rfl⟩

end TypeDecl

namespace ParamType

theorem typeRef?_isSome (settings : Settings) (type : ParamType) :
    (type.typeRef? settings).isSome = !type.hasAggregate := by
  induction type with
  | collection kind bounds element ih => rw [typeRef?, Option.isSome_map, ih, hasAggregate]
  | _ => rfl

end ParamType

namespace FunctionDecl

theorem parameters_isSome (settings : Settings) (clauses : List ParameterClause) :
    (clauses.mapM (ParameterClause.parameters? settings)).isSome = !clauses.any (·.type.hasAggregate) := by
  induction clauses with
  | nil => rfl
  | cons clause clauses ih =>
    have first : (clause.parameters? settings).isSome = !clause.type.hasAggregate := by
      rw [ParameterClause.parameters?, Option.isSome_map, ParamType.typeRef?_isSome]
    rw [List.mapM_cons, List.any_cons, Bool.not_or, ← ih, ← first]
    cases clause.parameters? settings with
    | none => rfl
    | some parameters => cases clauses.mapM (ParameterClause.parameters? settings) <;> simp

theorem signature_isSome (settings : Settings) (decl : FunctionDecl) :
    (decl.signature settings).toOption.isSome = !decl.usesAggregate := by
  have result := decl.returnType.typeRef?_isSome settings
  have parameters := parameters_isSome settings decl.parameters
  rw [usesAggregate, Bool.not_or, ← result, ← parameters, signature]
  cases decl.returnType.typeRef? settings with
  | none => rfl
  | some type =>
    cases decl.parameters.mapM (ParameterClause.parameters? settings) <;> simp [Except.toOption]

end FunctionDecl

namespace Declaration

/-- What a type or an entity declaration defines. -/
def definition? (settings : Settings) : Declaration → Option Definition
  | .type decl => (decl.definition settings).toOption
  | .entity decl => some (decl.definition settings)
  | _ => none

def links : Declaration → List ReverseLink
  | .entity decl => decl.links
  | _ => []

def entityUses : Declaration → List Name
  | .entity decl => decl.entityUses
  | _ => []

def signature? (settings : Settings) : Declaration → Option FunctionSignature
  | .function decl => (decl.signature settings).toOption
  | _ => none

theorem definition?_name (settings : Settings) (declaration : Declaration) :
    (declaration.definition? settings).map (·.name) = declaration.registers? := by
  cases declaration with
  | type decl =>
    obtain ⟨d, ok⟩ := decl.definition_ok settings
    simp [definition?, registers?, ok, Except.toOption, TypeDecl.definition_name ok]
  | _ => rfl

end Declaration

/-! ### The view -/

/-- A name that is mentioned gets a slot behind the others, if it has none. -/
def mention (names : List Name) (name : Name) : List Name :=
  if name ∈ names then names else names ++ [name]

theorem mention_of_mem {names : List Name} {name : Name} (present : name ∈ names) : mention names name = names :=
  if_pos present

theorem mention_of_not_mem {names : List Name} {name : Name} (absent : name ∉ names) :
    mention names name = names ++ [name] :=
  if_neg absent

theorem mem_mention {names : List Name} {name other : Name} :
    other ∈ mention names name ↔ other ∈ names ∨ other = name := by
  unfold mention
  split
  · rename_i present
    constructor
    · exact .inl
    · rintro (h | rfl)
      · exact h
      · exact present
  · simp

theorem nodup_mention {names : List Name} (distinct : names.Nodup) (name : Name) : (mention names name).Nodup := by
  unfold mention
  split
  · exact distinct
  · rename_i absent
    rw [List.nodup_append]
    exact ⟨distinct, List.nodup_singleton name, by
      rintro a member b same rfl
      rw [List.mem_singleton] at same
      exact absent (same ▸ member)⟩

theorem mem_foldl_mention {mentioned names : List Name} {name : Name} :
    name ∈ mentioned.foldl mention names ↔ name ∈ names ∨ name ∈ mentioned := by
  induction mentioned generalizing names with
  | nil => simp
  | cons first mentioned ih => rw [List.foldl_cons, ih, mem_mention, List.mem_cons, or_assoc]

theorem nodup_foldl_mention {names : List Name} (distinct : names.Nodup) (mentioned : List Name) :
    (mentioned.foldl mention names).Nodup := by
  induction mentioned generalizing names with
  | nil => exact distinct
  | cons first mentioned ih => exact ih (nodup_mention distinct first)

theorem foldl_mention_of_subset {names mentioned : List Name} (old : mentioned ⊆ names) :
    mentioned.foldl mention names = names := by
  induction mentioned with
  | nil => rfl
  | cons name mentioned ih =>
    obtain ⟨here, later⟩ := List.cons_subset.mp old
    rw [List.foldl_cons, mention_of_mem here, ih later]

theorem foldl_mention (names mentioned : List Name) :
    mentioned.foldl mention names = names ++ (mentioned.filter (· ∉ names)).eraseDups := by
  induction mentioned generalizing names with
  | nil => simp
  | cons name mentioned ih =>
    rw [List.foldl_cons, ih]
    by_cases old : name ∈ names
    · rw [mention_of_mem old, List.filter_cons_of_neg (by simpa using old)]
    · rw [mention_of_not_mem old, List.filter_cons_of_pos (by simpa using old), List.eraseDups_cons, List.filter_filter,
        List.append_assoc, List.singleton_append]
      congr 3
      apply List.filter_congr
      intro other _
      by_cases same : other = name <;> simp [same]

theorem foldl_mention_nil (mentioned : List Name) : mentioned.foldl mention [] = mentioned.eraseDups := by
  simp [foldl_mention]

namespace Draft

/-- The answers that a draft gives. -/
structure View where
  title : Name
  settings : Settings
  names : List Name
  definition : Name → Definition
  declared : List Name
  entityUses : List Name
  links : ReverseIndex
  functions : List FunctionSignature
  failure : Option ModelError

def view (draft : Draft) : View where
  title := draft.model.schema
  settings := draft.model.settings
  names := draft.model.names
  definition := draft.model.definition
  declared := draft.declared
  entityUses := draft.entityUses
  links := draft.model.links
  functions := draft.model.functions
  failure := draft.failure

namespace View

/-- The answers after attaching attributes to an entity that is `e` before. -/
def attach (view : View) (entity : Name) (e : Entity) (specs : List AttributeSpec) : View where
  title := view.title
  settings := view.settings
  names := (specs.filterMap (·.type.reference?)).foldl mention view.names
  definition := Function.update view.definition entity
    (.entity { e with attributes := e.attributes ++ specs.map (·.attached) })
  declared := view.declared
  entityUses := view.entityUses ++ (specs.filterMap (·.link? entity)).map (·.target)
  links := view.links.insertAll (specs.filterMap (·.link? entity))
  functions := view.functions
  failure := view.failure

theorem attach_nil {view : View} {entity : Name} {e : Entity} (defined : view.definition entity = .entity e) :
    view.attach entity e [] = view := by
  have same : Function.update view.definition entity (.entity e) = view.definition := by
    rw [← defined, Function.update_eq_self]
  simp [attach, same]

theorem attach_cons (view : View) (entity : Name) (e : Entity) (spec : AttributeSpec) (specs : List AttributeSpec) :
    (view.attach entity e [spec]).attach entity { e with attributes := e.attributes ++ [spec.attached] } specs =
      view.attach entity e (spec :: specs) := by
  have split {β : Type} (f : AttributeSpec → Option β) :
      (spec :: specs).filterMap f = [spec].filterMap f ++ specs.filterMap f := @List.filterMap_append _ _ [spec] specs f
  simp only [attach, split, List.foldl_append, List.map_append, List.append_assoc, Function.update_idem,
    ReverseIndex.insertAll_append, List.map_cons, List.map_nil, List.singleton_append]

/-- The answers after one more declaration. -/
def add (view : View) (declaration : Declaration) : View where
  title := view.title
  settings := view.settings
  names := declaration.mentions.foldl mention view.names
  definition := match declaration.definition? view.settings with
    | some d => Function.update view.definition d.name d
    | none => view.definition
  declared := view.declared ++ declaration.registers?.toList
  entityUses := view.entityUses ++ declaration.entityUses
  links := view.links.insertAll declaration.links
  functions := view.functions ++ (declaration.signature? view.settings).toList
  failure := view.failure

/-- The answers after a failure; only the first one is remembered. -/
def fail (view : View) (e : ModelError) : View :=
  { view with failure := view.failure.or (some e) }

/-- Nothing of that name has been declared yet, and no function needs an `AGGREGATE`. -/
def Admits (view : View) : Declaration → Prop
  | .type decl => decl.name ∉ view.declared
  | .entity decl => decl.name ∉ view.declared
  | .function decl => decl.name ∉ view.functions.map (·.name) ∧ decl.usesAggregate = false
  | .rule _ => True

end View

theorem view_note (draft : Draft) (notice : Notice) : (draft.note notice).view = draft.view :=
  rfl

theorem view_append {draft : Draft} (indexed : draft.model.Indexed) {d : Definition}
    (fresh : d.name ∉ draft.model.names) : (draft.append d).view = { draft.view with
      names := draft.view.names ++ [d.name]
      definition := Function.update draft.view.definition d.name d } := by
  rw [view, names_append, definition_append indexed fresh]
  rfl

theorem view_replace {draft : Draft} (indexed : draft.model.Indexed) {d : Definition} {slot : Nat}
    (h : draft.model.slot? d.name = some slot) :
    (draft.replace slot d).view = { draft.view with
      definition := Function.update draft.view.definition d.name d } := by
  rw [view, names_replace indexed h, definition_replace indexed h]
  rfl

/-- A placeholder answers for its name just as no slot does. -/
theorem view_resolve {draft : Draft} (indexed : draft.model.Indexed) (name referrer : Name) :
    (draft.resolve name referrer).view = { draft.view with names := mention draft.view.names name } := by
  unfold resolve
  by_cases present : name ∈ draft.view.names
  · rw [if_pos (indexed.contains_iff.mpr present), mention_of_mem present]
  · rw [if_neg (fun h => present (indexed.contains_iff.mp h)), mention_of_not_mem present]
    refine (view_append (by exact indexed) (by exact present)).trans ?_
    have same : Function.update draft.view.definition name (.entity (.placeholder name)) = draft.view.definition := by
      rw [← indexed.definition_of_not_mem present]
      exact Function.update_eq_self _ _
    exact congrArg (fun definition => View.mk _ _ _ definition _ _ _ _ _) same

theorem view_relate {draft : Draft} (indexed : draft.model.Indexed) (referrer name : Name) :
    (draft.relate referrer name).view = { draft.view with
      names := mention draft.view.names name
      entityUses := draft.view.entityUses ++ [name] } :=
  congrArg (fun view : View => { view with entityUses := view.entityUses ++ [name] })
    (view_resolve indexed name referrer)

theorem view_foldl_relate {draft : Draft} (indexed : draft.model.Indexed) (referrer : Name) (related : List Name) :
    (related.foldl (·.relate referrer) draft).view = { draft.view with
      names := related.foldl mention draft.view.names
      entityUses := draft.view.entityUses ++ related } := by
  induction related generalizing draft with
  | nil => simp
  | cons name related ih =>
    rw [List.foldl_cons, ih (relate_indexed indexed referrer name), view_relate indexed]
    simp

/-- Declaring a name that is new gives it a slot, the one of its placeholder if there is one. -/
theorem declare_view {draft : Draft} (indexed : draft.model.Indexed) {d : Definition}
    (fresh : d.name ∉ draft.declared) :
    ∃ slot after, draft.declare d = (.ok slot, after) ∧ after.view = { draft.view with
      names := mention draft.view.names d.name
      definition := Function.update draft.view.definition d.name d
      declared := draft.view.declared ++ [d.name] } := by
  have new : ¬ draft.declared.contains d.name = true := by simpa using fresh
  unfold declare
  rw [if_neg new]
  dsimp only
  split
  · rename_i slot found
    refine ⟨_, _, rfl, ?_⟩
    rw [view_replace (by exact indexed) found]
    have present : d.name ∈ draft.view.names := indexed.contains_iff.mp (Option.isSome_of_mem found)
    rw [mention_of_mem present]
    rfl
  · rename_i found
    have absent : d.name ∉ draft.view.names := indexed.definitions.get?_eq_none_iff.mp found
    refine ⟨_, _, rfl, (view_append (by exact indexed) (by exact absent)).trans ?_⟩
    rw [mention_of_not_mem absent]
    rfl

theorem declare_refused {draft : Draft} {d : Definition} (known : d.name ∈ draft.declared) :
    draft.declare d = (.error (.duplicateDeclaration d.name), draft) := by
  rw [declare, if_pos (by simpa using known)]

/-! ### Attributes -/

theorem attributeType_ok {draft : Draft} (indexed : draft.model.Indexed) {entity : Name} {spec : AttributeSpec}
    (present : entity ∈ draft.model.names) (declared : entity ∈ draft.declared) (sound : spec.Sound) :
    draft.attributeType entity spec = .ok spec.type.typeRef := by
  obtain ⟨type, optional⟩ := sound
  have there : (draft.model.contains entity && draft.declared.contains entity) = true := by
    rw [indexed.contains_iff.mpr present]
    simpa using declared
  have ranked : ¬ (spec.type.isCollection && spec.type.rank == 0) = true := by
    rw [type, Bool.and_eq_true, decide_eq_true_eq, beq_iff_eq]
    omega
  have required : ¬ (spec.role.forAttr?.isSome && spec.optional) = true := by
    rw [Bool.and_eq_true]
    rintro ⟨inverse, optionalToo⟩
    rw [optional inverse] at optionalToo
    cases optionalToo
  rw [attributeType, if_neg (by rw [there]; simp), if_neg ranked, if_neg required, type.resolve]

theorem view_link (draft : Draft) (entity : Name) (spec : AttributeSpec) :
    (draft.link entity spec).view = { draft.view with
      entityUses := draft.view.entityUses ++ ([spec].filterMap (·.link? entity)).map (·.target)
      links := draft.view.links.insertAll ([spec].filterMap (·.link? entity)) } := by
  cases role : spec.role with
  | inverse forAttr =>
    rw [link, role, List.filterMap_cons_some (by rw [AttributeSpec.link?, role]; rfl)]
    rfl
  | _ => simp [link, AttributeSpec.link?, role, Role.forAttr?, view]

theorem view_withType {draft : Draft} (indexed : draft.model.Indexed) (entity : Name) (spec : AttributeSpec) :
    (draft.withType entity spec).view = { draft.view with
      names := ([spec].filterMap (·.type.reference?)).foldl mention draft.view.names } := by
  unfold withType TypeSpec.reference?
  split
  · rename_i names
    simpa [names] using view_resolve indexed _ _
  · rename_i names
    simp [names]

/-- Attaching a sound attribute to a declared entity succeeds. -/
theorem attach_view {draft : Draft} (indexed : draft.model.Indexed) {entity : Name} {spec : AttributeSpec} {e : Entity}
    (present : entity ∈ draft.view.names) (declared : entity ∈ draft.view.declared)
    (defined : draft.view.definition entity = .entity e) (sound : spec.Sound) :
    ∃ after, draft.attach entity spec = (.ok (), after) ∧ after.view = draft.view.attach entity e [spec] := by
  have view := view_withType indexed entity spec
  have resolved := withType_indexed indexed entity spec
  obtain ⟨slot, slotted⟩ := Option.isSome_iff_exists.mp (indexed.contains_iff.mpr present)
  have slottedToo := slot?_withType slotted spec
  have found : (draft.withType entity spec).model.find? entity = some (.entity e) := by
    refine resolved.find?_eq_some_iff.mpr ⟨?_, (congrFun (congrArg View.definition view) entity).trans defined⟩
    exact resolved.contains_iff.mp (Option.isSome_of_mem slottedToo)
  have there : (draft.withType entity spec).model.definitions[slot]? = some (.entity e) := by
    rwa [Model.find?, slottedToo] at found
  have named : e.name = entity := resolved.find?_name found
  have written := @view_replace (draft.withType entity spec) resolved
    (.entity { e with attributes := e.attributes ++ [spec.attached] }) slot (by exact named ▸ slottedToo)
  unfold Draft.attach
  rw [attributeType_ok indexed present declared sound]
  dsimp only
  rw [slotted]
  dsimp only [Option.bind_some]
  rw [there]
  refine ⟨_, rfl, (view_link _ _ _).trans ?_⟩
  rw [show spec.attach spec.type.typeRef = spec.attached from rfl, written, view]
  subst named
  rfl

theorem runAll_attach_view {draft : Draft} (indexed : draft.model.Indexed) (entity : Name)
    (specs : List AttributeSpec) {e : Entity}
    (present : entity ∈ draft.view.names) (declared : entity ∈ draft.view.declared)
    (defined : draft.view.definition entity = .entity e) (sound : ∀ spec ∈ specs, spec.Sound) :
    ∃ after, runAll (·.attach entity) draft specs = (.ok (), after) ∧
      after.view = draft.view.attach entity e specs := by
  induction specs generalizing draft e with
  | nil => exact ⟨draft, rfl, (View.attach_nil defined).symm⟩
  | cons spec specs ih =>
    obtain ⟨next, attached, first⟩ := attach_view indexed present declared defined (sound spec List.mem_cons_self)
    have indexedNext := attach_indexed indexed entity spec
    rw [attached] at indexedNext
    obtain ⟨after, attachedAll, others⟩ := ih indexedNext
      (by rw [first]; exact mem_foldl_mention.mpr (.inl present)) (by rw [first]; exact declared)
      (by rw [first]; exact Function.update_self ..) (fun spec member => sound spec (List.mem_cons_of_mem _ member))
    refine ⟨after, ?_, ?_⟩
    · rw [runAll, attached]
      exact attachedAll
    · rw [others, first]
      exact View.attach_cons ..

end Draft

end Express
