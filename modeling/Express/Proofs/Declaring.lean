import Express.Proofs.Moves

/-!
# What a declaration stores

A definition enters a draft bare: it is no placeholder, has no attributes yet, and its types are consistent. Types and
entities are declared alike (`View.declare`), and every attribute that is attached later is consistent too.
-/

namespace Express

namespace TypeRef

/-- The definition that the type refers to, if its base is neither simple nor generic. -/
def reference? (type : TypeRef) : Option Name :=
  if !type.isGeneric && type.simple?.isNone then some type.base else none

theorem reference?_eq_some {type : TypeRef} (named : type.isGeneric = false) (other : type.simple? = none) :
    type.reference? = some type.base := by
  simp [reference?, named, other]

theorem wellFormed_of_flat {type : TypeRef} (single : type.isCollection = false) (flat : type.rank = 0) :
    type.WellFormed := by
  simp [WellFormed, single, flat]

theorem wellFormed_nested (type : TypeRef) (depth : Nat) : (type.nested depth).WellFormed := by
  unfold WellFormed nested
  rw [decide_eq_true_eq]

end TypeRef

namespace TypeSpec

theorem Sound.wellFormed {spec : TypeSpec} (sound : spec.Sound) : spec.typeRef.WellFormed := by
  unfold Sound at sound
  show spec.isCollection = true ↔ 1 ≤ spec.rank
  rw [sound, decide_eq_true_eq]

theorem reference?_typeRef (spec : TypeSpec) : spec.typeRef.reference? = spec.reference? := by
  unfold TypeRef.reference? TypeRef.simple? reference? namesDefinition typeRef
  cases spec.isGeneric <;> rfl

end TypeSpec

namespace ParamType

theorem typeRef?_wellFormed {settings : Settings} {type : ParamType} {resolved : TypeRef}
    (h : type.typeRef? settings = some resolved) : resolved.WellFormed := by
  cases type with
  | collection kind bounds element =>
    obtain ⟨inner, _, rfl⟩ := Option.map_eq_some_iff.mp h
    exact inner.wellFormed_nested 1
  | aggregate label element => cases h
  | _ =>
    cases h
    exact TypeRef.wellFormed_of_flat rfl rfl

end ParamType

namespace FunctionSignature

def types (function : FunctionSignature) : List TypeRef :=
  function.returnType :: function.parameters.map (·.type)

end FunctionSignature

namespace FunctionDecl

theorem parameters_wellFormed {settings : Settings} {clauses : List ParameterClause} {groups : List (List Parameter)}
    (h : clauses.mapM (ParameterClause.parameters? settings) = some groups) :
    ∀ parameter ∈ groups.flatten, parameter.type.WellFormed := by
  induction clauses generalizing groups with
  | nil =>
    cases h
    simp
  | cons clause clauses ih =>
    rw [List.mapM_cons] at h
    obtain ⟨first, read, h⟩ := Option.bind_eq_some_iff.mp h
    obtain ⟨others, readOthers, h⟩ := Option.bind_eq_some_iff.mp h
    cases h
    intro parameter member
    rw [List.flatten_cons, List.mem_append] at member
    rcases member with here | later
    · obtain ⟨type, resolved, rfl⟩ := Option.map_eq_some_iff.mp read
      obtain ⟨name, _, rfl⟩ := List.mem_map.mp here
      exact ParamType.typeRef?_wellFormed resolved
    · exact ih readOthers parameter later

theorem signature_wellFormed {settings : Settings} {decl : FunctionDecl} {function : FunctionSignature}
    (h : decl.signature settings = .ok function) : ∀ type ∈ function.types, type.WellFormed := by
  unfold signature at h
  cases result : decl.returnType.typeRef? settings with
  | none =>
    rw [result] at h
    cases h
  | some returnType =>
    rw [result] at h
    cases read : decl.parameters.mapM (ParameterClause.parameters? settings) with
    | none =>
      rw [read] at h
      cases h
    | some groups =>
      rw [read] at h
      cases h
      intro type member
      rcases List.mem_cons.mp member with rfl | member
      · exact ParamType.typeRef?_wellFormed result
      · obtain ⟨parameter, listed, rfl⟩ := List.mem_map.mp member
        exact parameters_wellFormed read parameter listed

end FunctionDecl

namespace Definition

def attributes : Definition → List Attribute
  | .entity e => e.attributes
  | _ => []

/-- The parents and children of an entity. -/
def relatives : Definition → List Name
  | .entity e => e.parents ++ e.children
  | _ => []

/-- The types that a definition is made of. -/
def types : Definition → List TypeRef
  | .entity e => e.attributes.map (·.type)
  | .wrapper w => [w.wrapped]
  | _ => []

/-- The names that a definition uses as those of others. -/
def references (d : Definition) : List Name :=
  d.relatives ++ d.attributes.filterMap (·.type.reference?)

/-- A definition as it is declared. Its parents and children are among the names in `related`. -/
structure Bare (related : List Name) (d : Definition) : Prop where
  real : d.isPlaceholder = false
  attributes : d.attributes = []
  relatives : ∀ name ∈ d.relatives, name ∈ related
  types : ∀ type ∈ d.types, type.WellFormed

theorem Bare.references {related : List Name} {d : Definition} (bare : d.Bare related) :
    ∀ name ∈ d.references, name ∈ related := by
  intro name member
  rw [Definition.references, bare.attributes, List.filterMap_nil, List.append_nil] at member
  exact bare.relatives name member

end Definition

theorem TypeDecl.bare_definition {settings : Settings} {decl : TypeDecl} {d : Definition}
    (h : decl.definition settings = .ok d) : d.Bare [] := by
  have wrapper : ∀ wrapped : TypeRef, wrapped.WellFormed →
      (Definition.wrapper { name := decl.name, wrapped }).Bare [] := by
    intro wrapped wellFormed
    refine ⟨rfl, rfl, by simp [Definition.relatives], ?_⟩
    intro type member
    rwa [List.mem_singleton.mp member]
  unfold definition at h
  cases body : decl.body with
  | simple type =>
    rw [body] at h
    cases h
    exact wrapper _ (TypeRef.wellFormed_of_flat rfl rfl)
  | collection head element =>
    have sound := ElementType.spec_sound settings (.collection head element)
    simp only [body, sound.resolve] at h
    cases h
    exact wrapper _ sound.wellFormed
  | named target =>
    rw [body] at h
    cases h
    exact wrapper _ (TypeRef.wellFormed_of_flat rfl rfl)
  | enumeration literals =>
    rw [body] at h
    cases h
    exact ⟨rfl, rfl, by simp [Definition.relatives], by simp [Definition.types]⟩
  | select alternatives =>
    rw [body] at h
    cases h
    exact ⟨rfl, rfl, by simp [Definition.relatives], by simp [Definition.types]⟩

theorem EntityDecl.bare_definition (decl : EntityDecl) :
    (Definition.entity decl.bare).Bare (decl.children ++ decl.subtypeOf) := by
  refine ⟨rfl, rfl, ?_, by simp [Definition.types, EntityDecl.bare]⟩
  intro name member
  rcases List.mem_append.mp member with parent | child
  · exact List.mem_append_right _ parent
  · exact List.mem_append_left _ child

namespace Draft.View

/-- The answers once a definition is declared and the names that it relates to have slots. -/
def declare (view : View) (d : Definition) (related : List Name) : View :=
  { view with
    names := related.foldl mention (mention view.names d.name)
    definition := Function.update view.definition d.name d
    declared := view.declared ++ [d.name]
    entityUses := view.entityUses ++ related }

section Laws

variable {view : View} {d : Definition} {related : List Name} {entity : Name} {e : Entity} {spec : AttributeSpec}

theorem declare_self : (view.declare d related).definition d.name = d :=
  Function.update_self ..

theorem declare_other {name : Name} (different : name ≠ d.name) :
    (view.declare d related).definition name = view.definition name :=
  Function.update_of_ne different ..

theorem mem_names_declare {name : Name} :
    name ∈ (view.declare d related).names ↔ (name ∈ view.names ∨ name = d.name) ∨ name ∈ related := by
  rw [← mem_mention]
  exact mem_foldl_mention

theorem attach_self : (view.attach entity e [spec]).definition entity =
    .entity { e with attributes := e.attributes ++ [spec.attached] } :=
  Function.update_self ..

theorem attach_other {name : Name} (different : name ≠ entity) :
    (view.attach entity e [spec]).definition name = view.definition name :=
  Function.update_of_ne different ..

theorem mem_names_attach {name : Name} :
    name ∈ (view.attach entity e [spec]).names ↔ name ∈ view.names ∨ spec.attached.type.reference? = some name := by
  refine mem_foldl_mention.trans (or_congr_right ?_)
  rw [List.mem_filterMap]
  simp only [List.mem_singleton, exists_eq_left]
  rw [← spec.type.reference?_typeRef]
  rfl

end Laws

theorem add_type {view : View} {decl : TypeDecl} {d : Definition} (h : decl.definition view.settings = .ok d) :
    view.add (.type decl) = view.declare d [] := by
  have defined : (Declaration.type decl).definition? view.settings = some d := by
    rw [Declaration.definition?, h]
    rfl
  rw [View.add, defined]
  simp [declare, Declaration.mentions, Declaration.registers?, Declaration.entityUses, Declaration.links,
    Declaration.signature?, TypeDecl.definition_name h]

theorem add_function {view : View} {decl : FunctionDecl} {function : FunctionSignature}
    (h : decl.signature view.settings = .ok function) :
    view.add (.function decl) = { view with functions := view.functions ++ [function] } := by
  have signed : (Declaration.function decl).signature? view.settings = some function := by
    rw [Declaration.signature?, h]
    rfl
  rw [View.add, signed]
  simp [Declaration.mentions, Declaration.registers?, Declaration.entityUses, Declaration.links,
    Declaration.definition?]

/-- Each move sets the title, fails, mentions, declares, adds a function or attaches an attribute. -/
inductive Change (view : View) : View → Prop where
  | title (name : Name) : Change view { view with title := name }
  | fail (e : ModelError) : Change view (view.fail e)
  | mention (names : List Name) : Change view { view with names := names.foldl mention view.names }
  | declare {d : Definition} {related : List Name} (fresh : d.name ∉ view.declared) (bare : d.Bare related) :
      Change view (view.declare d related)
  | function {function : FunctionSignature} (fresh : function.name ∉ view.functions.map (·.name))
      (types : ∀ type ∈ function.types, type.WellFormed) :
      Change view { view with functions := view.functions ++ [function] }
  | attach {entity : Name} {e : Entity} {spec : AttributeSpec} (present : entity ∈ view.names)
      (declared : entity ∈ view.declared) (defined : view.definition entity = .entity e) (sound : spec.Sound) :
      Change view (view.attach entity e [spec])

theorem Move.change {view next : View} (move : Move view next) : Change view next := by
  cases move with
  | title name => exact .title name
  | fail e => exact .fail e
  | mention names => exact .mention names
  | type decl fresh =>
    obtain ⟨d, defines⟩ := decl.definition_ok view.settings
    rw [add_type defines]
    refine .declare ?_ (TypeDecl.bare_definition defines)
    rwa [TypeDecl.definition_name defines]
  | entity decl fresh => exact .declare fresh decl.bare_definition
  | function decl admitted =>
    obtain ⟨function, signed⟩ := FunctionDecl.signature_ok view.settings admitted.2
    rw [add_function signed]
    refine .function ?_ (FunctionDecl.signature_wellFormed signed)
    rw [FunctionDecl.signature_name signed]
    exact admitted.1
  | attach present declared defined sound => exact .attach present declared defined sound

end Draft.View

end Express
