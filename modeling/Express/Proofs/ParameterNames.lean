import Express.Proofs.FileNames

/-!
# Names of parameters

A constructor's parameters are called like the attributes, with a small first letter, and `Operator` is shortened to
`op`. The names of a compiled model are identifiers, so attributes that differ in more than case have different
parameters, with one exception: `op` is the parameter of `Operator` and of an attribute of that short name
(`parameters_distinct`).
-/

namespace Express

/-! ### Parameters of identifiers -/

namespace Text

theorem lower_of_lt : ∀ n < 128, lower (Char.ofNat n) = [(Char.ofNat n).toLower] := by decide +kernel

theorem toLower_eq_o_of_lt : ∀ n < 128, (Char.ofNat n).toLower = 'o' → Char.ofNat n = 'o' ∨ Char.ofNat n = 'O' := by
  decide +kernel

end Text

namespace Name

theorem toNat_lt_of_isStart {c : Char} (start : isStart c = true) : c.toNat < 128 := by
  unfold isStart Char.isAlpha Char.isUpper Char.isLower at start
  simp only [Bool.or_eq_true, Bool.and_eq_true, decide_eq_true_eq, beq_iff_eq, ge_iff_le, UInt32.le_iff_toNat_le,
    Char.toNat_val, Char.reduceToNat] at start
  rcases start with (upper | lower) | rfl
  · omega
  · omega
  · decide

theorem lower_of_isStart {c : Char} (start : isStart c = true) : Text.lower c = [c.toLower] := by
  have ascii := Text.lower_of_lt c.toNat (toNat_lt_of_isStart start)
  rwa [Char.ofNat_toNat] at ascii

theorem toLower_eq_o_iff {c : Char} (start : isStart c = true) : c.toLower = 'o' ↔ c = 'o' ∨ c = 'O' := by
  constructor
  · have ascii := Text.toLower_eq_o_of_lt c.toNat (toNat_lt_of_isStart start)
    rwa [Char.ofNat_toNat] at ascii
  · rintro (rfl | rfl) <;> rfl

theorem parameter_of_ne {name : Name} (spelled : name.isIdentifier = true) (unreserved : name ≠ "Operator") :
    ∃ c cs, name.toList = c :: cs ∧ isStart c = true ∧ name.parameter = String.ofList (c.toLower :: cs) := by
  obtain ⟨c, cs, shape, start, -⟩ := exists_cons_of_isIdentifier spelled
  refine ⟨c, cs, shape, start, ?_⟩
  rw [parameter, if_neg unreserved, shape]
  dsimp only
  rw [lower_of_isStart start, List.singleton_append]

theorem sameIgnoringCase_iff {a b : Name} :
    a.sameIgnoringCase b = true ↔ a.toList.map Char.toLower = b.toList.map Char.toLower :=
  beq_iff_eq

/-- A name with the parameter of `Operator`. -/
theorem parameter_eq_op_iff {name : Name} (spelled : name.isIdentifier = true) (unreserved : name ≠ "Operator") :
    name.parameter = "op" ↔ name = "op" ∨ name = "Op" := by
  obtain ⟨c, cs, shape, start, written⟩ := parameter_of_ne spelled unreserved
  have short (other : Name) : name = other ↔ c :: cs = other.toList := by rw [← shape, String.toList_inj]
  rw [written, short, short, ← String.toList_inj, String.toList_ofList]
  change c.toLower :: cs = ['o', 'p'] ↔ c :: cs = ['o', 'p'] ∨ c :: cs = ['O', 'p']
  rw [List.cons.injEq, List.cons.injEq, List.cons.injEq, toLower_eq_o_iff start, or_and_right]

/-- Other names have the parameter in common only if they differ in the case of their first letters. -/
theorem parameter_inj {a b : Name} (spelled : a.isIdentifier = true) (spelled' : b.isIdentifier = true)
    (unreserved : a ≠ "Operator") (unreserved' : b ≠ "Operator") (same : a.parameter = b.parameter) :
    a.sameIgnoringCase b = true := by
  obtain ⟨c, cs, shape, -, written⟩ := parameter_of_ne spelled unreserved
  obtain ⟨d, ds, shape', -, written'⟩ := parameter_of_ne spelled' unreserved'
  rw [written, written', String.ofList_inj, List.cons.injEq] at same
  rw [sameIgnoringCase_iff, shape, shape', List.map_cons, List.map_cons, same.1, same.2]

/-- Whether `op`, the short form of `Operator`, is the parameter of another name, too. -/
def isShortFormTaken (names : List Name) : Bool :=
  names.contains "Operator" && (names.contains "op" || names.contains "Op")

theorem isShortFormTaken_iff {names : List Name} :
    isShortFormTaken names = true ↔ "Operator" ∈ names ∧ ∃ short ∈ names, short = "op" ∨ short = "Op" := by
  simp [isShortFormTaken, exists_or, and_or_left]

theorem parameter_ne {a b : Name} (spelled : a.isIdentifier = true) (spelled' : b.isIdentifier = true)
    (different : a.sameIgnoringCase b = false) (free : isShortFormTaken [a, b] = false) : a.parameter ≠ b.parameter := by
  intro same
  have taken (short : Name) (member : short ∈ [a, b]) (reserved : "Operator" ∈ [a, b])
      (is : short = "op" ∨ short = "Op") : False := by
    have found := isShortFormTaken_iff.mpr ⟨reserved, short, member, is⟩
    rw [free] at found
    cases found
  by_cases reserved : a = "Operator"
  · subst reserved
    have unreserved : b ≠ "Operator" := by
      rintro rfl
      exact absurd different (by decide)
    exact taken b (by simp) (by simp) ((parameter_eq_op_iff spelled' unreserved).mp same.symm)
  · by_cases reserved' : b = "Operator"
    · subst reserved'
      exact taken a (by simp) (by simp) ((parameter_eq_op_iff spelled reserved).mp same)
    · rw [parameter_inj spelled spelled' reserved reserved' same] at different
      cases different

end Name

theorem nodup_parameterName_iff {attrs : List Attribute} (spelled : ∀ attr ∈ attrs, attr.name.isIdentifier = true)
    (distinct : attrs.Pairwise fun a b => a.name.sameIgnoringCase b.name = false) :
    (attrs.map (·.parameterName)).Nodup ↔ Name.isShortFormTaken (attrs.map (·.name)) = false := by
  constructor
  · intro nodup
    rw [Bool.eq_false_iff]
    intro taken
    obtain ⟨reserved, _, short, is⟩ := Name.isShortFormTaken_iff.mp taken
    obtain ⟨operator, member, named⟩ := List.mem_map.mp reserved
    obtain ⟨other, member', rfl⟩ := List.mem_map.mp short
    have unreserved : other.name ≠ "Operator" := by rcases is with is | is <;> rw [is] <;> decide
    have same : operator.parameterName = other.parameterName := by
      rw [Attribute.parameterName, named, Attribute.parameterName,
        (Name.parameter_eq_op_iff (spelled other member') unreserved).mpr is]
      rfl
    exact unreserved (List.inj_on_of_nodup_map nodup member member' same ▸ named)
  · intro free
    refine List.pairwise_map.mpr (distinct.imp_of_mem fun {a b} member member' different => ?_)
    refine Name.parameter_ne (spelled a member) (spelled b member') different ?_
    -- What two attributes have is a part of what all of them have.
    rw [Bool.eq_false_iff] at free ⊢
    intro taken
    obtain ⟨reserved, short, listed, is⟩ := Name.isShortFormTaken_iff.mp taken
    have all : ∀ name ∈ [a.name, b.name], name ∈ attrs.map (·.name) := by
      intro name among
      rcases List.mem_pair.mp among with rfl | rfl
      · exact List.mem_map_of_mem member
      · exact List.mem_map_of_mem member'
    exact free (Name.isShortFormTaken_iff.mpr ⟨all _ reserved, short, all _ listed, is⟩)

/-! ### Attributes of a compiled model -/

theorem EntityDecl.attributes_spelled {settings : Settings} {decl : EntityDecl} (spelled : decl.isSpelled = true) :
    ∀ spec ∈ decl.attributes settings, spec.name.base.isIdentifier = true := by
  have base {name : AttributeName} (spelled : name.isSpelled = true) : name.base.isIdentifier = true := by
    cases name with
    | simple name => exact spelled
    | qualified entity attr => exact (Bool.and_eq_true_iff.mp spelled).2
  simp only [isSpelled, Bool.and_eq_true, List.all_eq_true] at spelled
  obtain ⟨⟨⟨-, explicits⟩, deriveds⟩, inverses⟩ := spelled
  intro spec listed
  rcases mem_attributes_iff.mp listed with ⟨clause, own, listed⟩ | ⟨clause, own, rfl⟩ | ⟨clause, own, rfl⟩
  · obtain ⟨name, written, rfl⟩ := List.mem_map.mp listed
    have whole := explicits clause own
    simp only [ExplicitClause.isSpelled, Bool.and_eq_true, List.all_eq_true] at whole
    exact base (whole.1.2 name written)
  · exact base (Bool.and_eq_true_iff.mp (deriveds clause own)).1
  · have whole := inverses clause own
    simp only [InverseClause.isSpelled, Bool.and_eq_true] at whole
    exact base whole.1.1

namespace Model

variable {settings : Settings} {text : String} {model : Model}

theorem attributes_spelled (compiled : (compile settings text).1 = .ok model) {name : Name} {e : Entity}
    (found : model.find? name = some (.entity e)) : ∀ attr ∈ e.attributes, attr.name.isIdentifier = true := by
  obtain ⟨schema, read, built⟩ := exists_build_of_compile compiled
  have spelled := List.all_eq_true.mp (Bool.and_eq_true_iff.mp (Schema.isSpelled_of_read read)).2
  obtain ⟨-, reflects, -⟩ := consistent_of_build built
  rcases reflects.entity_cases found with ⟨decl, listed, -, defined⟩ | ⟨-, rfl⟩
  · cases defined
    intro attr own
    obtain ⟨spec, among, rfl⟩ := List.mem_map.mp own
    exact EntityDecl.attributes_spelled (spelled (.entity decl) (Schema.mem_entities_iff.mp listed)) spec among
  · intro attr own
    cases own

theorem positional_spelled (compiled : (compile settings text).1 = .ok model) {name : Name} {e : Entity}
    {chain : List Entity} (placed : model.Placed name e chain) :
    ∀ attr ∈ positional chain, attr.name.isIdentifier = true := by
  intro attr listed
  obtain ⟨x, member, own⟩ := List.mem_flatMap.mp listed
  exact attributes_spelled compiled (placed.find?_of_mem member) attr (List.mem_of_mem_filter own)

theorem sublist_of_mem_overloadsOf {all parameters : List Attribute} (listed : parameters ∈ overloadsOf all) :
    parameters.Sublist all := by
  obtain ⟨-, -, two⟩ | ⟨-, -, one⟩ := overloadsOf_cases all
  · rw [two] at listed
    rcases List.mem_pair.mp listed with rfl | rfl
    · exact List.filter_sublist
    · exact .refl _
  · rw [one] at listed
    exact List.mem_singleton.mp listed ▸ .refl _

end Model

/-! ### Constructors of an outline -/

namespace Json

/-- The last member with a key, where a member stands in front of others. -/
theorem get?_cons (key : String) (member : String × Json) (members : List (String × Json)) :
    (obj (member :: members)).get? key =
      ((obj members).get? key).or (if member.1 = key then some member.2 else none) := by
  simp only [get?, List.reverse_cons, List.find?_append, List.find?_singleton, beq_iff_eq]
  cases members.reverse.find? (·.1 == key) with
  | some found => rfl
  | none => split <;> rfl

theorem get?_insertByKey (key : String) (member : String × Json) (members : List (String × Json)) :
    (obj (insertByKey member members)).get? key = (obj (member :: members)).get? key := by
  induction members with
  | nil => rfl
  | cons other members ih =>
    rw [insertByKey]
    split
    · rename_i less
      rw [get?_cons, ih, get?_cons, get?_cons, get?_cons, Option.or_assoc, Option.or_assoc]
      -- The two members do not have the same key.
      by_cases this : member.1 = key
      · have that : other.1 ≠ key := by
          rintro rfl
          rw [this] at less
          exact absurd less (String.lt_irrefl _)
        rw [if_pos this, if_neg that, Option.or_none, Option.none_or]
      · rw [if_neg this, Option.none_or, Option.or_none]
    · rfl

theorem get?_sortKeys (key : String) (whole : Json) : (sortKeys whole).get? key = (whole.get? key).map sortKeys := by
  cases whole with
  | obj members =>
    rw [sortKeys]
    induction members with
    | nil => rfl
    | cons member members ih =>
      obtain ⟨name, value⟩ := member
      rw [sortMembers, get?_insertByKey, get?_cons, ih, get?_cons, Option.map_or]
      split <;> rfl
  | _ => rfl

theorem sortItems_of_forall {items : List Json} (sorted : ∀ item ∈ items, sortKeys item = item) :
    sortItems items = items := by
  induction items with
  | nil => rfl
  | cons item items ih =>
    obtain ⟨first, others⟩ := List.forall_mem_cons.mp sorted
    rw [sortItems, first, ih others]

theorem sortKeys_arr_strs (lists : List (List String)) : sortKeys (.arr (lists.map strs)) = .arr (lists.map strs) := by
  rw [sortKeys, sortItems_of_forall]
  intro item member
  obtain ⟨texts, -, rfl⟩ := List.mem_map.mp member
  rw [strs, sortKeys, sortItems_of_forall]
  intro text listed
  obtain ⟨-, -, rfl⟩ := List.mem_map.mp listed
  rfl

end Json

theorem Page.constructors_body (options : OutlineOptions) (page : EntityPage) :
    ((Page.entity page).body options).get? "constructors" =
      some (.arr ((page.constructors.map (·.map (·.parameterName))).map .strs)) := by
  rw [Page.body, Json.get?_sortKeys]
  simp only [Json.get?_cons, String.reduceEq, if_true, if_false, Option.or_none]
  have sorted := Json.sortKeys_arr_strs (page.constructors.map (·.map Attribute.parameterName))
  rw [List.map_map] at sorted ⊢
  exact congrArg some sorted

namespace Model

variable {model : Model} {name : Name}

theorem overloads_of_entityPage {page : EntityPage} (read : model.entityPage name = .ok page) :
    model.overloads name = .ok page.constructors := by
  obtain ⟨entity, -, read⟩ := bind_ok read
  obtain ⟨constructors, overloads, read⟩ := bind_ok read
  obtain ⟨_, -, read⟩ := bind_ok read
  obtain ⟨_, -, read⟩ := bind_ok read
  obtain ⟨_, -, read⟩ := bind_ok read
  cases read
  exact overloads

/-- The document of an entity in an outline lists the entity's overloads by the names of their parameters. -/
theorem Finished.constructors_documented (finished : model.Finished) {e : Entity}
    (found : model.find? name = some (.entity e)) {constructors : List (List Attribute)}
    (overloads : model.overloads name = .ok constructors) {options : OutlineOptions} {source : Option String}
    {outline : Outline} (rendered : (Outline.render model options source).1 = .ok outline) :
    ∀ document ∈ outline.documents, document.name = name → document.body.get? "constructors" =
      some (.arr ((constructors.map (·.map (·.parameterName))).map .strs)) := by
  obtain ⟨pages, mapped, shape⟩ := Outline.render_finished finished options source
  rw [rendered] at shape
  cases shape
  intro document listed named
  obtain ⟨page, among, rfl⟩ := List.mem_map.mp listed
  obtain ⟨d, declared, read⟩ := mem_of_mapM_ok mapped among
  have member := List.mem_of_mem_filter declared
  have same := (finished.page_name_kind member read).1.symm.trans named
  have defined := finished.indexed.find?_of_definition_mem member
  rw [same, found] at defined
  cases defined
  rw [show Definition.name (.entity e) = e.name from rfl] at same
  rw [Model.page, same] at read
  cases paged : model.entityPage name with
  | error failure =>
    rw [paged] at read
    cases read
  | ok whole =>
    rw [paged] at read
    cases read
    rw [overloads_of_entityPage paged] at overloads
    cases overloads
    exact Page.constructors_body options whole

/-- Each entity of a compiled model has its positional attributes and its overloads, and an outline lists the
parameters of these. Where no two positional attributes have the same name ignoring case, two parameters of an overload
have the same name only by the short form of `Operator`. -/
theorem parameters_distinct {settings : Settings} {text : String} {e : Entity}
    (compiled : (compile settings text).1 = .ok model) (known : model.entity name = .ok e) :
    ∃ all constructors, model.allAttributes name true = .ok all ∧ model.overloads name = .ok constructors ∧
      (∀ options source outline, (Outline.render model options source).1 = .ok outline →
        ∀ document ∈ outline.documents, document.name = name → document.body.get? "constructors" =
          some (.arr ((constructors.map (·.map (·.parameterName))).map .strs))) ∧
      (all.Pairwise (fun a b => a.name.sameIgnoringCase b.name = false) → ∀ parameters ∈ constructors,
        ((parameters.map (·.parameterName)).Nodup ↔ Name.isShortFormTaken (parameters.map (·.name)) = false)) := by
  have finished := finished_of_compile compiled
  have found := entity_eq_ok_iff.mp known
  obtain ⟨chain, placed⟩ := exists_placed finished found
  have overloads := overloads_eq placed.read
  refine ⟨positional chain, _, allAttributes_true placed.read, overloads, ?_, ?_⟩
  · intro options source outline rendered
    exact finished.constructors_documented found overloads rendered
  · intro distinct parameters listed
    have part := sublist_of_mem_overloadsOf listed
    refine nodup_parameterName_iff ?_ (distinct.sublist part)
    intro attr member
    exact positional_spelled compiled placed attr (part.subset member)

def operatorAttr : Attribute where
  name := "Operator"
  type := .named "STRING"

/-- An attribute that a filter adds. -/
def filterAttr (name : Name) : Attribute where
  name := name
  type := .named "REAL"
  optional := true

/-- A filter below a test. The attribute of the test is shortened. -/
def filterText (added : Name) : String :=
  "SCHEMA s; ENTITY test; Operator : STRING; END_ENTITY; ENTITY filter SUBTYPE OF (test); " ++ added ++
    " : OPTIONAL REAL; END_ENTITY; END_SCHEMA;"

def filterLayout (model : Model) :
    Option Name × Except LookupError (List Attribute) × Except LookupError (List (List Attribute)) :=
  ((model.entity "filter").toOption.map (·.name), model.allAttributes "filter" true, model.overloads "filter")

theorem exists_filter {added : Name} (compiled : (compile {} (filterText added)).1.toOption.map filterLayout =
    some (some "filter", .ok [operatorAttr, filterAttr added], .ok [[operatorAttr], [operatorAttr, filterAttr added]])) :
    ∃ model e, (compile {} (filterText added)).1 = .ok model ∧ model.entity "filter" = .ok e ∧
      model.allAttributes "filter" true = .ok [operatorAttr, filterAttr added] ∧
      model.overloads "filter" = .ok [[operatorAttr], [operatorAttr, filterAttr added]] := by
  obtain ⟨model, compiled, answers⟩ := exists_ok_of_map compiled
  rw [filterLayout, Prod.mk.injEq, Prod.mk.injEq] at answers
  obtain ⟨known, read, listed⟩ := answers
  obtain ⟨e, known, -⟩ := exists_ok_of_map known
  exact ⟨model, e, compiled, known, read, listed⟩

theorem filter_parameters_distinct :
    ∃ model e, (compile {} (filterText "Op_Code")).1 = .ok model ∧ model.entity "filter" = .ok e ∧
      [operatorAttr, filterAttr "Op_Code"].Pairwise (fun a b => a.name.sameIgnoringCase b.name = false) ∧
      model.overloads "filter" = .ok [[operatorAttr], [operatorAttr, filterAttr "Op_Code"]] ∧
      ([operatorAttr, filterAttr "Op_Code"].map (·.parameterName)).Nodup := by
  obtain ⟨model, e, compiled, known, read, listed⟩ := @exists_filter "Op_Code" (by decide +kernel)
  obtain ⟨all, constructors, sameRead, sameListed, -, distinct⟩ := parameters_distinct compiled known
  rw [read] at sameRead
  rw [listed] at sameListed
  cases sameRead
  cases sameListed
  have different : [operatorAttr, filterAttr "Op_Code"].Pairwise
      fun a b => a.name.sameIgnoringCase b.name = false := by decide
  exact ⟨model, e, compiled, known, different, listed, (distinct different _ (by decide)).mpr (by decide)⟩

/-- Names that differ in more than case, with one parameter. -/
theorem filter_parameters_repeated :
    ∃ model e, (compile {} (filterText "Op")).1 = .ok model ∧ model.entity "filter" = .ok e ∧
      model.allAttributes "filter" true = .ok [operatorAttr, filterAttr "Op"] ∧
      [operatorAttr, filterAttr "Op"].Pairwise (fun a b => a.name.sameIgnoringCase b.name = false) ∧
      model.overloads "filter" = .ok [[operatorAttr], [operatorAttr, filterAttr "Op"]] ∧
      ¬([operatorAttr, filterAttr "Op"].map (·.parameterName)).Nodup := by
  obtain ⟨model, e, compiled, known, read, listed⟩ := @exists_filter "Op" (by decide +kernel)
  exact ⟨model, e, compiled, known, read, by decide, listed, by decide⟩

end Model

end Express
