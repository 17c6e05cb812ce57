import Express.Proofs.Acceptance
import Express.Proofs.Memberships

/-!
# The order of declarations

Declarations may come in any order: whether a schema becomes a model does not depend on it, and neither do the answers
that the model gives by name. Only listings follow the order.
-/

namespace Express

namespace Schema

variable {schema other : Schema}

theorem mem_entities_perm (perm : schema.declarations.Perm other.declarations) {decl : EntityDecl} :
    decl ∈ schema.entities ↔ decl ∈ other.entities := by
  rw [mem_entities_iff, mem_entities_iff, perm.mem_iff]

theorem registered_perm (perm : schema.declarations.Perm other.declarations) :
    schema.registered.Perm other.registered :=
  perm.filterMap _

theorem functions_perm (perm : schema.declarations.Perm other.declarations) :
    schema.functions.Perm other.functions :=
  perm.filterMap _

theorem declaresEntity_perm (perm : schema.declarations.Perm other.declarations) {name : Name} :
    schema.DeclaresEntity name ↔ other.DeclaresEntity name := by
  simp only [DeclaresEntity, mem_entities_perm perm]

theorem inherits_perm (perm : schema.declarations.Perm other.declarations) : schema.Inherits = other.Inherits := by
  funext name parent
  simp only [Inherits, mem_entities_perm perm]

theorem answers_perm (perm : schema.declarations.Perm other.declarations) {target attr : Name} :
    schema.Answers target attr ↔ other.Answers target attr := by
  simp only [Answers, Ancestor, declaresEntity_perm perm, inherits_perm perm, mem_entities_perm perm,
    (registered_perm perm).mem_iff]

theorem Consistent.of_perm {settings : Settings} (consistent : schema.Consistent settings)
    (perm : schema.declarations.Perm other.declarations) : other.Consistent settings where
  distinct := (registered_perm perm).nodup_iff.mp consistent.distinct
  distinctFunctions := ((functions_perm perm).map _).nodup_iff.mp consistent.distinctFunctions
  noAggregate := fun decl member => consistent.noAggregate decl ((functions_perm perm).mem_iff.mpr member)
  entityUses := by
    intro decl member name used registered
    rw [← declaresEntity_perm perm]
    exact consistent.entityUses decl ((mem_entities_perm perm).mpr member) name used
      ((registered_perm perm).mem_iff.mpr registered)
  acyclic := inherits_perm perm ▸ consistent.acyclic
  declared := by
    intro strict decl member name referred
    exact (registered_perm perm).mem_iff.mp
      (consistent.declared strict decl ((mem_entities_perm perm).mpr member) name referred)
  forward := by
    intro decl member clause written
    rw [← answers_perm perm]
    exact consistent.forward decl ((mem_entities_perm perm).mpr member) clause written

end Schema

namespace Model

/-- Two models give the same answers to every question about a name. -/
structure Agrees (model other : Model) : Prop where
  find : ∀ name, model.find? name = other.find? name
  function : ∀ name, model.function name = other.function name
  placeholders : model.placeholders.Perm other.placeholders
  summary : model.summary = other.summary
  linksTo : ∀ name, (model.linksTo name).Perm (other.linksTo name)
  selectsContaining : ∀ name, (model.selectsContaining name).Perm (other.selectsContaining name)

namespace Reflects

variable {settings : Settings} {schema schema' : Schema} {model model' : Model}

theorem names_perm (reflects : model.Reflects settings schema) (reflects' : model'.Reflects settings schema')
    (perm : schema.declarations.Perm schema'.declarations) : model.names.Perm model'.names := by
  refine (List.perm_ext_iff_of_nodup reflects.indexed.distinct reflects'.indexed.distinct).mpr fun name => ?_
  rw [reflects.mem_names_iff, reflects'.mem_names_iff]
  simp only [(Schema.registered_perm perm).mem_iff, Schema.mem_entities_perm perm]

theorem definition_perm (reflects : model.Reflects settings schema) (reflects' : model'.Reflects settings schema')
    (perm : schema.declarations.Perm schema'.declarations) : model.definition = model'.definition := by
  funext name
  by_cases registered : name ∈ schema.registered
  · obtain ⟨declaration, member, registers⟩ := List.mem_filterMap.mp registered
    have named := declaration.definition?_name settings
    cases defined : declaration.definition? settings with
    | none =>
      rw [defined, registers] at named
      cases named
    | some d =>
      rw [defined, registers] at named
      obtain rfl : d.name = name := Option.some.inj named
      rw [reflects.declared declaration member d defined,
        reflects'.declared declaration (perm.mem_iff.mp member) d defined]
  · have absent : name ∉ schema'.registered := fun h => registered ((Schema.registered_perm perm).mem_iff.mpr h)
    rw [reflects.undeclared name registered, reflects'.undeclared name absent]

theorem definitions_perm (reflects : model.Reflects settings schema) (reflects' : model'.Reflects settings schema')
    (perm : schema.declarations.Perm schema'.declarations) : model.definitions.Perm model'.definitions := by
  rw [reflects.indexed.definitions_eq_map, reflects'.indexed.definitions_eq_map,
    reflects.definition_perm reflects' perm]
  exact (reflects.names_perm reflects' perm).map _

end Reflects

/-- Models of the same declarations in different orders agree. -/
theorem agrees_of_perm {settings : Settings} {schema schema' : Schema} {model model' : Model}
    (perm : schema.declarations.Perm schema'.declarations) (built : (build settings schema).1 = .ok model)
    (built' : (build settings schema').1 = .ok model') : model.Agrees model' := by
  obtain ⟨_, reflects, noted⟩ := consistent_of_build built
  obtain ⟨_, reflects', noted'⟩ := consistent_of_build built'
  have definitions := reflects.definitions_perm reflects' perm
  have links := perm.flatMap_right (·.links)
  have functions : model.functions.Perm model'.functions := by
    rw [reflects.functions, reflects'.functions]
    exact perm.filterMap _
  refine ⟨?_, ?_, ?_, ?_, ?_, ?_⟩
  · exact Index.Lists.find_perm definitions reflects.indexed.definitions reflects'.indexed.definitions
  · intro name
    have found := Index.Lists.find_perm functions reflects.indexed.functions reflects'.indexed.functions name
    rw [function, functionSlot?, found]
    rfl
  · exact (definitions.filter _).map _
  · have count : model.links.length = model'.links.length := by
      rw [reflects.links, reflects'.links, ReverseIndex.length_eq, ReverseIndex.length_eq,
        (ReverseIndex.all_insertAll_perm ..).length_eq, (ReverseIndex.all_insertAll_perm ..).length_eq]
      exact (links.append_left _).length_eq
    simp only [summary, definitions.countP_eq, count, functions.length_eq]
  · intro name
    rw [linksTo, linksTo, reflects.links, reflects'.links, ReverseIndex.linksTo_insertAll,
      ReverseIndex.linksTo_insertAll]
    exact (links.filter _).append_left _
  · intro name
    rw [selectsContaining_eq_filter reflects.indexed.distinct noted,
      selectsContaining_eq_filter reflects'.indexed.distinct noted']
    exact ((definitions.filterMap _).filter _).map _

/-- The order of the declarations decides neither whether there is a model nor what it answers. -/
theorem build_order_irrelevant (settings : Settings) (title : Name) {declarations permuted : List Declaration}
    (perm : declarations.Perm permuted) :
    ((∃ model, (build settings ⟨title, declarations⟩).1 = .ok model) ↔
      ∃ model, (build settings ⟨title, permuted⟩).1 = .ok model) ∧
    ∀ model model', (build settings ⟨title, declarations⟩).1 = .ok model →
      (build settings ⟨title, permuted⟩).1 = .ok model' → model.Agrees model' := by
  refine ⟨⟨?_, ?_⟩, fun model model' => agrees_of_perm perm⟩
  · rintro ⟨model, built⟩
    exact exists_build ((consistent_of_build built).1.of_perm perm)
  · rintro ⟨model, built⟩
    exact exists_build ((consistent_of_build built).1.of_perm perm.symm)

/-- A part and its assembly refer to each other, the part has an undeclared parent, and a select names both. -/
def assemblyDeclarations : List Declaration :=
  [.entity
      { name := "part"
        subtypeOf := ["item"]
        explicit := [{ names := [.simple "whole"], type := .named "assembly" }] },
    .entity
      { name := "assembly"
        inverse :=
          [{ name := .simple "parts", aggregate := some { kind := .set }, entity := "part", forAttr := "whole" }] },
    .type { name := "component", body := .select ["part", "assembly"] }]

theorem build_assembly_reversed :
    assemblyDeclarations.Perm assemblyDeclarations.reverse ∧ ∃ model model',
      (build {} ⟨"plant", assemblyDeclarations⟩).1 = .ok model ∧
      (build {} ⟨"plant", assemblyDeclarations.reverse⟩).1 = .ok model' ∧ model.Agrees model' ∧
      model.names = ["part", "item", "assembly", "component"] ∧
      model'.names = ["component", "assembly", "part", "item"] ∧
      (∀ m ∈ [model, model'], m.linksTo "part" = [⟨"assembly", "parts", "part", "whole"⟩] ∧
        m.selectsContaining "part" = ["component"] ∧ m.placeholders = ["item"]) := by
  have perm : assemblyDeclarations.Perm assemblyDeclarations.reverse := by decide
  obtain ⟨succeeds, agree⟩ := build_order_irrelevant {} "plant" perm
  obtain ⟨model, built, answers⟩ := exists_ok_of_map
    (show (build {} ⟨"plant", assemblyDeclarations⟩).1.toOption.map
        (fun m => (m.names, m.linksTo "part", m.selectsContaining "part", m.placeholders)) =
      some (["part", "item", "assembly", "component"], [⟨"assembly", "parts", "part", "whole"⟩], ["component"],
        ["item"]) by decide +kernel)
  obtain ⟨model', built', names'⟩ := exists_ok_of_map
    (show (build {} ⟨"plant", assemblyDeclarations.reverse⟩).1.toOption.map (·.names) =
      some ["component", "assembly", "part", "item"] by decide +kernel)
  have agrees := agree model model' built built'
  simp only [Prod.mk.injEq] at answers
  obtain ⟨names, links, selects, placeholders⟩ := answers
  refine ⟨perm, model, model', built, built', agrees, names, names', ?_⟩
  have linked := agrees.linksTo "part"
  have listed := agrees.selectsContaining "part"
  have missing := agrees.placeholders
  rw [links, List.singleton_perm] at linked
  rw [selects, List.singleton_perm] at listed
  rw [placeholders, List.singleton_perm] at missing
  rintro m (_ | ⟨_, _ | ⟨_, none⟩⟩)
  · exact ⟨links, selects, placeholders⟩
  · exact ⟨linked.symm, listed.symm, missing.symm⟩
  · cases none

end Model

end Express
