import Express.Proofs.Acceptance
import Express.Proofs.Artifacts
import Express.Proofs.Spelling

/-!
# File names

The names of a model that is compiled from a text are identifiers, since a model names what its schema declares or
refers to. So no file name of an outline leads out of the directory that it is written to (`outline_files_named`).
-/

namespace Express

/-! ### Names that a declaration mentions -/

theorem ElementType.reference?_spelled {type : ElementType} {name : Name} (spelled : type.isSpelled = true)
    (referred : name ∈ type.reference?) : name.isIdentifier = true := by
  have inner : type.innermost.isSpelled = true := by
    induction type with
    | collection head element ih => exact ih spelled referred
    | simple type => exact spelled
    | named name => exact spelled
    | generic label => exact spelled
  unfold ElementType.reference? at referred
  cases shape : type.innermost with
  | named found =>
    rw [shape] at inner referred
    dsimp only at referred
    split at referred
    · cases referred
      exact inner
    · cases referred
  | collection head element => rw [shape] at referred; cases referred
  | simple simple => rw [shape] at referred; cases referred
  | generic label => rw [shape] at referred; cases referred

theorem InverseClause.reference?_spelled {clause : InverseClause} {name : Name} (spelled : clause.isSpelled = true)
    (referred : name ∈ clause.reference?) : name.isIdentifier = true := by
  rw [InverseClause.isSpelled, Bool.and_eq_true, Bool.and_eq_true] at spelled
  unfold InverseClause.reference? at referred
  split at referred
  · cases referred
    exact spelled.1.2
  · cases referred

namespace EntityDecl

variable {decl : EntityDecl} {name : Name}

theorem children_spelled (spelled : decl.isSpelled = true) (member : name ∈ decl.children) :
    name.isIdentifier = true := by
  simp only [isSpelled, Bool.and_eq_true] at spelled
  obtain ⟨⟨⟨⟨⟨-, above⟩, -⟩, -⟩, -⟩, -⟩ := spelled
  unfold children at member
  cases clause : decl.supertype with
  | none => rw [clause] at member; cases member
  | some clause' =>
    rw [clause] at member above
    cases choice : clause'.choice with
    | none => rw [Option.bind_some, choice] at member; cases member
    | some names =>
      rw [Option.bind_some, choice] at member
      rw [Option.all_some, SupertypeClause.isSpelled, choice] at above
      exact List.all_eq_true.mp (Bool.and_eq_true_iff.mp above).2 name member

theorem references_spelled (spelled : decl.isSpelled = true) (member : name ∈ decl.references) :
    name.isIdentifier = true := by
  rw [references, attributeReferences, List.mem_append, List.mem_append, List.mem_append, List.mem_append] at member
  rcases member with (child | parent) | (stored | derived) | inverse
  · exact children_spelled spelled child
  all_goals
    simp only [isSpelled, Bool.and_eq_true, List.all_eq_true] at spelled
    obtain ⟨⟨⟨⟨⟨-, -⟩, below⟩, explicits⟩, deriveds⟩, inverses⟩ := spelled
  · exact below name parent
  · obtain ⟨clause, listed, referred⟩ := List.mem_flatMap.mp stored
    obtain ⟨-, -, referred⟩ := List.mem_flatMap.mp referred
    exact ElementType.reference?_spelled (Bool.and_eq_true_iff.mp (explicits clause listed)).2 (Option.mem_toList.mp referred)
  · obtain ⟨clause, listed, referred⟩ := List.mem_filterMap.mp derived
    exact ElementType.reference?_spelled (Bool.and_eq_true_iff.mp (deriveds clause listed)).2 referred
  · obtain ⟨clause, listed, referred⟩ := List.mem_filterMap.mp inverse
    exact InverseClause.reference?_spelled (inverses clause listed) referred

end EntityDecl

theorem Declaration.registers?_spelled {declaration : Declaration} {name : Name}
    (spelled : declaration.isSpelled = true) (registered : name ∈ declaration.registers?) :
    name.isIdentifier = true := by
  cases declaration with
  | type decl =>
    cases registered
    exact (Bool.and_eq_true_iff.mp spelled).1
  | entity decl =>
    cases registered
    rw [Declaration.isSpelled] at spelled
    simp only [EntityDecl.isSpelled, Bool.and_eq_true] at spelled
    exact spelled.1.1.1.1.1
  | function decl => cases registered
  | rule title => cases registered

/-! ### Names of a compiled model -/

theorem Model.names_spelled {settings : Settings} {text : String} {model : Model}
    (compiled : (Model.compile settings text).1 = .ok model) : ∀ name ∈ model.names, name.isIdentifier = true := by
  obtain ⟨schema, read, built⟩ := exists_build_of_compile compiled
  have spelled := List.all_eq_true.mp (Bool.and_eq_true_iff.mp (Schema.isSpelled_of_read read)).2
  obtain ⟨-, reflects, -⟩ := consistent_of_build built
  intro name member
  rcases reflects.mem_names_iff.mp member with registered | ⟨decl, listed, referred⟩
  · obtain ⟨declaration, declared, same⟩ := List.mem_filterMap.mp registered
    exact Declaration.registers?_spelled (spelled declaration declared) same
  · exact EntityDecl.references_spelled (spelled (.entity decl) (Schema.mem_entities_iff.mp listed)) referred

/-! ### Files of an outline -/

/-- An identifier followed by `.json`. There is no directory in it. -/
structure IsArtifact (file : String) : Prop where
  named : ∃ name : Name, name.isIdentifier = true ∧ file = name ++ ".json"
  undivided : ∀ c ∈ file.toList, c ≠ '/' ∧ c ≠ '\\'

theorem isArtifact_of_isIdentifier {name : Name} (spelled : name.isIdentifier = true) : IsArtifact (name ++ ".json") := by
  refine ⟨⟨name, spelled, rfl⟩, ?_⟩
  intro c member
  rw [String.toList_append, List.mem_append] at member
  rcases member with inside | behind
  · have part := Name.parts_of_isIdentifier spelled c inside
    refine ⟨?_, ?_⟩
    · rintro rfl
      exact absurd part (by decide)
    · rintro rfl
      exact absurd part (by decide)
  · refine ⟨?_, ?_⟩
    · rintro rfl
      exact absurd behind (by decide)
    · rintro rfl
      exact absurd behind (by decide)

theorem Outline.artifacts_named {settings : Settings} {text : String} {model : Model}
    (compiled : (Model.compile settings text).1 = .ok model) {options : OutlineOptions} {source : Option String}
    {outline : Outline} (rendered : (Outline.render model options source).1 = .ok outline) :
    ∀ entry ∈ outline.manifest.entries, IsArtifact entry.artifact := by
  obtain ⟨pages, -, shape⟩ := render_finished (Model.finished_of_compile compiled) options source
  rw [rendered] at shape
  cases shape
  intro entry listed
  obtain ⟨name, declared, rfl⟩ := List.mem_map.mp listed
  obtain ⟨definition, kept, rfl⟩ := List.mem_map.mp declared
  exact isArtifact_of_isIdentifier
    (Model.names_spelled compiled _ (List.mem_map_of_mem (List.mem_of_mem_filter kept)))

namespace Command

theorem artifact_cases {outline : Outline} {layout : Json.Layout} {file : String}
    (listed : file ∈ (artifacts outline layout).map (·.1)) :
    (∃ entry ∈ outline.manifest.entries, entry.artifact = file) ∨ file = "functions.json" ∨ file = "manifest.json" := by
  rw [artifacts, List.map_append, List.map_map, List.mem_append] at listed
  rcases listed with document | last
  · obtain ⟨⟨entry, document⟩, zipped, rfl⟩ := List.mem_map.mp document
    exact .inl ⟨entry, (List.of_mem_zip zipped).1, rfl⟩
  · rw [List.map_cons, List.map_singleton, List.mem_cons, List.mem_singleton] at last
    exact .inr last

/-- All names of a schema that is read are identifiers, and so are those of a model that is compiled. Each document of
its outline is meant for a file without directories. An outline command writes into its directory, and nothing outside
of what it lists. -/
theorem outline_files_named :
    (∀ text schema, Schema.read text = .ok schema → schema.isSpelled = true) ∧
      (∀ settings text model, (Model.compile settings text).1 = .ok model →
        (∀ name ∈ model.names, name.isIdentifier = true) ∧
          ∀ options source outline, (Outline.render model options source).1 = .ok outline →
            ∀ entry ∈ outline.manifest.entries, IsArtifact entry.artifact) ∧
      ∀ disk schema out settings options run, runOutline disk schema out settings options = .ok run →
        (∀ path ∈ run.written, ∃ file, IsArtifact file ∧ path = within out file) ∧
          ∀ path ∉ run.written, run.disk.readText? path = disk.readText? path := by
  refine ⟨fun text schema read => Schema.isSpelled_of_read read, ?_, ?_⟩
  · intro settings text model compiled
    exact ⟨Model.names_spelled compiled, fun _ _ _ rendered => Outline.artifacts_named compiled rendered⟩
  · intro disk schema out settings options run done
    obtain ⟨format, config, text, model, outline, -, -, loaded, rendered, written, final⟩ := runOutline_ok done
    have named := Outline.artifacts_named (compile_of_loadModel loaded) rendered
    refine ⟨?_, ?_⟩
    · intro path member
      rw [written] at member
      obtain ⟨file, listed, rfl⟩ := List.mem_map.mp member
      refine ⟨file, ?_, rfl⟩
      rcases artifact_cases listed with ⟨entry, among, rfl⟩ | rfl | rfl
      · exact named entry among
      · exact @isArtifact_of_isIdentifier "functions" (by decide)
      · exact @isArtifact_of_isIdentifier "manifest" (by decide)
    · intro path untouched
      rw [final]
      refine Disk.readText?_writeAll_of_not_mem ?_
      rw [written, List.map_map] at untouched
      rw [List.map_map]
      exact untouched

/-- An empty output path is the current directory. -/
theorem toll_files_named :
    ∃ run, runOutline tollDisk "toll.exp" "" none none = .ok run ∧
      run.written = ["fare.json", "functions.json", "manifest.json"] ∧
      (∀ path ∈ run.written, ∃ file, IsArtifact file ∧ path = within "" file) ∧
      run.disk.readText? "toll.exp" = tollDisk.readText? "toll.exp" := by
  obtain ⟨run, done, written⟩ := exists_ok_of_map
    (show (runOutline tollDisk "toll.exp" "" none none).toOption.map (·.written) =
      some ["fare.json", "functions.json", "manifest.json"] by decide +kernel)
  obtain ⟨inside, others⟩ := outline_files_named.2.2 tollDisk "toll.exp" "" none none run done
  exact ⟨run, done, written, inside, others "toll.exp" (by rw [written]; decide)⟩

end Command

end Express
