import Express.Outline
import Express.Proofs.Layouts
import Express.Proofs.Upkeep

/-!
# Rendering finished models

Every question that a page asks about a definition of a finished model has an answer, so rendering never fails on a
lookup, and the outline has one document and one manifest entry for each declared name (`render_complete`).
-/

namespace Express

/-! ### Pages -/

namespace Model

variable {model : Model}

theorem Finished.exists_entityPage (finished : model.Finished) {e : Entity}
    (found : model.find? e.name = some (.entity e)) :
    ∃ page, model.entityPage e.name = .ok page ∧ page.entity = e := by
  obtain ⟨chain, placed⟩ := exists_placed finished found
  obtain ⟨rules, ruled, _⟩ := finished.wiringRules_exact placed
  have known := entity_eq_ok_iff.mpr found
  rw [entityPage, known, overloads_eq placed.read, signatures_eq known placed.read, ruled, recordFields_eq placed.read]
  exact ⟨_, rfl, rfl⟩

theorem exists_selectPage {s : Select} (found : model.find? s.name = some (.select s)) :
    ∃ page, model.selectPage s.name = .ok page ∧ page.name = s.name := by
  have read : model.select s.name = .ok s := by
    rw [select, get, found]
    rfl
  rw [selectPage, leaves, read]
  exact ⟨_, rfl, rfl⟩

theorem Finished.mem_placeholders_iff (finished : model.Finished) {d : Definition} (member : d ∈ model.definitions) :
    d.name ∈ model.placeholders ↔ d.isPlaceholder = true := by
  constructor
  · intro listed
    obtain ⟨other, kept, named⟩ := List.mem_map.mp listed
    obtain ⟨present, placeholder⟩ := List.mem_filter.mp kept
    have same := finished.indexed.find?_of_definition_mem present
    rw [named, finished.indexed.find?_of_definition_mem member] at same
    cases same
    exact placeholder
  · intro placeholder
    exact List.mem_map_of_mem (List.mem_filter.mpr ⟨member, placeholder⟩)

/-- The names of the declared definitions, in their order. -/
def renderedNames (model : Model) : List Name :=
  (model.definitions.filter (!·.isPlaceholder)).map (·.name)

theorem Finished.renderedNames_eq (finished : model.Finished) :
    model.renderedNames = model.names.filter (· ∉ model.placeholders) := by
  rw [renderedNames, names, List.filter_map]
  refine congrArg _ (List.filter_congr fun d member => ?_)
  have same := finished.mem_placeholders_iff member
  cases placeholder : d.isPlaceholder <;> simp [same, placeholder]

/-- A finished model has a page for each of its definitions, under the name and of the kind of the definition. -/
theorem Finished.exists_page (finished : model.Finished) {d : Definition} (member : d ∈ model.definitions) :
    ∃ page, model.page d = .ok page ∧ page.name = d.name ∧ page.kind = d.kind := by
  have found := finished.indexed.find?_of_definition_mem member
  cases d with
  | entity e =>
    obtain ⟨page, read, same⟩ := finished.exists_entityPage found
    refine ⟨.entity page, ?_, ?_, rfl⟩
    · rw [Model.page, read]
      rfl
    · rw [Page.name, same]
      rfl
  | enumeration e =>
    have read : model.enumeration e.name = .ok e := by
      rw [enumeration, get, show model.find? e.name = _ from found]
      rfl
    refine ⟨.enumeration ⟨e, model.selectsContaining e.name⟩, ?_, rfl, rfl⟩
    rw [Model.page, enumerationPage, read]
    rfl
  | select s =>
    obtain ⟨page, read, named⟩ := exists_selectPage found
    refine ⟨.select page, ?_, named, rfl⟩
    rw [Model.page, read]
    rfl
  | wrapper w =>
    have read : model.wrapper w.name = .ok w := by
      rw [wrapper, get, show model.find? w.name = _ from found]
      rfl
    refine ⟨.wrapper ⟨w, model.selectsContaining w.name⟩, ?_, rfl, rfl⟩
    rw [Model.page, wrapperPage, read]
    rfl

theorem Finished.page_name_kind (finished : model.Finished) {d : Definition} (member : d ∈ model.definitions)
    {page : Page} (read : model.page d = .ok page) : page.name = d.name ∧ page.kind = d.kind := by
  obtain ⟨other, same, named⟩ := finished.exists_page member
  rw [read] at same
  cases same
  exact named

end Model

/-! ### Names -/

namespace Backend

variable {σ ε : Type} {backend : Backend σ ε} {model : Model} {rendered : Rendered σ}

theorem render_names {next : Rendered σ} {d : Definition} (done : backend.render model rendered d = (.ok (), next)) :
    next.names = rendered.names ++ ([d].filter (!·.isPlaceholder)).map (·.name) := by
  unfold render at done
  cases placeholder : d.isPlaceholder with
  | true =>
    rw [if_pos placeholder] at done
    cases done
    simp [placeholder]
  | false =>
    simp only [placeholder, Bool.false_eq_true, if_false] at done
    split at done
    · cases done
    · split at done
      · cases done
      · cases done
        simp [placeholder]

/-- A run that succeeds has put down the names of the declared definitions, whatever the backend does with them. -/
theorem runAll_render_names {final : Rendered σ} {definitions : List Definition}
    (ran : runAll (backend.render model) rendered definitions = (.ok (), final)) :
    final.names = rendered.names ++ (definitions.filter (!·.isPlaceholder)).map (·.name) := by
  induction definitions generalizing rendered with
  | nil =>
    cases ran
    exact (List.append_nil _).symm
  | cons d definitions ih =>
    rw [runAll] at ran
    rcases first : backend.render model rendered d with ⟨e | _, next⟩
    · rw [first] at ran
      cases ran
    · rw [first] at ran
      rw [ih ran, render_names first, List.append_assoc, ← List.map_append, ← List.filter_append,
        List.singleton_append]

end Backend

/-! ### Documents -/

/-- The document of a page. -/
def Page.document (options : OutlineOptions) (page : Page) : Document where
  name := page.name
  kind := page.kind
  body := page.body options

namespace Outline

variable {model : Model} {options : OutlineOptions}

def addDocuments (outline : Outline) (documents : List Document) : Outline :=
  { outline with documents := outline.documents ++ documents }

theorem outline_notes (notices : List Notice) (progress : Progress) :
    (notices.foldl (fun progress notice => note notice progress) progress).outline = progress.outline := by
  induction notices generalizing progress with
  | nil => rfl
  | cons notice notices ih => exact ih (note notice progress)

theorem render_page {d : Definition} {page : Page} (declared : d.isPlaceholder = false)
    (read : model.page d = .ok page) (rendered : Rendered Progress) :
    ∃ next, (backend options).render model rendered d = (.ok (), next) ∧
      next.state.outline = rendered.state.outline.addDocuments [page.document options] := by
  have noted := outline_notes (model.pageNotices d) rendered.state
  refine ⟨⟨addPage options page
    ((model.pageNotices d).foldl (fun progress notice => note notice progress) rendered.state),
    rendered.names ++ [d.name]⟩, ?_, ?_⟩
  · rw [Backend.render, declared, read]
    rfl
  · rw [← noted]
    rfl

/-- The declared definitions of a list become documents in their order, behind those that are there. -/
theorem runAll_render {definitions : List Definition}
    (paged : ∀ d ∈ definitions, ∃ page, model.page d = .ok page) (rendered : Rendered Progress) :
    ∃ pages final, (definitions.filter (!·.isPlaceholder)).mapM model.page = .ok pages ∧
      runAll ((backend options).render model) rendered definitions = (.ok (), final) ∧
      final.state.outline = rendered.state.outline.addDocuments (pages.map (·.document options)) := by
  induction definitions generalizing rendered with
  | nil =>
    refine ⟨[], rendered, rfl, rfl, ?_⟩
    rw [List.map_nil, addDocuments, List.append_nil]
  | cons d definitions ih =>
    have later : ∀ d ∈ definitions, ∃ page, model.page d = .ok page :=
      fun d member => paged d (List.mem_cons_of_mem _ member)
    cases placeholder : d.isPlaceholder with
    | true =>
      obtain ⟨pages, final, mapped, ran, made⟩ :=
        ih later { rendered with state := note (.placeholderSkipped d.name) rendered.state }
      refine ⟨pages, final, ?_, ?_, made⟩
      · rw [List.filter_cons_of_neg (by rw [placeholder]; decide), mapped]
      · rw [runAll, Backend.render, placeholder]
        exact ran
    | false =>
      obtain ⟨page, read⟩ := paged d List.mem_cons_self
      obtain ⟨next, rendering, added⟩ := render_page placeholder read rendered
      obtain ⟨pages, final, mapped, ran, made⟩ := ih later next
      refine ⟨page :: pages, final, ?_, ?_, ?_⟩
      · rw [List.filter_cons_of_pos (by rw [placeholder]; rfl), List.mapM_cons, read, mapped]
        rfl
      · rw [runAll, rendering]
        exact ran
      · rw [made, added]
        simp only [addDocuments, List.append_assoc, List.map_cons, List.singleton_append]

theorem names_of_pages (finished : model.Finished) {pages : List Page}
    (mapped : (model.definitions.filter (!·.isPlaceholder)).mapM model.page = .ok pages) :
    (pages.map (·.document options)).map (·.name) = model.renderedNames := by
  rw [List.map_map]
  refine map_of_mapM_ok mapped ?_
  intro d member page read
  exact (finished.page_name_kind (List.mem_of_mem_filter member) read).1

/-- The manifest of a model's outline. -/
def manifestOf (model : Model) (source : Option String) : Manifest where
  schema := model.schema
  digest := source.map Fingerprint.ofText
  entries := model.renderedNames.map fun name => { name, artifact := name ++ ".json" }

/-- What an outline of a finished model holds. -/
theorem render_finished (finished : model.Finished) (options : OutlineOptions) (source : Option String) :
    ∃ pages, (model.definitions.filter (!·.isPlaceholder)).mapM model.page = .ok pages ∧
      (render model options source).1 = .ok
        { documents := pages.map (·.document options)
          functions := Json.sortKeys (.arr (model.functions.map (·.toOutlineJson)))
          manifest := manifestOf model source } := by
  have paged : ∀ d ∈ model.definitions, ∃ page, model.page d = .ok page := by
    intro d member
    obtain ⟨page, read, _⟩ := finished.exists_page member
    exact ⟨page, read⟩
  obtain ⟨pages, final, mapped, ran, made⟩ :=
    @runAll_render model options _ paged { state := start model.schema source }
  refine ⟨pages, mapped, ?_⟩
  have names : final.names = model.renderedNames := Backend.runAll_render_names ran
  have driven : model.drive (backend options) (start model.schema source) =
      (.ok (), setEntries model.renderedNames (setFunctions model.functions final.state)) := by
    rw [Model.drive, ran, ← names]
    rfl
  rw [render, driven]
  dsimp only [setEntries, setFunctions]
  rw [made]
  rfl

theorem document?_isSome_iff {outline : Outline} {name : Name} :
    (outline.document? name).isSome ↔ name ∈ outline.documents.map (·.name) := by
  simp [document?]

theorem document?_of_mem {outline : Outline} (distinct : (outline.documents.map (·.name)).Nodup) {document : Document}
    (member : document ∈ outline.documents) : outline.document? document.name = some document := by
  obtain ⟨found, seen⟩ := Option.isSome_iff_exists.mp (document?_isSome_iff.mpr (List.mem_map_of_mem member))
  have named := List.find?_some seen
  rw [beq_iff_eq] at named
  rw [seen, List.inj_on_of_nodup_map distinct (List.mem_of_find?_eq_some seen) member named]

/-- Documents and manifest entries stand for the declared names of the model, in its order and each once. -/
structure Complete (model : Model) (outline : Outline) : Prop where
  names : outline.documents.map (·.name) = model.names.filter (· ∉ model.placeholders)
  entries : outline.manifest.entries.map (·.name) = outline.documents.map (·.name)
  distinct : (outline.documents.map (·.name)).Nodup
  kinds : ∀ document ∈ outline.documents, ∃ d, model.get document.name = .ok d ∧ d.kind = document.kind
  found : ∀ name, (outline.document? name).isSome ↔ model.contains name = true ∧ name ∉ model.placeholders
  paired : (outline.manifest.entries.zip outline.documents).unzip = (outline.manifest.entries, outline.documents)

/-- A finished model is rendered without fail, and nothing declared is left out. -/
theorem render_complete (finished : model.Finished) (options : OutlineOptions) (source : Option String) :
    ∃ outline, (render model options source).1 = .ok outline ∧ outline.Complete model := by
  obtain ⟨pages, mapped, rendered⟩ := render_finished finished options source
  refine ⟨_, rendered, ?_⟩
  have names := @names_of_pages model options finished pages mapped
  have entries : (manifestOf model source).entries.map (·.name) = model.renderedNames := by
    rw [manifestOf, List.map_map]
    exact List.map_id _
  have distinct : model.renderedNames.Nodup := finished.indexed.distinct.sublist (List.filter_sublist.map _)
  refine ⟨?_, ?_, ?_, ?_, ?_, ?_⟩
  · rw [names, finished.renderedNames_eq]
  · rw [names, entries]
  · rw [names]
    exact distinct
  · intro document member
    obtain ⟨page, listed, rfl⟩ := List.mem_map.mp member
    obtain ⟨d, declared, read⟩ := mem_of_mapM_ok mapped listed
    have present := List.mem_of_mem_filter declared
    obtain ⟨named, kind⟩ := finished.page_name_kind present read
    refine ⟨d, ?_, kind.symm⟩
    rw [Page.document, named, Model.get, finished.indexed.find?_of_definition_mem present]
  · intro name
    rw [document?_isSome_iff, names, finished.renderedNames_eq, List.mem_filter, finished.indexed.contains_iff,
      decide_eq_true_iff]
  · refine List.unzip_zip ?_
    rw [← List.length_map (·.name), entries, ← names, List.length_map]

/-- Ships name their port, which shows them, and a pilot, which is never declared. -/
def harbourSchema : Schema where
  name := "harbours"
  declarations :=
    [.type { name := "depth", body := .simple .real },
      .type { name := "flag", body := .enumeration ["red", "green"] },
      .type { name := "moored", body := .select ["ship", "flag"] },
      .entity
        { name := "ship"
          explicit :=
            [{ names := [.simple "port"], type := .named "harbour" },
              { names := [.simple "guide"], optional := true, type := .named "pilot" }] },
      .entity
        { name := "harbour"
          inverse :=
            [{ name := .simple "calls", aggregate := some { kind := .set }, entity := "ship", forAttr := "port" }] }]

theorem harbour_complete :
    ∃ model outline, (Draft.after {} [.schema harbourSchema]).finish.1 = .ok model ∧
      (render model {} none).1 = .ok outline ∧ outline.Complete model ∧ model.placeholders = ["pilot"] ∧
      outline.documents.map (·.name) = ["depth", "flag", "moored", "ship", "harbour"] := by
  obtain ⟨model, finished, read⟩ := exists_ok_of_map
    (show (Draft.after {} [.schema harbourSchema]).finish.1.toOption.map (fun model => (model.names, model.placeholders)) =
      some (["depth", "flag", "moored", "ship", "harbour", "pilot"], ["pilot"]) by decide +kernel)
  obtain ⟨names, placeholders⟩ := Prod.mk.inj read
  obtain ⟨outline, rendered, complete⟩ := render_complete ⟨{}, [.schema harbourSchema], finished⟩ {} none
  refine ⟨model, outline, finished, rendered, complete, placeholders, ?_⟩
  rw [complete.names, names, placeholders]
  decide

end Outline

end Express
