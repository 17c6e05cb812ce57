import Express.Command
import Express.Proofs.Rendering

/-!
# Files of an outline

An outline is written file by file into one directory, the functions and the manifest last. Those two are always what
they should be afterwards, and so is every other document: only that of a definition called `functions` or `manifest`
gets lost, since it shares its path with one of them (`outline_written`).
-/

namespace Express

/-! ### Files on a disk -/

namespace Disk

theorem fromUTF8?_toUTF8 (text : String) : String.fromUTF8? text.toUTF8 = some text := by
  rw [String.fromUTF8?, String.toUTF8_eq_toByteArray, dif_pos text.isValidUTF8]
  rfl

theorem lookup_replaced {path other : String} {bytes : ByteArray} (files : List (String × ByteArray)) :
    (files.map fun (name, old) => (name, if name = path then bytes else old)).lookup other =
      if other = path then (files.lookup other).map fun _ => bytes else files.lookup other := by
  induction files with
  | nil => simp
  | cons file files ih =>
    obtain ⟨name, old⟩ := file
    rw [List.map_cons, List.lookup_cons, List.lookup_cons, ih]
    by_cases here : other = name
    · subst here
      simp only [beq_self_eq_true]
      split <;> rfl
    · simp only [beq_eq_false_iff_ne.mpr here]

/-- A file that has just been written holds what was written, and all others are as before. -/
theorem readText?_writeText (disk : Disk) (path text other : String) :
    (disk.writeText path text).readText? other = if other = path then some text else disk.readText? other := by
  unfold writeText readText?
  by_cases present : disk.files.any (·.1 == path) = true
  · rw [if_pos present, lookup_replaced]
    split
    · rename_i same
      subst same
      obtain ⟨file, member, named⟩ := List.any_eq_true.mp present
      cases found : disk.files.lookup other with
      | none =>
        have differs := List.lookup_eq_none_iff.mp found file member
        rw [beq_iff_eq.mp named] at differs
        simp at differs
      | some bytes => exact fromUTF8?_toUTF8 text
    · rfl
  · rw [if_neg present, List.lookup_append]
    split
    · rename_i same
      subst same
      have absent : disk.files.lookup other = none := by
        rw [List.lookup_eq_none_iff]
        intro file member
        rw [bne_iff_ne]
        rintro rfl
        exact present (List.any_eq_true.mpr ⟨file, member, beq_self_eq_true _⟩)
      rw [absent, List.lookup_cons, beq_self_eq_true]
      exact fromUTF8?_toUTF8 text
    · rename_i different
      rw [List.lookup_cons, beq_eq_false_iff_ne.mpr different, List.lookup_nil, Option.or_none]

/-- Writes files one after the other. -/
def writeAll (disk : Disk) (files : List (String × String)) : Disk :=
  files.foldl (fun disk (path, content) => disk.writeText path content) disk

theorem readText?_writeAll_of_not_mem {disk : Disk} {path : String} {files : List (String × String)}
    (untouched : path ∉ files.map (·.1)) : (disk.writeAll files).readText? path = disk.readText? path := by
  induction files generalizing disk with
  | nil => rfl
  | cons file files ih =>
    rw [List.map_cons, List.mem_cons, not_or] at untouched
    calc (disk.writeAll (file :: files)).readText? path
      _ = (disk.writeText file.1 file.2).readText? path := ih untouched.2
      _ = disk.readText? path := by rw [readText?_writeText, if_neg untouched.1]

/-- The last file written under a path is the one that stays. -/
theorem readText?_writeAll {disk : Disk} {path content : String} {before after : List (String × String)}
    (last : path ∉ after.map (·.1)) :
    (disk.writeAll (before ++ (path, content) :: after)).readText? path = some content := by
  have split : disk.writeAll (before ++ (path, content) :: after) =
      ((disk.writeAll before).writeText path content).writeAll after := by
    unfold writeAll
    rw [List.foldl_append, List.foldl_cons]
  rw [split, readText?_writeAll_of_not_mem last, readText?_writeText, if_pos rfl]

end Disk

/-! ### Loading -/

theorem Model.finished_of_build {settings : Settings} {schema : Schema} {model : Model}
    (built : (Model.build settings schema).1 = .ok model) : model.Finished := by
  unfold Model.build at built
  cases added : (Draft.empty settings).addSchema schema with
  | mk result draft =>
    rw [added] at built
    cases result with
    | error e => cases built
    | ok _ =>
      have reached : Draft.after settings [.schema schema] = draft := congrArg Prod.snd added
      exact ⟨settings, [.schema schema], reached ▸ built⟩

theorem Model.compile_of_read {text : String} {schema : Schema} (read : Schema.read text = .ok schema)
    (settings : Settings) :
    Model.compile settings text =
      ((Model.build settings schema).1.mapError .build, (Model.build settings schema).2) := by
  unfold Model.compile
  rw [read]
  dsimp only
  cases Model.build settings schema with
  | mk result notices => cases result <;> rfl

theorem Model.exists_build_of_compile {settings : Settings} {text : String} {model : Model}
    (compiled : (Model.compile settings text).1 = .ok model) :
    ∃ schema, Schema.read text = .ok schema ∧ (Model.build settings schema).1 = .ok model := by
  cases read : Schema.read text with
  | error e =>
    unfold Model.compile at compiled
    rw [read] at compiled
    cases compiled
  | ok schema =>
    rw [compile_of_read read] at compiled
    cases built : (Model.build settings schema).1 with
    | error e => rw [built] at compiled; cases compiled
    | ok made =>
      rw [built] at compiled
      cases compiled
      exact ⟨schema, rfl, built⟩

theorem Model.finished_of_compile {settings : Settings} {text : String} {model : Model}
    (compiled : (Model.compile settings text).1 = .ok model) : model.Finished := by
  obtain ⟨schema, -, built⟩ := exists_build_of_compile compiled
  exact finished_of_build built

namespace Command

theorem compile_of_loadModel {disk : Disk} {path text : String} {settings : Settings} {model : Model}
    (loaded : loadModel disk path settings = .ok (text, model)) : (Model.compile settings text).1 = .ok model := by
  unfold loadModel at loaded
  cases found : disk.readText? path with
  | none => rw [found] at loaded; cases loaded
  | some content =>
    rw [found] at loaded
    cases compiled : (Model.compile settings content).1 with
    | error e => simp only [compiled] at loaded; cases loaded
    | ok made =>
      simp only [compiled] at loaded
      cases loaded
      exact compiled

theorem finished_of_loadModel {disk : Disk} {path text : String} {settings : Settings} {model : Model}
    (loaded : loadModel disk path settings = .ok (text, model)) : model.Finished :=
  Model.finished_of_compile (compile_of_loadModel loaded)

/-! ### Paths -/

theorem within_inj {directory a b : String} : within directory a = within directory b ↔ a = b := by
  unfold within
  split
  · rw [String.append_right_inj]
  · rw [String.append_right_inj]

theorem artifact_inj {a b : Name} : a ++ ".json" = b ++ ".json" ↔ a = b :=
  String.append_left_inj ".json"

/-- Each document has a file of its name. The functions and the manifest follow. -/
theorem artifacts_eq {outline : Outline} (layout : Json.Layout)
    (paired : outline.manifest.entries =
      (outline.documents.map (·.name)).map fun name => { name, artifact := name ++ ".json" }) :
    artifacts outline layout =
      outline.documents.map (fun document => (document.name ++ ".json", document.body.render layout)) ++
        [("functions.json", outline.functions.render layout),
          ("manifest.json", outline.manifest.toJson.sortKeys.render layout)] := by
  have zipped : (((outline.documents.map (·.name)).map fun name => { name, artifact := name ++ ".json" : ManifestEntry }).zip
      outline.documents).map (fun pair => (pair.1.artifact, pair.2.body.render layout)) =
      outline.documents.map fun document => (document.name ++ ".json", document.body.render layout) := by
    induction outline.documents with
    | nil => rfl
    | cons document documents ih => exact congrArg _ ih
  rw [artifacts, paired, ← zipped]

/-! ### The outline command -/

/-- What a successful outline command has loaded, rendered and written. -/
theorem runOutline_ok {disk : Disk} {schema out : String} {settings options : Option String} {run : Run}
    (done : runOutline disk schema out settings options = .ok run) :
    ∃ format config text model outline, loadOptions disk options = .ok format ∧
      loadSettings disk settings = .ok config ∧ loadModel disk schema config = .ok (text, model) ∧
      (Outline.render model format (some text)).1 = .ok outline ∧
      run.written = ((artifacts outline format.layout).map (·.1)).map (within out) ∧
      run.disk = disk.writeAll ((artifacts outline format.layout).map fun file => (within out file.1, file.2)) := by
  obtain ⟨format, optioned, done⟩ := bind_ok done
  obtain ⟨config, set, done⟩ := bind_ok done
  obtain ⟨⟨text, model⟩, loaded, done⟩ := bind_ok done
  obtain ⟨outline, rendered, done⟩ := bind_ok done
  cases done
  refine ⟨format, config, text, model, outline, optioned, set, loaded, ?_, ?_, rfl⟩
  · unfold render at rendered
    cases made : (Outline.render model format (some text)).1 with
    | ok other =>
      rw [made] at rendered
      cases rendered
      rfl
    | error e =>
      rw [made] at rendered
      cases e with
      | lookup e => cases rendered
      | backend e => cases e
  · dsimp only
    rw [List.map_map, List.map_map]
    rfl

theorem nodup_paths {names : List Name} {out : String} (distinct : names.Nodup) :
    ((names.map (· ++ ".json") ++ ["functions.json", "manifest.json"]).map (within out)).Nodup ↔
      "functions" ∉ names ∧ "manifest" ∉ names := by
  have paths : ∀ files : List String, (files.map (within out)).Nodup ↔ files.Nodup :=
    fun files => List.nodup_map_iff fun a b => within_inj.mp
  have files : (names.map (· ++ ".json")).Nodup := (List.nodup_map_iff fun a b => artifact_inj.mp).mpr distinct
  have listed : ∀ name : Name, name ++ ".json" ∈ names.map (· ++ ".json") ↔ name ∈ names := by
    intro name
    rw [List.mem_map]
    constructor
    · rintro ⟨other, member, same⟩
      rwa [← artifact_inj.mp same]
    · intro member
      exact ⟨name, member, rfl⟩
  have functions : "functions.json" ∈ names.map (· ++ ".json") ↔ "functions" ∈ names := listed "functions"
  have manifest : "manifest.json" ∈ names.map (· ++ ".json") ↔ "manifest" ∈ names := listed "manifest"
  rw [paths, List.nodup_append]
  constructor
  · rintro ⟨_, _, apart⟩
    exact ⟨fun member => apart _ (functions.mpr member) _ List.mem_cons_self rfl,
      fun member => apart _ (manifest.mpr member) _ (List.mem_cons_of_mem _ List.mem_cons_self) rfl⟩
  · rintro ⟨noFunctions, noManifest⟩
    refine ⟨files, by decide, ?_⟩
    rintro file member other fixed rfl
    rcases List.mem_cons.mp fixed with rfl | fixed
    · exact noFunctions (functions.mp member)
    · rw [List.mem_singleton] at fixed
      subst fixed
      exact noManifest (manifest.mp member)

theorem rendered_parts {model : Model} (finished : model.Finished) {options : OutlineOptions} {source : Option String}
    {outline : Outline} (rendered : (Outline.render model options source).1 = .ok outline) :
    outline.manifest.entries = (outline.documents.map (·.name)).map (fun name => { name, artifact := name ++ ".json" }) ∧
      (outline.documents.map (·.name)).Nodup ∧
      outline.functions = Json.sortKeys (.arr (model.functions.map (·.toOutlineJson))) := by
  obtain ⟨pages, mapped, shape⟩ := Outline.render_finished finished options source
  rw [rendered] at shape
  cases shape
  have names := @Outline.names_of_pages model options finished pages mapped
  refine ⟨?_, ?_, rfl⟩
  · rw [names]
    rfl
  · rw [names]
    exact finished.indexed.distinct.sublist (List.filter_sublist.map _)

/-- A document whose name is not taken by another file stays in its own. -/
theorem document_written {outline : Outline} {layout : Json.Layout} {document : Document}
    (paired : outline.manifest.entries =
      (outline.documents.map (·.name)).map fun name => { name, artifact := name ++ ".json" })
    (distinct : (outline.documents.map (·.name)).Nodup) (member : document ∈ outline.documents)
    (notFunctions : document.name ≠ "functions") (notManifest : document.name ≠ "manifest") (disk : Disk) (out : String) :
    (disk.writeAll ((artifacts outline layout).map fun file => (within out file.1, file.2))).readText?
      (within out (document.name ++ ".json")) = some (document.body.render layout) := by
  obtain ⟨before, after, parts⟩ := List.append_of_mem member
  rw [parts, List.map_append, List.map_cons, List.nodup_append] at distinct
  have unique : document.name ∉ after.map (·.name) := (List.nodup_cons.mp distinct.2.1).1
  rw [artifacts_eq layout paired, parts, List.map_append, List.map_append, List.map_append, List.map_cons,
    List.map_cons, List.append_assoc, List.cons_append]
  refine Disk.readText?_writeAll ?_
  intro later
  rw [List.map_append, List.mem_append] at later
  rcases later with other | fixed
  · simp only [List.map_map, List.mem_map, Function.comp_apply, within_inj, artifact_inj] at other
    exact unique (List.mem_map.mpr other)
  · rw [List.map_map, List.map_cons, List.map_singleton, List.mem_cons, List.mem_singleton] at fixed
    rcases fixed with same | same
    · exact notFunctions (artifact_inj.mp (within_inj.mp same))
    · exact notManifest (artifact_inj.mp (within_inj.mp same))

/-- A successful outline command repeats a path exactly if a definition is called `functions` or `manifest`. Every other
document, the functions and the manifest are found in their files afterwards. -/
theorem outline_written {disk : Disk} {schema out : String} {settings options : Option String} {run : Run}
    (done : runOutline disk schema out settings options = .ok run) :
    ∃ format config text model outline, loadOptions disk options = .ok format ∧
      loadSettings disk settings = .ok config ∧ loadModel disk schema config = .ok (text, model) ∧
      (Outline.render model format (some text)).1 = .ok outline ∧
      run.written = (outline.manifest.entries.map (·.artifact) ++ ["functions.json", "manifest.json"]).map (within out) ∧
      (run.written.Nodup ↔ ∀ entry ∈ outline.manifest.entries, entry.name ≠ "functions" ∧ entry.name ≠ "manifest") ∧
      (∀ entry ∈ outline.manifest.entries, entry.name ≠ "functions" → entry.name ≠ "manifest" →
        ∃ document, outline.document? entry.name = some document ∧
          run.disk.readText? (within out entry.artifact) = some (document.body.render format.layout)) ∧
      outline.functions = Json.sortKeys (.arr (model.functions.map (·.toOutlineJson))) ∧
      run.disk.readText? (within out "functions.json") = some (outline.functions.render format.layout) ∧
      run.disk.readText? (within out "manifest.json") =
        some (outline.manifest.toJson.sortKeys.render format.layout) := by
  obtain ⟨format, config, text, model, outline, optioned, set, loaded, rendered, written, final⟩ := runOutline_ok done
  obtain ⟨paired, distinct, functions⟩ := rendered_parts (finished_of_loadModel loaded) rendered
  have shape := artifacts_eq format.layout paired
  have names : (artifacts outline format.layout).map (·.1) =
      (outline.documents.map (·.name)).map (· ++ ".json") ++ ["functions.json", "manifest.json"] := by
    rw [shape, List.map_append, List.map_map, List.map_map]
    rfl
  rw [names] at written
  refine ⟨format, config, text, model, outline, optioned, set, loaded, rendered, ?_, ?_, ?_, functions, ?_, ?_⟩
  · simp only [written, paired, List.map_map, Function.comp_def]
  · rw [written, nodup_paths distinct, paired]
    constructor
    · rintro ⟨noFunctions, noManifest⟩ entry listed
      obtain ⟨name, member, rfl⟩ := List.mem_map.mp listed
      exact ⟨fun same => noFunctions (same ▸ member), fun same => noManifest (same ▸ member)⟩
    · intro free
      exact ⟨fun member => (free _ (List.mem_map_of_mem member)).1 rfl,
        fun member => (free _ (List.mem_map_of_mem member)).2 rfl⟩
  · intro entry listed notFunctions notManifest
    rw [paired, List.map_map] at listed
    obtain ⟨document, member, rfl⟩ := List.mem_map.mp listed
    refine ⟨document, Outline.document?_of_mem distinct member, ?_⟩
    rw [final]
    exact document_written paired distinct member notFunctions notManifest disk out
  · rw [final, shape, List.map_append]
    refine Disk.readText?_writeAll ?_
    rw [List.map_singleton, List.map_singleton, List.mem_singleton, within_inj]
    exact (by decide : "functions.json" ≠ "manifest.json")
  · rw [final, shape, List.append_cons, List.map_append]
    exact Disk.readText?_writeAll List.not_mem_nil

/-- A disk with a schema of one type. -/
def tollDisk : Disk where
  files := [("toll.exp", "SCHEMA toll; TYPE fare = INTEGER; END_TYPE; END_SCHEMA;".toUTF8)]

theorem toll_written :
    ∃ run, runOutline tollDisk "toll.exp" "out" none none = .ok run ∧ run.written.Nodup ∧
      ∃ outline : Outline, outline.manifest.entries = [⟨"fare", "fare.json"⟩] ∧
        (∃ document, outline.document? "fare" = some document ∧
          run.disk.readText? "out/fare.json" = some (document.body.render .indented)) ∧
        run.disk.readText? "out/functions.json" = some (outline.functions.render .indented) ∧
        run.disk.readText? "out/manifest.json" = some (outline.manifest.toJson.sortKeys.render .indented) := by
  obtain ⟨run, done, written⟩ := exists_ok_of_map
    (show (runOutline tollDisk "toll.exp" "out" none none).toOption.map (·.written) =
      some (["fare.json", "functions.json", "manifest.json"].map (within "out")) by decide +kernel)
  obtain ⟨format, _, _, _, outline, optioned, _, loaded, rendered, paths, distinct, documents, _, functions,
    manifest⟩ := outline_written done
  cases optioned
  rw [written, List.map_inj_right fun _ _ => within_inj.mp] at paths
  have artifacts : outline.manifest.entries.map (·.artifact) = ["fare"].map (· ++ ".json") :=
    (List.append_cancel_right (show ["fare.json"] ++ ["functions.json", "manifest.json"] = _ from paths)).symm
  have paired := (rendered_parts (finished_of_loadModel loaded) rendered).1
  rw [paired, List.map_map] at artifacts
  rw [(List.map_inj_right fun _ _ => artifact_inj.mp).mp artifacts] at paired
  have fare : (⟨"fare", "fare.json"⟩ : ManifestEntry) ∈ outline.manifest.entries := by
    rw [paired]
    exact List.mem_singleton_self _
  have document := documents _ fare (by decide) (by decide)
  dsimp only at document
  rw [show within "out" "fare.json" = "out/fare.json" by decide +kernel] at document
  rw [show within "out" "functions.json" = "out/functions.json" by decide +kernel] at functions
  rw [show within "out" "manifest.json" = "out/manifest.json" by decide +kernel] at manifest
  refine ⟨run, done, distinct.mpr ?_, outline, paired, document, functions, manifest⟩
  rw [paired]
  decide

/-- A disk with a schema that declares a type called `functions`. -/
def ledgerDisk : Disk where
  files := [("ledger.exp", "SCHEMA ledger; TYPE functions = REAL; END_TYPE; END_SCHEMA;".toUTF8)]

/-- The document of that type is written first and lost when the functions are written, of which there are none. -/
theorem ledger_document_overwritten :
    ∃ run, runOutline ledgerDisk "ledger.exp" "out" none none = .ok run ∧ ¬ run.written.Nodup ∧
      run.disk.readText? "out/functions.json" = some "[]" := by
  obtain ⟨run, done, read⟩ := exists_ok_of_map
    (show (runOutline ledgerDisk "ledger.exp" "out" none none).toOption.map
        (fun run => (run.written, run.disk.readText? "out/functions.json")) =
      some (["out/functions.json", "out/functions.json", "out/manifest.json"], some "[]") by decide +kernel)
  obtain ⟨written, lost⟩ := Prod.mk.inj read
  exact ⟨run, done, by rw [written]; decide, lost⟩

end Command

end Express
