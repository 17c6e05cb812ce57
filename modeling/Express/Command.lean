import Express.Compile
import Express.Json.Reader
import Express.Outline

/-!
# Commands

The command line as a function from the files on a disk to what is printed and written.
-/

namespace Express

/-- Files by their paths. -/
structure Disk where
  files : List (String × ByteArray) := []

namespace Disk

/-- A file's text, unless there is no such file or it is not UTF-8. -/
def readText? (disk : Disk) (path : String) : Option String :=
  (disk.files.lookup path).bind String.fromUTF8?

/-- Replaces a file, or adds it at the end. -/
def writeText (disk : Disk) (path text : String) : Disk :=
  if disk.files.any (·.1 == path) then
    { files := disk.files.map fun (name, bytes) => (name, if name = path then text.toUTF8 else bytes) }
  else { files := disk.files ++ [(path, text.toUTF8)] }

end Disk

inductive Command where
  /-- Build the model and print its summary. -/
  | check (schema : String) (settings : Option String) (strict : Bool)
  /-- Write the outline into a directory. -/
  | outline (schema out : String) (settings options : Option String)
  /-- Print the body of one document. -/
  | inspect (schema : String) (name : Name) (settings : Option String)
  deriving DecidableEq, Repr

inductive CommandError where
  | unreadable (path : String)
  | badSettings (path : String)
  | badOptions (path : String)
  | notCompiled (path : String) (cause : CompileError)
  | lookup (e : LookupError)
  | notDeclared (name : Name)
  deriving DecidableEq, Repr

namespace CommandError

def message : CommandError → String
  | .unreadable path => s!"failed to read {path}"
  | .badSettings path => s!"failed to load config {path}"
  | .badOptions path => s!"invalid outline options {path}"
  | .notCompiled path _ => s!"failed to compile {path}"
  | .lookup e => e.message
  | .notDeclared name => s!"`{name}` is referenced but never declared"

def cause? : CommandError → Option String
  | .notCompiled _ cause => some cause.message
  | _ => none

/-- The error as it is printed. -/
def report (e : CommandError) : String :=
  "Error: " ++ e.message ++ "\n" ++ match e.cause? with
    | some cause => "\nCaused by:\n    " ++ cause ++ "\n"
    | none => ""

end CommandError

/-- What a command prints, the paths that it writes in order, and the disk behind it. -/
structure Run where
  stdout : String := ""
  stderr : String := ""
  written : List String := []
  disk : Disk

namespace Command

def loadSettings (disk : Disk) : Option String → Except CommandError Settings
  | none => .ok {}
  | some path =>
    match ((disk.readText? path).bind Json.read?).bind Settings.ofJson? with
    | some settings => .ok settings
    | none => .error (.badSettings path)

def loadOptions (disk : Disk) : Option String → Except CommandError OutlineOptions
  | none => .ok {}
  | some path =>
    match disk.readText? path with
    | none => .error (.unreadable path)
    | some text =>
      match (Json.read? text).bind OutlineOptions.ofJson? with
      | some options => .ok options
      | none => .error (.badOptions path)

/-- A schema's text and its model. -/
def loadModel (disk : Disk) (path : String) (settings : Settings) : Except CommandError (String × Model) :=
  match disk.readText? path with
  | none => .error (.unreadable path)
  | some text =>
    match (Model.compile settings text).1 with
    | .ok model => .ok (text, model)
    | .error e => .error (.notCompiled path e)

def render (model : Model) (options : OutlineOptions) (text : String) : Except CommandError Outline :=
  match (Outline.render model options (some text)).1 with
  | .ok rendered => .ok rendered
  | .error (.lookup e) => .error (.lookup e)

def runCheck (disk : Disk) (schema : String) (settings : Option String) (strict : Bool) : Except CommandError Run := do
  let settings ← loadSettings disk settings
  let (_, model) ← loadModel disk schema { settings with strict := settings.strict || strict }
  let undeclared := model.placeholders
  return {
    disk
    stdout := s!"ok schema {model.schema} ({model.summary.text})\n" ++
      if undeclared.isEmpty then ""
      else "info: referenced but never declared: " ++ ", ".intercalate undeclared ++ "\n" }

/-- The path of a file in a directory. The empty path is the current directory. -/
def within (directory file : String) : String :=
  if directory.isEmpty || directory.endsWith "/" then directory ++ file else directory ++ "/" ++ file

/-- The files of an outline in the order in which they are written. -/
def artifacts (outline : Outline) (layout : Json.Layout) : List (String × String) :=
  (outline.manifest.entries.zip outline.documents).map
    (fun (entry, document) => (entry.artifact, document.body.render layout)) ++
  [("functions.json", outline.functions.render layout),
    ("manifest.json", outline.manifest.toJson.sortKeys.render layout)]

def runOutline (disk : Disk) (schema out : String) (settings options : Option String) : Except CommandError Run := do
  let options ← loadOptions disk options
  let settings ← loadSettings disk settings
  let (text, model) ← loadModel disk schema settings
  let outline ← render model options text
  let files := (artifacts outline options.layout).map fun (file, content) => (within out file, content)
  return {
    disk := files.foldl (fun disk (path, content) => disk.writeText path content) disk
    written := files.map (·.1)
    stderr := s!"wrote {files.length} files to {out}\n" }

def runInspect (disk : Disk) (schema : String) (name : Name) (settings : Option String) : Except CommandError Run := do
  let settings ← loadSettings disk settings
  let (text, model) ← loadModel disk schema settings
  match model.get name with
  | .error e => .error (.lookup e)
  | .ok definition =>
    let outline ← render model {} text
    match outline.document? name with
    | none => .error (.notDeclared name)
    | some document =>
      return {
        disk
        stderr := s!"→ {name} ({definition.kind.phrase})\n"
        stdout := document.body.render .indented ++ "\n" }

def run (command : Command) (disk : Disk) : Except CommandError Run :=
  match command with
  | .check schema settings strict => runCheck disk schema settings strict
  | .outline schema out settings options => runOutline disk schema out settings options
  | .inspect schema name settings => runInspect disk schema name settings

end Command

end Express
