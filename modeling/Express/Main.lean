import Express.Command

/-!
# The command line
-/

namespace Express.CommandLine

def usage : String :=
  "usage: express check SCHEMA [--config FILE] [--strict]\n" ++
  "       express outline SCHEMA --out DIR [--config FILE] [--options FILE]\n" ++
  "       express inspect SCHEMA NAME [--config FILE]\n"

/-- Arguments by position and by option. -/
structure Arguments where
  positions : List String := []
  out : Option String := none
  settings : Option String := none
  options : Option String := none
  strict : Bool := false

def Arguments.read? : List String → Arguments → Option Arguments
  | [], found => some found
  | "--strict" :: rest, found => read? rest { found with strict := true }
  | "--config" :: path :: rest, found | "-c" :: path :: rest, found => read? rest { found with settings := some path }
  | "--out" :: path :: rest, found | "-o" :: path :: rest, found => read? rest { found with out := some path }
  | "--options" :: path :: rest, found => read? rest { found with options := some path }
  | word :: rest, found =>
    if word.startsWith "-" then none else read? rest { found with positions := found.positions ++ [word] }

def command? (arguments : List String) : Option Command := do
  let found ← Arguments.read? arguments {}
  match found.positions with
  | ["check", schema] => return .check schema found.settings found.strict
  | ["outline", schema] => return .outline schema (← found.out) found.settings found.options
  | ["inspect", schema, name] => return .inspect schema name found.settings
  | _ => none

/-- The files that a command may read. -/
def inputs : Command → List String
  | .check schema settings _ => schema :: settings.toList
  | .outline schema _ settings options => schema :: settings.toList ++ options.toList
  | .inspect schema _ settings => schema :: settings.toList

/-- Loads those of the files that can be read. -/
def load (paths : List String) : IO Disk := do
  let mut disk : Disk := {}
  for path in paths do
    try
      let bytes ← IO.FS.readBinFile path
      disk := { files := disk.files ++ [(path, bytes)] }
    catch _ => pure ()
  return disk

def execute (command : Command) : IO UInt32 := do
  match command.run (← load (inputs command)) with
  | .error e =>
    IO.eprint e.report
    return 1
  | .ok run =>
    if let .outline _ out _ _ := command then IO.FS.createDirAll out
    for path in run.written do
      IO.FS.writeBinFile path ((run.disk.files.lookup path).getD .empty)
    IO.eprint run.stderr
    IO.print run.stdout
    return 0

end Express.CommandLine

def main (arguments : List String) : IO UInt32 := do
  match Express.CommandLine.command? arguments with
  | some command => Express.CommandLine.execute command
  | none =>
    IO.eprint Express.CommandLine.usage
    return 2
