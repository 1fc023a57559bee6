import Reserved.CommandLine

/-!
# The program

Reads what a run needs to know of the real files into a file system, runs the command on
it, and makes the steps of that run on the real files. This build starts no other program,
so the search path is left empty.
-/

namespace Reserved.Main

/-- The names of the variables that a run looks at. -/
def variableNames : List String :=
  ["KEYHASH_BACKEND", "KEYHASH_SEED", "KEYHASH_ITERATIONS", "GPERF", "GPERF_EXTRA_FLAGS",
    "KEYHASH_KIND_TYPE", "KEYHASH_SENTINEL", "KEYHASH_DUMP_JSON"]

def environment : IO Environment := do
  let found ← variableNames.mapM fun name => do
    return (← IO.getEnv name).map fun text => (name, text.utf8)
  return found.filterMap id

/-- The paths that a run may read or change. -/
def paths (s : Settings) : List String :=
  [s.specPath, s.outPath, Disk.sidePath s.outPath, Path.withExtension s.outPath "json"]

/-- The location a path names if no link is on its way. -/
def location (workDir : Location) (path : String) : Location :=
  (Path.pieces path).foldl
    (fun loc name =>
      if name = "." then loc else if name = ".." then loc.dropLast else loc ++ [name])
    (if Path.isAbsolute path then [] else workDir)

/-- The entry at a location of the real file system. -/
def probe (loc : Location) : IO (Option Entry) := do
  let path := Path.ofNames true loc
  try
    return some (.file (← IO.FS.readBinFile path).toList false)
  catch
    | .inappropriateType .. =>
      -- a directory opens under its own name with a slash, a file does not
      try
        let _ ← IO.FS.readBinFile (path ++ "/.")
        return none
      catch
        | .inappropriateType _ 21 _ => return some .directory
        | _ => return none
    | _ => return none

/-- The entries at the locations and on the way to them. -/
def snapshot (workDir : Location) (targets : List Location) : IO FileSystem := do
  let ways := targets.flatMap fun loc => (List.range loc.length).map fun n => loc.take (n + 1)
  let entries ← ways.eraseDups.mapM fun loc => do
    return (← probe loc).map fun e => (loc, e)
  return ⟨workDir, entries.filterMap id⟩

/-- Makes a step on the real files. -/
def perform (step : Step) : IO Unit :=
  let path := Path.ofNames true
  match step with
  | .makeDirectory loc => IO.FS.createDir (path loc)
  | .create loc => IO.FS.writeBinFile (path loc) ByteArray.empty
  | .write loc bytes => IO.FS.writeBinFile (path loc) ⟨bytes.toArray⟩
  | .rename source target => IO.FS.rename (path source) (path target)
  | .remove loc => IO.FS.removeFile (path loc)

def run (arguments : List String) : IO UInt32 := do
  let around : Surroundings := ⟨← environment, []⟩
  let workDir := Path.pieces (← IO.currentDir).toString
  let targets :=
    match Settings.ofEnvironment around.env with
    | .ok s => (paths (CommandLine.withArguments s arguments)).map (location workDir)
    | .error _ => []
  let files ← snapshot workDir (workDir :: targets)
  let (report, disk, _) := CommandLine.run around arguments (.ofFiles files)
  try
    disk.steps.forM perform
  catch e =>
    IO.eprintln s!"error: {e}"
    return 1
  IO.print report.stdout
  IO.eprint report.stderr
  return report.status.toUInt32

end Reserved.Main

def main (arguments : List String) : IO UInt32 :=
  Reserved.Main.run arguments
