import Reserved.Pipeline

/-!
# The command line

Makes the classifier table of a keyword file and writes it. The arguments are the keyword
file and the artifact; everything else comes from the environment.
-/

namespace Reserved

namespace CommandLine

/-- What a command prints, and the status it ends with. -/
structure Report where
  stdout : String
  stderr : String
  status : Nat
  deriving DecidableEq, Repr

/-- Says that a command has failed. -/
def Report.fail (r : Report) (message : String) : Report :=
  { r with stderr := r.stderr ++ s!"error: {message}\n", status := 1 }

/-- Prints a line. -/
def Report.say (r : Report) (line : String) : Report :=
  { r with stdout := r.stdout ++ line ++ "\n" }

def withArguments (s : Settings) : List String → Settings
  | [] => s
  | [spec] => { s with specPath := spec }
  | spec :: out :: _ => { s with specPath := spec, outPath := out }

/-- An error with what it was raised for. -/
def explain (e : PipelineError) : String :=
  match e.source? with
  | some source => s!"{e.message}: {source}"
  | none => e.message

/-- Writes the table as JSON beside the artifact, if the environment asks for it. -/
def dump (around : Surroundings) (s : Settings) (t : HashTable) (d : Disk) (r : Report) :
    Report × Disk :=
  if around.env.isSet "KEYHASH_DUMP_JSON" then
    let path := Path.withExtension s.outPath "json"
    match (Disk.saveTable path t).run d with
    | (.ok (), d) => (r.say s!"[gen_keyhash] wrote {path}", d)
    | (.error e, d) => (r.fail s!"failed to write {path}: {e.message}", d)
  else (r, d)

/-- The lines that end a successful run. -/
def finish (s : Settings) (r : Report) : Report :=
  let r := r.say s!"[gen_keyhash] wrote {s.outPath}"
  match s.backend with
  | .builtin => r.say "         tip: commit this file together with the keyword file."
  | .external => r

/-- Reports on what has been made. -/
def report (around : Surroundings) (s : Settings) (product : Product) (d : Disk) (r : Report) :
    Report × Disk :=
  let spec := product.spec
  let r := r.say
    s!"[gen_keyhash] {spec.length} keywords, lengths {spec.minLen}..={spec.maxLen}"
  match product.table with
  | none => (finish s r, d)
  | some t =>
    let counts := s!"buckets = {t.displacements.length}, slots = {t.slots.length}"
    let r := r.say s!"[gen_keyhash] seed = {hexWord t.seed}, {counts}"
    match dump around s t d r with
    | (r, d) => if r.status = 0 then (finish s r, d) else (r, d)

/-- Runs the command. -/
def run (around : Surroundings) (arguments : List String) (d : Disk) :
    Report × Disk × Journal :=
  let r : Report := ⟨"", "", 0⟩
  match Settings.ofEnvironment around.env with
  | .error e => (r.fail e.message, d, .empty)
  | .ok s =>
    let s := withArguments s arguments
    let r := r.say s!"[gen_keyhash] {s.specPath} -> {s.outPath} ({s.backend.name} backend)"
    match Pipeline.run around s d with
    | (.error e, d, j) =>
      (r.fail s!"generating keyword table from {s.specPath}: {explain e}", d, j)
    | (.ok product, d, j) =>
      match report around s product d r with
      | (r, d) => (r, d, j)

end CommandLine

end Reserved
