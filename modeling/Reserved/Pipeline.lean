import Reserved.Files.Artifact
import Reserved.Generator.Edit
import Reserved.Generator.Run
import Reserved.Hash.Digest
import Reserved.Spec.Parser
import Reserved.Table.Artifact
import Reserved.Table.Build

/-!
# From a keyword file to its artifact

A run reads the keyword file, makes the artifact with the backend of its settings, and
writes it only when every step before has succeeded.
-/

namespace Reserved

inductive PipelineError
  | spec (e : SpecError)
  | build (e : BuildError)
  | generator (e : GeneratorError)
  | contract (m : ContractMismatch)
  | write (path : String) (e : FileError)
  deriving DecidableEq, Repr

namespace PipelineError

def message : PipelineError → String
  | spec e => e.message
  | build e => e.message
  | generator e => e.message
  | contract m => m.message
  | write path e => s!"failed to write {path}: {e.message}"

/-- The error an error was raised for, if there is one. -/
def source? : PipelineError → Option String
  | spec e => e.source?
  | generator e => e.source?
  | write _ e => some e.message
  | _ => none

end PipelineError

/-- What a run has made. -/
structure Product where
  spec : KeywordSpec
  /-- The table, if the built-in backend made it. -/
  table : Option HashTable
  text : String
  deriving DecidableEq, Repr

namespace KeywordSpec

/-- The bytes of a keyword file. -/
def readFile (fs : FileSystem) (path : String) : Except SpecError (List UInt8) :=
  (fs.read path).mapError fun e => .read path (.file e)

/-- The specification in a file. -/
def load (fs : FileSystem) (path : String) : Work SpecError KeywordSpec := do
  let bytes ← readFile fs path
  let spec ← ofBytes path bytes
  modify (·.log .debug s!"loaded {spec.length} keywords from {path}")
  return spec

end KeywordSpec

namespace Pipeline

/-- Fails as `r` does, for the reason `reason` gives. -/
def orFail (reason : ε → PipelineError) (r : Except ε α) : Work PipelineError α :=
  ExceptT.mk (pure (r.mapError reason))

/-- The table and its artifact. -/
def makeTable (s : Settings) (bytes : List UInt8) (spec : KeywordSpec) :
    Work PipelineError Product := do
  let t ← orFail .build (HashTable.build s.seed spec)
  let place := s!"{t.displacements.length} buckets, seed {hex t.seed.toNat}"
  modify (·.logTimed .info s!"[keyhash] {spec.length} keywords placed in {place},")
  return ⟨spec, some t, Artifact.render t ⟨s.specPath, digest bytes⟩⟩

/-- Logs how often each rule matches, up to the first that does not match as it must. -/
def logMatches (raw : String) : List EditRule → Journal → Journal
  | [], j => j
  | r :: rest, j =>
    let found := r.pattern.count raw.toList
    let j := j.log .debug s!"rewrite `{r.name}`: {found}/{r.expected} match(es)"
    if found = r.expected then logMatches raw rest j else j

/-- The edited output of an external generator. -/
def makeHeader (fs : FileSystem) (around : Surroundings) (s : Settings) (spec : KeywordSpec) :
    Work PipelineError Product := do
  let rules := EditRule.forConfig s.generator
  let raw ← (Generator.run fs around s.generator spec).adapt .generator
  modify (logMatches raw rules)
  let text ← orFail .contract (EditRule.applyAll rules raw)
  return ⟨spec, none, text⟩

/-- Makes the artifact without writing it. Files are only read. -/
def generate (fs : FileSystem) (around : Surroundings) (s : Settings) :
    Work PipelineError Product := do
  let bytes ← orFail .spec (KeywordSpec.readFile fs s.specPath)
  let spec ← orFail .spec (KeywordSpec.ofBytes s.specPath bytes)
  let lengths := s!"(lengths {spec.minLen}..={spec.maxLen})"
  modify (·.log .info s!"[keyhash] {spec.length} keywords from {s.specPath} {lengths}")
  match s.backend with
  | .builtin => makeTable s bytes spec
  | .external => makeHeader fs around s spec

/-- Writes an artifact and logs that it did. -/
def save (path text : String) (d : Disk) (j : Journal) : Except FileError Unit × Disk × Journal :=
  match (Disk.publish path text).run d with
  | (.ok (), d) =>
    (.ok (), d, j.logTimed .info s!"Saved {path} ({text.utf8.length} bytes)")
  | (.error e, d) => (.error e, d, j)

/-- Makes the artifact and writes it. -/
def run (around : Surroundings) (s : Settings) (d : Disk) :
    Except PipelineError Product × Disk × Journal :=
  match (generate d.files around s).run Journal.empty with
  | (.error e, j) => (.error e, d, j)
  | (.ok product, j) =>
    match save s.outPath product.text d j with
    | (.ok (), d, j) => (.ok product, d, j)
    | (.error e, d, j) => (.error (.write s.outPath e), d, j)

end Pipeline

end Reserved
