import Reserved.Generator.Input
import Reserved.Generator.Launch
import Reserved.Journal
import Reserved.Settings
import Reserved.Text.Lines
import Reserved.Text.Quoted

/-!
# Running an external generator

A generator is looked for where the settings, the environment and the search path say, in
this order. It is given its input and run to its end; what it wrote counts only if it ended
well, and only as UTF-8.

The generator is given all of its input before anything it writes is taken from it. So the two
may come to wait for each other, and then the run has no end.
-/

namespace Reserved

inductive GeneratorError
  | notFound (program : String)
  | spawn (program : String) (error : FileError)
  /-- The program did not end well. If it has no end, nobody is ever told. -/
  | exit (program : String) (ending : Ending) (stderr : String)
  | notUtf8 (program : String)
  deriving DecidableEq, Repr

/-- How the end of a program is told. -/
def Ending.describe : Ending → String
  | exit status => s!"exit status: {status}"
  | signal number =>
    match signalName? number with
    | some name => s!"signal: {number} ({name})"
    | none => s!"signal: {number}"
  | never => "no end"
where
  /-- The names of the signals that end a program. -/
  signalName? : Nat → Option String
    | 1 => some "SIGHUP"
    | 2 => some "SIGINT"
    | 3 => some "SIGQUIT"
    | 4 => some "SIGILL"
    | 5 => some "SIGTRAP"
    | 6 => some "SIGABRT"
    | 7 => some "SIGBUS"
    | 8 => some "SIGFPE"
    | 9 => some "SIGKILL"
    | 10 => some "SIGUSR1"
    | 11 => some "SIGSEGV"
    | 12 => some "SIGUSR2"
    | 13 => some "SIGPIPE"
    | 14 => some "SIGALRM"
    | 15 => some "SIGTERM"
    | 16 => some "SIGSTKFLT"
    | 24 => some "SIGXCPU"
    | 25 => some "SIGXFSZ"
    | 26 => some "SIGVTALRM"
    | 27 => some "SIGPROF"
    | 29 => some "SIGIO"
    | 30 => some "SIGPWR"
    | 31 => some "SIGSYS"
    | _ => none

namespace GeneratorError

def message : GeneratorError → String
  | notFound program => s!"could not locate `{program}`: set $GPERF or add it to PATH"
  | spawn program error => s!"failed to run {program}: {error.message}"
  | exit program ending stderr => s!"{program} exited with {ending.describe}:\n{stderr}"
  | notUtf8 program => s!"{program} produced non-UTF-8 output"

/-- The error an error was raised for, if there is one. -/
def source? : GeneratorError → Option String
  | spawn _ error => some error.message
  | _ => none

end GeneratorError

namespace Generator

/-- The full path of a program: a bare name is searched, a path is completed from the
working directory. -/
def which? (fs : FileSystem) (s : Surroundings) (program : String) : Option String :=
  let candidates :=
    if (Path.names program).length + (if Path.isAbsolute program then 1 else 0) ≤ 1 then
      s.searchPath.map fun dir => Path.join dir program
    else if Path.isAbsolute program then [program]
    else [Path.join fs.workPath ("/".intercalate ((Path.names program).dropWhile (· == ".")))]
  candidates.find? fs.isExecutable

/-- The program to run: the one the settings name, the one the variable `GPERF` names if it
is a file, or `gperf` on the search path. -/
def find (fs : FileSystem) (s : Surroundings) (cfg : GeneratorConfig) :
    Except GeneratorError String :=
  let search := fun (program : String) =>
    match which? fs s program with
    | some path => Except.ok path
    | none => .error (.notFound program)
  match cfg.program with
  | some program => if fs.isFile program then .ok program else search program
  | none =>
    match s.env.text? "GPERF" with
    | some program => if fs.isFile program then .ok program else search "gperf"
    | none => search "gperf"

/-- An argument as it is logged. -/
def showArgument (text : String) : String :=
  quote (if Launch.hasNul text then "<string-with-nul>" else text)

/-- A command as it is logged. -/
def showCommand (program : String) (arguments : List String) : String :=
  let program := quoteProgram (if Launch.hasNul program then "<string-with-nul>" else program)
  " ".intercalate (program :: arguments.map showArgument)

/-- What is logged of a program that ended well. -/
def warnings (program : String) (stderr : List Char) (j : Journal) : Journal :=
  (lines stderr).foldl (fun j line => j.log .warn s!"{program}: {String.ofList line}") j

/-- How many bytes a pipe holds that nobody reads from. -/
def pipeSize : Nat := 65536

/-- Whether a program and the run that gives it an input come to wait for each other: the one
to write more than is taken from it, the other to give it more than it reads. -/
def jams (p : Program) (input : List UInt8) : Bool :=
  !p.readsInput && decide (pipeSize < input.length) &&
    (decide (pipeSize < p.stdout.length) || decide (pipeSize < p.stderr.length))

/-- How a program ends that is given an input. -/
def endingOn (p : Program) (input : List UInt8) : Ending :=
  if jams p input then .never else p.ending

/-- Runs a program on `input` and answers what it wrote. -/
def execute (fs : FileSystem) (s : Surroundings) (cfg : GeneratorConfig)
    (program input : String) : Work GeneratorError String := do
  modify (·.log .debug s!"running {showCommand program cfg.arguments}")
  match Launch.ofCommand fs s program cfg.arguments with
  | .error e => throw (.spawn program e)
  | .ok ⟨p, leading⟩ =>
    modify (·.invoke ⟨leading, cfg.arguments, if p.readsInput then some input else none⟩)
    let stderr := Utf8.decodeLossy p.stderr
    let ending := endingOn p input.utf8
    if ending ≠ .exit 0 then throw (.exit program ending (String.ofList stderr))
    modify (warnings program stderr)
    match Utf8.decode p.stdout with
    | .error _ => throw (.notUtf8 program)
    | .ok text =>
      modify (·.logTimed .info s!"[keyhash] {program} produced {p.stdout.length} bytes")
      return String.ofList text

/-- Runs the generator for a specification and answers what it wrote. -/
def run (fs : FileSystem) (s : Surroundings) (cfg : GeneratorConfig) (spec : KeywordSpec) :
    Work GeneratorError String := do
  match find fs s cfg with
  | .error e => throw e
  | .ok program => execute fs s cfg program (cfg.inputText spec)

end Generator

end Reserved
