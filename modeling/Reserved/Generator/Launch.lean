import Reserved.Files.Basic
import Reserved.Settings

/-!
# Starting programs

A command names a program by a path, or by a bare name that the directories of the search
path are tried for. A file that is no program may begin with a line that names its
interpreter; that one is started in its place and given the path of the file. Interpreters
may have interpreters themselves, but not without end. There is only so much space for the
arguments of a command and its variables.
-/

namespace Reserved

/-- What a run finds around it besides files. -/
structure Surroundings where
  env : Environment
  /-- Directories in which programs are searched. -/
  searchPath : List String

/-- A program that starts. -/
structure Launch where
  program : Program
  /-- What it is given before the arguments of the command. -/
  leading : List String
  deriving DecidableEq, Repr

/-- What the first line of a file says about how to run it. -/
structure Interpreter where
  path : List UInt8
  /-- One argument that goes before the path of the file. -/
  argument : Option String
  deriving DecidableEq, Repr

namespace Interpreter

/-- The blanks of an interpreter line. -/
def isGap (b : UInt8) : Bool :=
  b == ' '.toUInt8 || b == '\t'.toUInt8

/-- How much of a file is looked at. -/
def window : Nat := 256

/-- Reads a line from its name on. The name goes up to a blank; what follows the blanks after it
is one argument, and may be empty. -/
def ofLine (line : List UInt8) : Interpreter :=
  let rest := line.dropWhile (! isGap ·)
  let argument := String.ofList (Utf8.decodeLossy (rest.dropWhile isGap))
  ⟨line.takeWhile (! isGap ·), if rest.isEmpty then none else some argument⟩

/-- Reads a line whose last blanks do not count. One of blanks only names no interpreter. -/
def ofTrimmed? (line : List UInt8) : Option Interpreter :=
  if line.all isGap then none
  else some (ofLine (line.reverse.dropWhile isGap).reverse)

/-- The interpreter that a file names. A short file is looked at as if NULs filled the window.
The line ends at a line feed or a NUL; before a NUL within the window its last blanks count,
and it may even be empty. A line that fills the window is cut, and its name must be ended by a
blank. -/
def of? (content : List UInt8) : Option Interpreter :=
  match (content ++ List.replicate window 0).take window with
  | mark :: sign :: rest =>
    if mark = '#'.toUInt8 ∧ sign = '!'.toUInt8 then
      let isText := fun (b : UInt8) => b ≠ '\n'.toUInt8 && b ≠ 0
      let line := (rest.takeWhile isText).dropWhile isGap
      match rest.dropWhile isText with
      | [] => if line.any isGap then ofTrimmed? line.dropLast else none
      | last :: after =>
        if last = 0 ∧ !after.isEmpty then some (ofLine line) else ofTrimmed? line
    else none
  | _ => none

/-- The path of the interpreter as text. All names of files are text, so a name that is none is
missing from the directory it is looked up in. -/
def pathText (fs : FileSystem) (i : Interpreter) : Except FileError String :=
  match Utf8.decode i.path with
  | .ok text => .ok (String.ofList text)
  | .error fault => do
    let isName := fun (b : UInt8) => b ≠ '/'.toUInt8
    let directory := ((i.path.take fault.index).reverse.dropWhile isName).reverse
    if !directory.isEmpty then
      let _ ← fs.entryAt .content (String.ofList (Utf8.decodeLossy directory))
    let name := (i.path.drop directory.length).takeWhile isName
    throw (if 255 < name.length then .nameTooLong else .notFound)

end Interpreter

namespace Launch

/-- How many bytes an argument may have. -/
def argumentLimit : Nat := 131071

/-- Whether a text is too long for an argument. -/
def isTooLong (text : String) : Bool :=
  argumentLimit < text.utf8.length

/-- How many bytes there are for a command, a quarter of a stack of eight mebibytes. -/
def commandLimit : Nat := 2097152

/-- The bytes that arguments and variables take. Each also takes a NUL and an address. -/
def commandSize (s : Surroundings) (arguments : List String) : Nat :=
  let searchPath := "PATH=".utf8.length + (":".intercalate s.searchPath).utf8.length
  let assignments := s.env.map fun (name, value) => name.utf8.length + 1 + value.length
  (arguments.map (·.utf8.length) ++ searchPath :: assignments).foldl
    (fun total size => total + size + 9) 0

/-- The bytes that an interpreter and its argument take in front of the path of a file. -/
def interpreterSize (i : Interpreter) : Nat :=
  i.path.length + 1 + (i.argument.map fun argument => argument.utf8.length + 1).getD 0

/-- The entry a path leads to, if it may be run. The empty path leads to the working directory,
which may not. -/
def entryToRun (fs : FileSystem) (path : String) : Except FileError Entry :=
  if path.isEmpty then .error .permissionDenied else
  match fs.entryAt .content path with
  | .ok (_, .program p true content) => .ok (.program p true content)
  | .ok (_, .file content true) => .ok (.file content true)
  | .ok _ => .error .permissionDenied
  | .error e => .error e

/-- What starts for a path and a command of `size` bytes. An interpreter is started by
`interpret`, for the size that the command has then. A program that is a script is started only if
it may have one. -/
def loadBy (fs : FileSystem) (mayInterpret : Bool)
    (interpret : Nat → String → Except FileError Launch) (size : Nat) (path : String) :
    Except FileError Launch :=
  match entryToRun fs path with
  | .error e => .error e
  | .ok (.program p _ content) =>
    match Interpreter.of? content with
    | none => .ok ⟨p, []⟩
    | some i =>
      if commandLimit < size + interpreterSize i then .error .argumentTooLong
      else if mayInterpret then .ok ⟨p, []⟩
      else .error .tooManyLinks
  | .ok (.file content _) =>
    match Interpreter.of? content with
    | none => .error .badExecutable
    | some i =>
      if commandLimit < size + interpreterSize i then .error .argumentTooLong
      else
        match i.pathText fs with
        | .error e => .error e
        | .ok interpreter =>
          (interpret (size + interpreterSize i) interpreter).map fun l =>
            { l with leading := l.leading ++ i.argument.toList ++ [path] }
  | .ok _ => .error .permissionDenied

/-- What starts for a path, with at most so many interpreters in a row. The one too many is looked
up before it is refused. -/
def loadWithin (fs : FileSystem) : Nat → Nat → String → Except FileError Launch
  | 0 => loadBy fs false fun _ interpreter => do
    let _ ← entryToRun fs interpreter
    throw .tooManyLinks
  | levels + 1 => loadBy fs true (loadWithin fs levels)

/-- What starts for a path when a command names a program and its arguments. -/
def load (fs : FileSystem) (s : Surroundings) (program : String) (arguments : List String)
    (path : String) : Except FileError Launch :=
  let size := fun (first : String) =>
    commandSize s (first :: arguments) + path.utf8.length + 1
  if arguments.any isTooLong ∨ commandLimit < size program then do
    let _ ← entryToRun fs path
    throw .argumentTooLong
  else loadWithin fs 5 (size path) path

/-- Starts a bare name from the first directory of the search path that has it as a program.
If none does, the last failure is told, or that one of them may not be run. -/
def loadFrom (fs : FileSystem) (s : Surroundings) (name : String) (arguments : List String)
    (failure : FileError) : List String → Except FileError Launch
  | [] => .error failure
  | dir :: rest =>
    match load fs s name arguments (Path.join dir name) with
    | .ok l => .ok l
    | .error e =>
      if e = .permissionDenied then loadFrom fs s name arguments e rest
      else if e = .notFound ∨ e = .notADirectory then
        loadFrom fs s name arguments (if failure = .permissionDenied then failure else e) rest
      else .error e

/-- Whether a text has a NUL in it, and so cannot be part of a command. -/
def hasNul (text : String) : Bool :=
  text.toList.contains '\x00'

/-- What starts for a command. -/
def ofCommand (fs : FileSystem) (s : Surroundings) (program : String)
    (arguments : List String) : Except FileError Launch :=
  if (program :: arguments).any hasNul then .error .nulInArgument
  else if program.toList.contains '/' then load fs s program arguments program
  else loadFrom fs s program arguments .notFound s.searchPath

end Launch

end Reserved
