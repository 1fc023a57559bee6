import Reserved.Files.Step

/-!
# Disks

A disk carries a file system through the steps of the calls made on it. It remembers every
state its files were in, so that one can speak about what a reader sees between two calls,
and it may be given faults, each of which lets one of the calls to come fail.
-/

namespace Reserved

/-- A failure that strikes a call from outside. -/
structure Fault where
  error : FileError
  /-- How many bytes of a write get through before it. -/
  written : Nat
  deriving DecidableEq, Repr

structure Disk where
  files : FileSystem
  /-- The states before this one, each with the step that ended it, latest first. -/
  past : List (FileSystem × Step)
  /-- What befalls the calls to come, in their order; the others go undisturbed. -/
  faults : List (Option Fault)
  deriving DecidableEq, Repr

/-- Calls made one after the other. What they did stands even if a later one fails. -/
abbrev DiskAction := ExceptT FileError (StateM Disk)

namespace Disk

/-- A disk on which nothing has happened and no fault is to come. -/
def ofFiles (files : FileSystem) : Disk :=
  ⟨files, [], []⟩

/-- The steps made so far, in their order. -/
def steps (d : Disk) : List Step :=
  (d.past.map Prod.snd).reverse

/-- The fault that befalls the next call, if one does. -/
def nextFault : DiskAction (Option Fault) := do
  let d ← get
  set { d with faults := d.faults.drop 1 }
  return d.faults.head?.join

/-- Makes a step. -/
def make (s : Step) : DiskAction Unit :=
  modify fun d => { d with files := d.files.after s, past := (d.files, s) :: d.past }

/-- A call that finds its place or fails, and then takes effect as a whole. -/
def call (place : FileSystem → Except FileError α) (step : α → Step) : DiskAction α := do
  match ← nextFault with
  | some fault => throw fault.error
  | none =>
    match place (← get).files with
    | .error e => throw e
    | .ok a =>
      make (step a)
      return a

def makeDirectory (path : String) : DiskAction Unit := do
  let _ ← call (·.directoryPlace path) .makeDirectory

/-- Opens a file to be written anew; answers where it is. -/
def create (path : String) : DiskAction Location :=
  call (·.filePlace path) .create

/-- Writes bytes to an open file. A fault lets some of them through. -/
def write (loc : Location) (bytes : List UInt8) : DiskAction Unit := do
  match ← nextFault with
  | some fault =>
    make (.write loc (bytes.take fault.written))
    throw fault.error
  | none =>
    match (← get).files.writeFault? loc bytes with
    | some e => throw e
    | none => make (.write loc bytes)

def rename (old new : String) : DiskAction Unit := do
  let _ ← call (·.renamePlaces old new) fun (source, target) => .rename source target

/-- Removes an entry if it is there and no directory. No fault befalls this. -/
def removeIfPresent (path : String) : DiskAction Unit := do
  match (← get).files.removalPlace path with
  | .ok loc => make (.remove loc)
  | .error _ => pure ()

/-- Makes a directory unless it has come to be there. -/
def ensureDirectory (path : String) : DiskAction Unit := do
  try makeDirectory path
  catch e =>
    if e = .alreadyExists ∧ (← get).files.isDirectory path then pure () else throw e

/-- Makes the first path a directory, and before it the ones after it, in which it lies,
where they are missing. What is there as a directory may stay. -/
def makeDirectories : List String → DiskAction Unit
  | [] => pure ()
  | path :: outer => do
    try ensureDirectory path
    catch
      | .notFound =>
        makeDirectories outer
        ensureDirectory path
      | e => throw e

/-- Writes a whole file in place. -/
def writeFile (path : String) (bytes : List UInt8) : DiskAction Unit := do
  let loc ← create path
  write loc bytes

end Disk

end Reserved
