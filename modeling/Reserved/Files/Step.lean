import Reserved.Files.Basic

/-!
# Steps

The changes a file system can go through, each at locations in which every link has been
resolved, and how the paths of a call lead to one of them or to an error.
-/

namespace Reserved

/-- A change of a file system. -/
inductive Step
  | makeDirectory (loc : Location)
  /-- Makes an empty file, or empties the one that is there. -/
  | create (loc : Location)
  /-- Writes bytes at the end of a file. -/
  | write (loc : Location) (bytes : List UInt8)
  /-- Moves an entry to another location, in place of what is there. -/
  | rename (source target : Location)
  | remove (loc : Location)
  deriving DecidableEq, Repr

namespace FileSystem

/-- An entry after it has been opened to be written anew. -/
def emptied : Option Entry → Entry
  | some (.file _ executable) => .file [] executable
  | some (.program _ executable _) => .file [] executable
  | some e => e
  | none => .file [] false

/-- The file system after a step. -/
def after (fs : FileSystem) : Step → FileSystem
  | .makeDirectory loc => fs.set loc .directory
  | .create loc => fs.set loc (emptied (fs.get? loc))
  | .write loc bytes =>
    match fs.get? loc with
    | some (.file content executable) => fs.set loc (.file (content ++ bytes) executable)
    | _ => fs
  | .rename source target =>
    match fs.get? source with
    | some e => if source = target then fs else (fs.erase source).set target e
    | none => fs
  | .remove loc => fs.erase loc

/-- Where a directory is made for a path. -/
def directoryPlace (fs : FileSystem) (path : String) : Except FileError Location :=
  match fs.lookUpSteps .itself path (Path.pieces path) with
  | .ok (.free loc) => .ok loc
  | .ok (.entry ..) => .error .alreadyExists
  | .error e => .error e

/-- Where a file is made, or emptied, for a path. A link is followed, also to a file that is
not there yet. -/
def filePlace (fs : FileSystem) (path : String) : Except FileError Location :=
  match fs.lookUp .making path with
  | .ok (.free loc) => .ok loc
  | .ok (.entry _ .directory) => .error .isADirectory
  | .ok (.entry loc _) => .ok loc
  | .error e => .error e

/-- What is wrong with writing bytes to an open file, if anything is. -/
def writeFault? (fs : FileSystem) (loc : Location) (bytes : List UInt8) : Option FileError :=
  match fs.get? loc with
  | some .fullDevice => if bytes.isEmpty then none else some .noSpace
  | _ => none

/-- The directory a path lies in and the path's last name, if it has one. -/
def lastName (fs : FileSystem) (path : String) : Except FileError (Location × Option String) :=
  let pieces := Path.pieces path
  match fs.lookUpSteps .content path (pieces.dropLast ++ [""]) with
  | .ok (.entry loc _) =>
    .ok (loc, pieces.getLast?.filter fun name => name ≠ "." && name ≠ "..")
  | .ok (.free _) => .error .notFound
  | .error e => .error e

/-- The locations between which a rename moves an entry. Neither path's last link is
followed, and a directory neither moves nor gives way. -/
def renamePlaces (fs : FileSystem) (old new : String) : Except FileError (Location × Location) :=
  do
  let (oldDir, oldName) ← fs.lastName old
  let (newDir, newName) ← fs.lastName new
  match oldName, newName with
  | some oldName, some newName =>
    let source := oldDir ++ [oldName]
    let target := newDir ++ [newName]
    if 255 < oldName.utf8.length ∨ 255 < newName.utf8.length then throw .nameTooLong
    match fs.get? source with
    | none => throw .notFound
    | some .directory => throw .busy
    | some _ =>
      if Path.endsInSlash old ∨ Path.endsInSlash new then throw .notADirectory
      if fs.get? target = some .directory then throw .isADirectory
      return (source, target)
  | _, _ => throw .busy

/-- Where the entry is that removing a path removes. -/
def removalPlace (fs : FileSystem) (path : String) : Except FileError Location :=
  match fs.entryAt .itself path with
  | .ok (_, .directory) => .error .isADirectory
  | .ok (loc, _) => .ok loc
  | .error e => .error e

end FileSystem

end Reserved
