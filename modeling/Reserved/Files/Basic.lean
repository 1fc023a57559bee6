import Reserved.Files.Error
import Reserved.Files.Path
import Reserved.Text.Utf8

/-!
# File systems

A file system maps locations to entries. A path is looked up one step at a time from the
working directory or the root, following the links it meets; a chain of more than forty of
them leads nowhere. No two locations are names of one file: what is written at one of them is
found at no other.
-/

namespace Reserved

/-- How a program ends, if it does. -/
inductive Ending
  | exit (status : Nat)
  | signal (number : Nat)
  /-- It goes on for ever, and so does who waits for its end. -/
  | never
  deriving DecidableEq, Repr

/-- What a program does when it is run. It changes no file. -/
structure Program where
  stdout : List UInt8
  stderr : List UInt8
  ending : Ending
  /-- Whether it reads its standard input, all of it before it writes anything. -/
  readsInput : Bool
  deriving DecidableEq, Repr

/-- The bytes of a script for the shell. -/
def shellScript : List UInt8 :=
  "#!/bin/sh\n".utf8

/-- The names that lead from the root to an entry. -/
abbrev Location := List String

inductive Entry
  | directory
  | file (content : List UInt8) (executable : Bool)
  /-- A file that holds a program: a script, unless its bytes say otherwise. -/
  | program (p : Program) (executable : Bool) (content : List UInt8 := shellScript)
  /-- A symbolic link. -/
  | link (target : String)
  /-- A device on which there is no space. -/
  | fullDevice
  deriving DecidableEq, Repr

structure FileSystem where
  /-- Where relative paths begin. -/
  workDir : Location
  entries : List (Location × Entry)
  deriving DecidableEq, Repr

namespace FileSystem

/-- The entry at a location. The root is a directory and always there. -/
def get? (fs : FileSystem) (loc : Location) : Option Entry :=
  if loc = [] then some .directory else fs.entries.lookup loc

def erase (fs : FileSystem) (loc : Location) : FileSystem :=
  { fs with entries := fs.entries.filter fun e => e.1 ≠ loc }

/-- The file system with `entry`, and nothing else, at a location. -/
def set (fs : FileSystem) (loc : Location) (entry : Entry) : FileSystem :=
  { fs with entries := (loc, entry) :: (fs.erase loc).entries }

@[simp]
theorem get?_root (fs : FileSystem) : fs.get? [] = some .directory := rfl

theorem lookup_cons_of_ne {loc l : Location} (e : Entry) (rest : List (Location × Entry))
    (h : l ≠ loc) : ((loc, e) :: rest).lookup l = rest.lookup l := by
  rw [List.lookup_cons, beq_false_of_ne h]

theorem lookup_filter_ne (entries : List (Location × Entry)) (loc l : Location) :
    (entries.filter fun e => e.1 ≠ loc).lookup l =
      if l = loc then none else entries.lookup l := by
  induction entries with
  | nil => simp
  | cons e rest ih =>
    obtain ⟨k, v⟩ := e
    by_cases hk : k = loc
    · subst hk
      rw [List.filter_cons_of_neg (by simp), ih]
      split
      · rfl
      · next hl => rw [lookup_cons_of_ne v rest hl]
    · rw [List.filter_cons_of_pos (by simpa using hk)]
      by_cases hl : l = k
      · subst hl
        rw [List.lookup_cons_self, List.lookup_cons_self, if_neg hk]
      · rw [lookup_cons_of_ne v _ hl, lookup_cons_of_ne v rest hl, ih]

/-- Erasing frees one location and leaves the others as they are. -/
theorem get?_erase (fs : FileSystem) {loc : Location} (l : Location) (h : loc ≠ []) :
    (fs.erase loc).get? l = if l = loc then none else fs.get? l := by
  by_cases hl : l = []
  · subst hl
    rw [if_neg (Ne.symm h), get?_root, get?_root]
  · rw [get?, if_neg hl, get?, if_neg hl]
    exact lookup_filter_ne fs.entries loc l

/-- Setting changes one location and leaves the others as they are. -/
theorem get?_set (fs : FileSystem) {loc : Location} (entry : Entry) (l : Location)
    (h : loc ≠ []) : (fs.set loc entry).get? l = if l = loc then some entry else fs.get? l := by
  by_cases hl : l = loc
  · subst hl
    rw [if_pos rfl, get?, if_neg h, set, List.lookup_cons_self]
  · by_cases hn : l = []
    · subst hn
      rw [if_neg hl, get?_root, get?_root]
    · have := get?_erase fs l h
      rw [if_neg hl] at this ⊢
      rw [← this, get?, if_neg hn, get?, if_neg hn, set, lookup_cons_of_ne entry _ hl]

/-- What a look-up leads to. -/
inductive Found
  | entry (loc : Location) (e : Entry)
  /-- A name that is free in a directory that is there. -/
  | free (loc : Location)
  deriving DecidableEq, Repr

/-- What a look-up is for. -/
inductive Purpose
  /-- The entry itself, even if it is a link. -/
  | itself
  /-- What the path leads to. -/
  | content
  /-- A file that will be made if it is not there. No file is made for a name before a
  slash. -/
  | making
  deriving DecidableEq, Repr

/-- Takes the steps one by one; `onLink` goes on from the directory of a link with its target
and the steps after it. -/
def walk (fs : FileSystem) (purpose : Purpose)
    (onLink : Location → String → List String → Except FileError Found) :
    Location → List String → Except FileError Found
  | here, [] =>
    match fs.get? here with
    | some e => .ok (.entry here e)
    | none => .error .notFound
  | here, name :: rest =>
    match fs.get? here with
    | some .directory =>
      if name = "" ∨ name = "." then fs.walk purpose onLink here rest
      else if name = ".." then fs.walk purpose onLink here.dropLast rest
      else if purpose = .making ∧ rest = [""] then .error .isADirectory
      else if 255 < name.utf8.length then .error .nameTooLong
      else
        match fs.get? (here ++ [name]) with
        | none => if rest.isEmpty then .ok (.free (here ++ [name])) else .error .notFound
        | some (.link target) =>
          if rest.isEmpty && purpose == .itself then
            .ok (.entry (here ++ [name]) (.link target))
          else onLink here target rest
        | some _ => fs.walk purpose onLink (here ++ [name]) rest
    | some _ => .error .notADirectory
    | none => .error .notFound

/-- Takes the steps, following at most `links` links on the way. -/
def walkLinks (fs : FileSystem) (purpose : Purpose) :
    Nat → Location → List String → Except FileError Found
  | 0 => fs.walk purpose fun _ _ _ => .error .tooManyLinks
  | links + 1 => fs.walk purpose fun here target rest =>
    fs.walkLinks purpose links (if Path.isAbsolute target then [] else here)
      (Path.steps target ++ rest)

/-- What is wrong with a path before it is looked up, if anything is. -/
def pathFault? (path : String) : Option FileError :=
  if path.toList.contains '\x00' then some .nulInPath
  else if path.isEmpty then some .notFound
  else if 4096 ≤ path.utf8.length then some .nameTooLong
  else none

/-- Looks up some steps of a path. -/
def lookUpSteps (fs : FileSystem) (purpose : Purpose) (path : String) (steps : List String) :
    Except FileError Found :=
  match pathFault? path with
  | some e => .error e
  | none => fs.walkLinks purpose 40 (if Path.isAbsolute path then [] else fs.workDir) steps

/-- Looks up a path. -/
def lookUp (fs : FileSystem) (purpose : Purpose) (path : String) : Except FileError Found :=
  fs.lookUpSteps purpose path (Path.steps path)

/-- The entry at a path: a link itself, or what it leads to. -/
def entryAt (fs : FileSystem) (purpose : Purpose) (path : String) :
    Except FileError (Location × Entry) :=
  match fs.lookUp purpose path with
  | .ok (.entry loc e) => .ok (loc, e)
  | .ok (.free _) => .error .notFound
  | .error e => .error e

def isDirectory (fs : FileSystem) (path : String) : Bool :=
  match fs.entryAt .content path with
  | .ok (_, .directory) => true
  | _ => false

/-- Whether a path leads to a regular file. -/
def isFile (fs : FileSystem) (path : String) : Bool :=
  match fs.entryAt .content path with
  | .ok (_, .file ..) => true
  | .ok (_, .program ..) => true
  | _ => false

/-- Whether a path leads to a regular file that may be run. -/
def isExecutable (fs : FileSystem) (path : String) : Bool :=
  match fs.entryAt .content path with
  | .ok (_, .file _ executable) => executable
  | .ok (_, .program _ executable _) => executable
  | _ => false

/-- The bytes of a file. A device has no end, and there is no space for what it holds. -/
def read (fs : FileSystem) (path : String) : Except FileError (List UInt8) :=
  match fs.entryAt .content path with
  | .ok (_, .file content _) => .ok content
  | .ok (_, .program _ _ content) => .ok content
  | .ok (_, .directory) => .error .isADirectory
  | .ok _ => .error .noSpace
  | .error e => .error e

/-- The path of the working directory. -/
def workPath (fs : FileSystem) : String :=
  Path.ofNames true fs.workDir

end FileSystem

end Reserved
