import Reserved.Text.Blank

/-!
# Paths

Paths as text, and what can be said of them without looking at any file: their names, the
directory they lie in, and the paths got from them by another name or another extension.
-/

namespace Reserved

namespace Path

/-- The pieces of a path between slashes, without the empty ones. -/
def pieces (path : String) : List String :=
  ((splitWhere (· == '/') path.toList).filter (· ≠ [])).map String.ofList

def isAbsolute (path : String) : Bool :=
  path.toList.head? == some '/'

def endsInSlash (path : String) : Bool :=
  path.toList.getLast? == some '/'

/-- The pieces of a path that a look-up takes one by one. A slash at the end is one more
step, of an empty name: what stands before it must be a directory. -/
def steps (path : String) : List String :=
  pieces path ++ if endsInSlash path then [""] else []

/-- The stretches of a text between slashes that begin after `before` characters, each with
the number of characters up to its end. -/
def stretches (before : Nat) : List (List Char) → List (List Char × Nat)
  | [] => []
  | cs :: rest => (cs, before + cs.length) :: stretches (before + cs.length + 1) rest

/-- The names in a path, each with the number of characters up to its end. A piece `.` says
nothing and counts only as the first piece of a relative path. -/
def marks (path : String) : List (String × Nat) :=
  let all := stretches 0 (splitWhere (· == '/') path.toList)
  match (all.filter (·.1 ≠ [])).map fun (cs, last) => (String.ofList cs, last) with
  | [] => []
  | first :: rest =>
    let rest := rest.filter (·.1 ≠ ".")
    if first.1 = "." ∧ isAbsolute path then rest else first :: rest

/-- The names in a path. -/
def names (path : String) : List String :=
  (marks path).map (·.1)

/-- The first `n` characters of a path. -/
def upTo (path : String) (n : Nat) : String :=
  String.ofList (path.toList.take n)

/-- A path with these names. -/
def ofNames (absolute : Bool) (names : List String) : String :=
  (if absolute then "/" else "") ++ "/".intercalate names

/-- The name of what a path leads to, unless it ends in `..` or has no name. -/
def fileName? (path : String) : Option String :=
  (names path).getLast?.filter fun name => name ≠ "." && name ≠ ".."

/-- The path up to the name before its last one; absent if there is no name. -/
def parent? (path : String) : Option String :=
  match (marks path).reverse with
  | [] => none
  | [_] => some (if isAbsolute path then "/" else "")
  | _ :: (_, last) :: _ => some (upTo path last)

/-- A name below a path. -/
def join (path name : String) : String :=
  if path.isEmpty then name
  else if endsInSlash path then path ++ name
  else path ++ "/" ++ name

/-- The path with its file name replaced, or with the name below it if it has none. -/
def withFileName (path name : String) : String :=
  match fileName? path, parent? path with
  | some _, some parent => join parent name
  | _, _ => join path name

/-- The path itself and the paths it lies in, up to each of the names before its last one. -/
def ancestors (path : String) : List String :=
  match (marks path).reverse with
  | [] => []
  | _ :: outer => path :: outer.map fun (_, last) => upTo path last

/-- A file name up to its last dot, unless that is its first character. -/
def stem (name : List Char) : List Char :=
  let kept := (name.reverse.dropWhile (· ≠ '.')).drop 1
  if kept.isEmpty then name else kept.reverse

/-- The path with another extension in the place of the one its file name has. A path
without a file name stays as it is, and one that has none left once the old extension is
gone ends there: it ends in `..`. -/
def withExtension (path extension : String) : String :=
  match fileName? path, (marks path).getLast? with
  | some name, some (_, last) =>
    let before := path.toList.take (last - name.toList.length)
    let stem := stem name.toList
    let nothingLeft := stem = ['.'] && last = path.toList.length
    String.ofList (before ++ stem ++ '.' :: if nothingLeft then [] else extension.toList)
  | _, _ => path

end Path

end Reserved
