import Reserved.Files.Disk
import Reserved.Table.Json

/-!
# Writing artifacts

An artifact is written to a file beside its path, which then takes the place of what was
there. A reader of the path therefore sees the old artifact or the new one and never a part
of one. If anything fails, the file beside the path is removed again.
-/

namespace Reserved

namespace Disk

/-- The path beside `path` that an artifact is written to first. -/
def sidePath (path : String) : String :=
  Path.withFileName path (((Path.fileName? path).getD "") ++ ".tmp")

/-- Writes `bytes` to `side`, then gives it the path `path`. -/
def replaceThrough (side path : String) (bytes : List UInt8) : DiskAction Unit := do
  writeFile side bytes
  rename side path

/-- Writes an artifact, and the directories it lies in where they are missing. -/
def publish (path text : String) : DiskAction Unit := do
  match Path.parent? path with
  | some parent => makeDirectories (Path.ancestors parent)
  | none => pure ()
  let side := sidePath path
  try replaceThrough side path text.utf8
  catch e =>
    removeIfPresent side
    throw e

/-- Writes a table as JSON, in place. -/
def saveTable (path : String) (t : HashTable) : DiskAction Unit :=
  writeFile path (TableJson.render t).utf8

end Disk

end Reserved
