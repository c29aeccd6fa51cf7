import CodeNav.Source.Grammar
import CodeNav.Source.Listing
import CodeNav.Workspace.Disk

/-! Between a disk as a value and the disk of a machine: where a path leads before anything is known
of the disk, which trees a disk holds, and what a run has changed. -/
namespace CodeNav
set_option autoImplicit false
open Text

/-! ## Places -/

namespace Place

def toPath (place : Place) : List Char :=
  '/' :: joinWith '/' place

/-- Goes one part of a path on from a place. -/
def step (place : Place) (part : Path.Part) : Place :=
  if Path.isFiller part then place
  else if part = Path.parent then place.dropLast
  else place ++ [part]

/-- Where a path leads from a place, by its parts alone. -/
def along (place : Place) (path : List Char) : Place :=
  (Path.parts path).foldl step (if Path.isAbsolute path then [] else place)

/-- Where the listing of the tree of a source file is kept: beside it, under a longer name. -/
def listing (place : Place) : Place :=
  place.dropLast ++ [place.getLastD [] ++ ".tree.json".toList]

end Place

namespace Disk

/-! ## Trees -/

def sample? (disk : Disk) (place : Place) (bytes : Utf8.Bytes) : Option Sample := do
  let dialect ← Dialect.ofPath? (String.ofList (place.getLastD []))
  match disk.entry? place.listing with
  | some (.file stored) =>
    let tree ← (Json.parse? (Utf8.decodeLossy stored)).bind Node.ofJson?
    return ⟨dialect, Utf8.decodeLossy bytes, tree⟩
  | _ => none

/-- The source files that have a tree beside them. -/
def samples (disk : Disk) : List Sample :=
  disk.entries.filterMap fun (place, entry) =>
    match entry with
    | .file bytes => disk.sample? place bytes
    | .directory => none

/-! ## Changes -/

/-- The files that are in the first disk and not in the second. -/
def removedFrom (before after : Disk) : List Place :=
  before.entries.filterMap fun (place, entry) =>
    match entry, after.entry? place with
    | .file _, none => some place
    | _, _ => none

/-- The files that the second disk holds and the first one does not, or not with these bytes. -/
def writtenSince (before after : Disk) : List (Place × Utf8.Bytes) :=
  after.entries.filterMap fun (place, entry) =>
    match entry with
    | .file bytes => if before.entry? place = some entry then none else some (place, bytes)
    | .directory => none

end Disk

end CodeNav
