import CodeNav.Workspace.Path
import CodeNav.Text.Utf8

/-! A disk as a value: directories and files with their bytes, and the operations that a program
performs on them, each with the ways in which it can fail. Some lie in what is on the disk. Others
do not, such as a full device or a file that may not be read; an operation takes them as an argument,
and without it fails only for what is on the disk. -/
namespace CodeNav
set_option autoImplicit false
open Text

inductive OsError where
  | notFound
  | notDirectory
  | isDirectory
  /-- The path holds a null character. -/
  | nullCharacter
  /-- Any other error, by its number and text. -/
  | other (code : Nat) (text : String)
  deriving DecidableEq, Repr

def OsError.message : OsError → String
  | notFound => "No such file or directory (os error 2)"
  | notDirectory => "Not a directory (os error 20)"
  | isDirectory => "Is a directory (os error 21)"
  | nullCharacter => "file name contained an unexpected NUL byte"
  | other code text => text ++ " (os error " ++ String.ofList (digits code) ++ ")"

inductive Entry where
  | file (bytes : Utf8.Bytes)
  | directory
  deriving DecidableEq

/-- A place on the disk: the names on the way from the root. -/
abbrev Place := List Path.Part

/-- What is stored where, and the directory that relative paths start from. The root is always a
directory. -/
structure Disk where
  current : Place
  entries : List (Place × Entry)

namespace Disk

def entry? (disk : Disk) (place : Place) : Option Entry :=
  if place = [] then some .directory else disk.entries.lookup place

def put (disk : Disk) (place : Place) (entry : Entry) : Disk :=
  { disk with entries := (place, entry) :: disk.entries.filter (·.1 != place) }

def erase (disk : Disk) (place : Place) : Disk :=
  { disk with entries := disk.entries.filter (·.1 != place) }

/-- Follows the parts of a path from a place. Every part must be met inside a directory; only the
last one may be missing. -/
def follow (disk : Disk) : Place → List Path.Part → Except OsError Place
  | place, [] => .ok place
  | place, part :: rest =>
    match disk.entry? place with
    | none => .error .notFound
    | some (.file _) => .error .notDirectory
    | some .directory =>
      if Path.isFiller part then disk.follow place rest
      else if part = Path.parent then disk.follow place.dropLast rest
      else disk.follow (place ++ [part]) rest

def locate (disk : Disk) (path : List Char) : Except OsError Place :=
  if path.contains (Char.ofNat 0) then .error .nullCharacter
  else if path.isEmpty then .error .notFound
  else if Path.isAbsolute path then disk.follow [] (Path.parts path)
  else disk.follow disk.current (Path.parts path)

/-! ## Files -/

def read (disk : Disk) (path : List Char) (fault : Option OsError := none) :
    Except OsError Utf8.Bytes := do
  match disk.entry? (← disk.locate path) with
  | some (.file bytes) => fault.elim (.ok bytes) .error
  | some .directory => .error .isDirectory
  | none => .error .notFound

def isPresent (disk : Disk) (path : List Char) : Bool :=
  match disk.locate path with
  | .ok place => (disk.entry? place).isSome
  | .error _ => false

/-- How a write stops on the way. -/
structure Halt where
  cause : OsError
  /-- The number of bytes that the file holds then; `none` if it could not be opened. -/
  stored : Option Nat
  deriving DecidableEq, Repr

/-- A write that failed, and the disk that it left. -/
structure FailedWrite where
  cause : OsError
  left : Disk

/-- Puts the bytes into a file, in place of those that it holds. A write that stops on the way leaves
the file with the first bytes only. -/
def write (disk : Disk) (path : List Char) (bytes : Utf8.Bytes) (halt : Option Halt := none) :
    Except FailedWrite Disk :=
  match disk.locate path with
  | .error cause => .error ⟨cause, disk⟩
  | .ok place =>
    if disk.entry? place = some .directory ∨ Path.endsInName path = false then
      .error ⟨.isDirectory, disk⟩
    else match halt with
      | none => .ok (disk.put place (.file bytes))
      | some ⟨cause, none⟩ => .error ⟨cause, disk⟩
      | some ⟨cause, some count⟩ => .error ⟨cause, disk.put place (.file (bytes.take count))⟩

def remove (disk : Disk) (path : List Char) (fault : Option OsError := none) :
    Except OsError Disk := do
  let place ← disk.locate path
  match disk.entry? place with
  | some (.file _) => fault.elim (.ok (disk.erase place)) .error
  | some .directory => .error .isDirectory
  | none => .error .notFound

/-- Moves a file, over another file if there is one. A closing slash asks for a directory. -/
def rename (disk : Disk) (old new : List Char) (fault : Option OsError := none) :
    Except OsError Disk := do
  let source ← disk.locate old
  let target ← disk.locate (trimEnd (· == '/') new)
  match disk.entry? source, disk.entry? target with
  | some (.file bytes), entry =>
    if new.getLast? = some '/' then .error .notDirectory
    else if entry = some .directory then .error .isDirectory
    else fault.elim (.ok ((disk.erase source).put target (.file bytes))) .error
  | some .directory, _ => .error .isDirectory
  | none, _ => .error .notFound

/-! ## Directories -/

/-- Makes the directories on the way along the parts, where nothing is yet. -/
def makeAlong (disk : Disk) (place : Place) : List Path.Part → Disk
  | [] => disk
  | part :: rest =>
    if Path.isFiller part then disk.makeAlong place rest
    else if part = Path.parent then disk.makeAlong place.dropLast rest
    else
      let next := place ++ [part]
      let grown := if (disk.entry? next).isSome then disk else disk.put next .directory
      grown.makeAlong next rest

/-- Makes a directory and those above it, where they are missing. -/
def makeDirectories (disk : Disk) (path : List Char) : Disk :=
  disk.makeAlong (if Path.isAbsolute path then [] else disk.current) (Path.parts path)

/-- The files below a directory, each by the names on the way from there. -/
def filesBelow (disk : Disk) (path : List Char) : List (List Path.Part) :=
  match disk.locate path with
  | .error _ => []
  | .ok place =>
    disk.entries.filterMap fun (spot, entry) =>
      match entry with
      | .directory => none
      | .file _ =>
        if place.isPrefixOf spot && place.length < spot.length then some (spot.drop place.length)
        else none

end Disk

end CodeNav
