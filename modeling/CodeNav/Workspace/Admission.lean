import CodeNav.Workspace.Ignore
import CodeNav.Workspace.Settings
import CodeNav.Workspace.Wildcard

/-! Admission to the index: which files of a workspace are indexed. The same rule is asked about a
single path and, while the files of the workspace are listed, about directories too, so that whole
directories are passed over. -/
namespace CodeNav
set_option autoImplicit false
open Text

structure Admission where
  root : List Char
  /-- Extensions in lower case, without a dot. -/
  extensions : List (List Char)
  excludeDirs : List String
  excludeFiles : List Wildcard
  ignoreRules : List Ignore.Rule

namespace Admission

/-- The rules of the ignore file at the root; none when it is missing or invalid. -/
def rulesAt (disk : Disk) (root : List Char) : List Ignore.Rule :=
  match disk.read (Path.join root ".gitignore".toList) with
  | .ok bytes => (Ignore.readRules? bytes).getD []
  | .error _ => []

/-- Wildcards that are invalid are left out. -/
def ofSettings (disk : Disk) (root : List Char) (settings : IndexSettings) : Admission :=
  { root
    extensions := settings.extensions.map fun e => lowerAll (trimStart (· == '.') e.toList)
    excludeDirs := settings.excludeDirs
    excludeFiles := settings.excludeFiles.filterMap Wildcard.ofText?
    ignoreRules := if settings.respectIgnoreFile then rulesAt disk root else [] }

/-! ## Relative paths -/

/-- The path below the root, with slashes only. -/
def relative? (a : Admission) (path : List Char) : Option String :=
  (Path.below? a.root path).map fun rest => String.ofList (replaceChar '\\' '/' rest)

def absolute (a : Admission) (rel : String) : List Char :=
  Path.join a.root rel.toList

/-! ## Ignored paths -/

/-- The root and a path below it as the rules see them: neither starts with a dot and a slash, and
a path that repeats the root is taken without it. -/
def ruleText (root path : List Char) : List Char :=
  let bare := fun (text : List Char) => (dropPrefix? ['.', '/'] text).getD text
  let text := bare path
  if bare root = ['.'] || !text.contains '/' then text
  else match dropPrefix? (bare root) text with
    | some rest => (dropPrefix? ['/'] rest).getD rest
    | none => text

/-- Do the rules ignore a path, absolute or relative to the root? Nothing outside is ignored. -/
def isIgnored (a : Admission) (path : List Char) (isDirectory : Bool) : Bool :=
  match Path.below? a.root (Path.join a.root path) with
  | none => false
  | some rest => Ignore.ignores a.ignoreRules (Utf8.encode (ruleText a.root rest)) isDirectory

/-! ## Files -/

def isExcludedDir (a : Admission) (name : Path.Part) : Bool :=
  name.head? == some '.' || a.excludeDirs.any (·.toList == name)

def hasExtension (a : Admission) (name : Path.Part) : Bool :=
  match splitLast? '.' name with
  | some (_, extension) => a.extensions.contains (lowerAll extension)
  | none => false

/-- Does a relative path belong in the index? -/
def admits (a : Admission) (rel : String) : Bool :=
  let names := Path.parts rel.toList
  let name := names.getLastD []
  !hasChar ',' rel
    && a.hasExtension name
    && !names.dropLast.any a.isExcludedDir
    && !a.excludeFiles.any (·.accepts name)
    && !a.isIgnored rel.toList false

/-- Is a directory, given by the names from the root to it, passed over? -/
def passesOver (a : Admission) (names : List Path.Part) : Bool :=
  names.getLast?.any a.isExcludedDir ||
    a.isIgnored (Path.join a.root (joinWith '/' names)) true

/-- The directories on the way to a file, each by the names from the root to it. -/
def directoriesAbove (names : List Path.Part) : List (List Path.Part) :=
  (List.range (names.length - 1)).map fun n => names.take (n + 1)

/-- The files that a listing of the workspace reaches and admits, in ascending order. -/
def discover (a : Admission) (disk : Disk) : List String :=
  let reached := (disk.filesBelow a.root).filter fun names =>
    !(directoriesAbove names).any a.passesOver
  let relative := reached.map fun names =>
    String.ofList (replaceChar '\\' '/' (joinWith '/' names))
  (relative.filter a.admits).mergeSort fun x y => decide (x ≤ y)

end Admission

end CodeNav
