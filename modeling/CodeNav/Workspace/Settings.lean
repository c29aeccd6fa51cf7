import CodeNav.Json.Parser
import CodeNav.Workspace.Disk

/-! Settings of a workspace, kept as JSON in a file below its root. What a file leaves out has its
default value. -/
namespace CodeNav
set_option autoImplicit false
open Text

/-! ## Defaults -/

def defaultIndexFile : String := "symbols.index"

def defaultExtensions : List String := ["js", "ts"]

def defaultExcludeDirs : List String :=
  ["node_modules", "temp", "build", "release", "Release", "debug", "Debug", "simulator"]

def defaultExcludeFiles : List String := ["*.d.ts", "*.min.js", "*.asm.js"]

def defaultNamespaces : List String := ["ccsp"]

def defaultDebounce : UInt64 := 300

/-- What is indexed, and where the index is kept. -/
structure IndexSettings where
  fileName : String := defaultIndexFile
  extensions : List String := defaultExtensions
  excludeDirs : List String := defaultExcludeDirs
  /-- Wildcards for file names. -/
  excludeFiles : List String := defaultExcludeFiles
  respectIgnoreFile : Bool := true
  deriving DecidableEq, Repr

structure ResolverSettings where
  wellKnownNamespaces : List String := defaultNamespaces
  deriving DecidableEq, Repr

structure WatcherSettings where
  /-- Milliseconds, a number of 64 bits. -/
  debounce : UInt64 := defaultDebounce
  deriving DecidableEq, Repr

structure Settings where
  index : IndexSettings := {}
  resolver : ResolverSettings := {}
  watcher : WatcherSettings := {}
  deriving DecidableEq, Repr

/-! ## As JSON -/

/-- A value that may be left out. -/
def orDefault {α : Type} (read : Json → Option α) (default : α) : Option Json → Option α
  | none => some default
  | some j => read j

namespace IndexSettings

def keys : List String :=
  ["file_name", "extensions", "exclude_dirs", "exclude_files", "respect_gitignore"]

def toJson (s : IndexSettings) : Json :=
  .obj [("file_name", .str s.fileName), ("extensions", .strings s.extensions),
    ("exclude_dirs", .strings s.excludeDirs), ("exclude_files", .strings s.excludeFiles),
    ("respect_gitignore", .bool s.respectIgnoreFile)]

def ofJson? (j : Json) : Option IndexSettings := do
  match ← j.structFields? keys with
  | [fileName, extensions, excludeDirs, excludeFiles, respect] =>
    return {
      fileName := ← orDefault Json.str? defaultIndexFile fileName
      extensions := ← orDefault Json.strings? defaultExtensions extensions
      excludeDirs := ← orDefault Json.strings? defaultExcludeDirs excludeDirs
      excludeFiles := ← orDefault Json.strings? defaultExcludeFiles excludeFiles
      respectIgnoreFile := ← orDefault Json.bool? true respect }
  | _ => none

end IndexSettings

namespace ResolverSettings

def toJson (s : ResolverSettings) : Json :=
  .obj [("well_known_namespaces", .strings s.wellKnownNamespaces)]

def ofJson? (j : Json) : Option ResolverSettings := do
  match ← j.structFields? ["well_known_namespaces"] with
  | [namespaces] =>
    return ⟨← orDefault Json.strings? defaultNamespaces namespaces⟩
  | _ => none

end ResolverSettings

namespace WatcherSettings

def toJson (s : WatcherSettings) : Json :=
  .obj [("debounce_ms", .nat s.debounce.toNat)]

def ofJson? (j : Json) : Option WatcherSettings := do
  match ← j.structFields? ["debounce_ms"] with
  | [debounce] =>
    return ⟨← orDefault (fun j => j.word64?.map UInt64.ofNat) defaultDebounce debounce⟩
  | _ => none

end WatcherSettings

namespace Settings

def toJson (s : Settings) : Json :=
  .obj [("index", s.index.toJson), ("resolver", s.resolver.toJson), ("watcher", s.watcher.toJson)]

def ofJson? (j : Json) : Option Settings := do
  match ← j.structFields? ["index", "resolver", "watcher"] with
  | [index, resolver, watcher] =>
    return {
      index := ← orDefault IndexSettings.ofJson? {} index
      resolver := ← orDefault ResolverSettings.ofJson? {} resolver
      watcher := ← orDefault WatcherSettings.ofJson? {} watcher }
  | _ => none

def parse? (text : List Char) : Option Settings :=
  (Json.parse? text).bind ofJson?

/-! ## On the disk -/

inductive Fault where
  | access (path : List Char) (cause : OsError)
  /-- The file is not UTF-8. -/
  | encoding (path : List Char)
  | malformed
  deriving DecidableEq, Repr

def directory (root : List Char) : List Char :=
  Path.join root ".scriptnav".toList

def filePath (root : List Char) : List Char :=
  Path.join (directory root) "settings.json".toList

/-- The settings that are stored; none when there is no file. -/
def load (disk : Disk) (root : List Char) : Except Fault (Option Settings) :=
  if disk.isPresent (filePath root) then
    match disk.read (filePath root) with
    | .error cause => .error (.access (filePath root) cause)
    | .ok bytes =>
      match Utf8.decode? bytes with
      | none => .error (.encoding (filePath root))
      | some text =>
        match parse? text with
        | some settings => .ok (some settings)
        | none => .error .malformed
  else .ok none

/-- The settings that hold: the stored ones, or the defaults when there are none to be read. -/
def loadOrDefault (disk : Disk) (root : List Char) : Settings :=
  match load disk root with
  | .ok (some settings) => settings
  | _ => {}

def save (disk : Disk) (root : List Char) (settings : Settings) : Except Fault Disk :=
  let prepared := disk.makeDirectories (directory root)
  match prepared.write (filePath root) (Utf8.encode settings.toJson.pretty) with
  | .ok written => .ok written
  | .error failed => .error (.access (filePath root) failed.cause)

end Settings

end CodeNav
