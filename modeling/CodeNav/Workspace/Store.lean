import CodeNav.Source.Extract
import CodeNav.Source.Grammar
import CodeNav.Symbol.Index
import CodeNav.Workspace.Disk

/-! The stored index of a workspace, and the operations that keep it in step with the table.

An operation acts on the disk and the table together. It may change both and still fail: the table
is changed first, the index is written last, through a temporary file that takes its place. Each of
its steps on the disk can fail for what is there, and for a fault that the operation is given. -/
namespace CodeNav
set_option autoImplicit false
open Text

inductive StoreError where
  | io (path : List Char) (cause : OsError)
  | unsupported (file : String)
  /-- The parser gave no tree. -/
  | unparsed
  deriving DecidableEq, Repr

def ioMessage (path : List Char) (cause : OsError) : String :=
  "IO error on " ++ String.ofList path ++ ": " ++ cause.message

def StoreError.message : StoreError → String
  | io path cause => ioMessage path cause
  | unsupported file => "Unsupported file type: " ++ file
  | unparsed => "Failed to parse code"

/-- What a rebuild reports while it runs. -/
inductive IndexEvent where
  | started (file : String)
  | completed (file : String) (symbols : Nat)
  | failed (file : String) (error : String)
  | progress (completed total : Nat)
  | done (files symbols : Nat)
  deriving DecidableEq, Repr

/-- The workspace root and the path of its index. -/
structure Store where
  root : List Char
  indexPath : List Char
  deriving DecidableEq, Repr

/-- What store operations act on. -/
structure Shelf where
  disk : Disk
  table : Table

/-- The steps of an operation that fail although nothing on the disk is in their way. -/
structure Store.Faults where
  /-- The index is not seen where it is looked for. -/
  unseen : Bool := false
  remove : Option OsError := none
  write : Option Disk.Halt := none
  rename : Option OsError := none
  /-- What keeps the file at a path from being read. -/
  read : List Char → Option OsError := fun _ => none

namespace Store

def inWorkspace (root : List Char) (fileName : String) : Store :=
  ⟨root, Path.join root fileName.toList⟩

def temporaryPath (store : Store) : List Char :=
  Path.withExtension store.indexPath "index.tmp".toList

/-! ## Reading -/

/-- The stored index; an empty one when there is none. -/
def load (store : Store) (disk : Disk) : Except StoreError LoadedIndex :=
  if disk.isPresent store.indexPath then
    match disk.read store.indexPath with
    | .ok bytes => .ok (LoadedIndex.ofBytes bytes)
    | .error cause => .error (.io store.indexPath cause)
  else .ok {}

/-- The dialect of a file that the index can hold: its path has no comma. -/
def dialect? (file : String) : Option Dialect :=
  if hasChar ',' file then none else Dialect.ofPath? file

/-- The records of a file as it is on the disk. -/
def extract (grammar : Grammar) (store : Store) (disk : Disk) (file : String)
    (faults : Faults := {}) : Except StoreError (List Record) :=
  match dialect? file with
  | none => .error (.unsupported file)
  | some dialect =>
    let path := Path.join store.root file.toList
    match disk.read path (faults.read path) with
    | .error cause => .error (.io path cause)
    | .ok bytes =>
      let text := Utf8.decodeLossy bytes
      match grammar dialect text with
      | none => .error .unparsed
      | some tree => .ok ((Source.ofChars text).records file tree)

/-! ## Writing -/

/-- Replaces the stored index by the lines of a table. -/
def write (store : Store) (table : Table) (disk : Disk) (faults : Faults := {}) :
    Except StoreError Unit × Disk :=
  match disk.write store.temporaryPath (Utf8.encode table.toText) faults.write with
  | .error failed => (.error (.io store.temporaryPath failed.cause), failed.left)
  | .ok written =>
    match written.rename store.temporaryPath store.indexPath faults.rename with
    | .error cause => (.error (.io store.indexPath cause), written)
    | .ok renamed => (.ok (), renamed)

/-- Writes the table of a shelf, and gives `value` when that succeeds. -/
def keep {α : Type} (store : Store) (shelf : Shelf) (value : α) (faults : Faults := {}) :
    Except StoreError α × Shelf :=
  let (result, disk) := store.write shelf.table shelf.disk faults
  (result.map fun _ => value, { shelf with disk })

/-- Puts the records of a file in place of those that the table has for it. A file that cannot be
read has no records afterwards, and that is written before the operation fails. -/
def update (grammar : Grammar) (store : Store) (file : String) (shelf : Shelf)
    (faults : Faults := {}) : Except StoreError Nat × Shelf :=
  let others := shelf.table.withoutFile file
  match store.extract grammar shelf.disk file faults with
  | .ok found => store.keep { shelf with table := others ++ found } found.length faults
  | .error cause =>
    let (written, after) := store.keep { shelf with table := others } 0 faults
    (written.bind fun _ => .error cause, after)

def removeFile (store : Store) (file : String) (shelf : Shelf) (faults : Faults := {}) :
    Except StoreError Nat × Shelf :=
  let others := shelf.table.withoutFile file
  store.keep { shelf with table := others } (shelf.table.length - others.length) faults

/-- Drops the records of all files below a directory. The index is written only if there are any. -/
def removeDirectory (store : Store) (dir : String) (shelf : Shelf) (faults : Faults := {}) :
    Except StoreError Nat × Shelf :=
  let others := shelf.table.withoutDirectory dir
  let removed := shelf.table.length - others.length
  if removed = 0 then (.ok 0, { shelf with table := others })
  else store.keep { shelf with table := others } removed faults

/-! ## Rebuilding -/

/-- A file and what was extracted from it. -/
abbrev Extraction := String × Except StoreError (List Record)

def extractAll (grammar : Grammar) (store : Store) (disk : Disk) (files : List String)
    (faults : Faults := {}) : List Extraction :=
  files.map fun file => (file, store.extract grammar disk file faults)

def allRecords (extractions : List Extraction) : List Record :=
  extractions.flatMap fun x => x.2.toOption.getD []

/-- How many files could be read. -/
def readCount (extractions : List Extraction) : Nat :=
  extractions.countP (·.2.isOk)

def outcomeEvent (file : String) : Except StoreError (List Record) → IndexEvent
  | .ok found => .completed file found.length
  | .error cause => .failed file cause.message

/-- The events of the files, given how many came before them. -/
def fileEvents (total : Nat) : Nat → List Extraction → List IndexEvent
  | _, [] => []
  | before, (file, outcome) :: rest =>
    [.started file, outcomeEvent file outcome, .progress (before + 1) total]
      ++ fileEvents total (before + 1) rest

/-- Removes the stored index, if one is seen. -/
def clear (store : Store) (disk : Disk) (faults : Faults := {}) : Except StoreError Disk :=
  if disk.isPresent store.indexPath && !faults.unseen then
    match disk.remove store.indexPath faults.remove with
    | .ok cleared => .ok cleared
    | .error cause => .error (.io store.indexPath cause)
  else .ok disk

/-- What a rebuild leaves: the events in order, the number of records or the error, and the shelf. -/
structure Rebuild where
  events : List IndexEvent
  result : Except StoreError Nat
  shelf : Shelf

/-- Makes the table and the index anew from the given files. The old index goes first; files that
cannot be read are reported and passed over. -/
def rebuild (grammar : Grammar) (store : Store) (files : List String) (shelf : Shelf)
    (faults : Faults := {}) : Rebuild :=
  match store.clear shelf.disk faults with
  | .error cause => ⟨[], .error cause, shelf⟩
  | .ok cleared =>
    let extractions := store.extractAll grammar cleared files faults
    let records := allRecords extractions
    let events := fileEvents files.length 0 extractions
    let (result, after) := store.keep ⟨cleared, records⟩ records.length faults
    match result with
    | .ok count => ⟨events ++ [.done (readCount extractions) count], .ok count, after⟩
    | .error cause => ⟨events, .error cause, after⟩

end Store

end CodeNav
