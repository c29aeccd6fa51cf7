import CodeNav.Assist.Completion
import CodeNav.Assist.Signature
import CodeNav.Calls.History
import CodeNav.Navigation.Ranking
import CodeNav.Workspace.Admission
import CodeNav.Workspace.Store

/-! The service for one workspace: its settings, its table and stored index, and the history of its
searches, with the commands that an editor gives. Each command acts on the disk and the service as
they are, and leaves both as they are to be. -/
namespace CodeNav
set_option autoImplicit false
open Text

inductive ServiceError where
  | io (path : List Char) (cause : OsError)
  | index (cause : StoreError)
  | outside (path : List Char)
  deriving DecidableEq, Repr

def ServiceError.message : ServiceError → String
  | io path cause => ioMessage path cause
  | index cause => cause.message
  | outside path => String.ofList path ++ " is outside the workspace"

/-- What a search for a definition comes to. -/
inductive GotoOutcome where
  | noWord
  | noMatch (word : String) (arguments : Nat)
  | navigate (symbol : String) (location : Location)
  | choose (word : String) (candidates : List Record)
  deriving DecidableEq, Repr

/-- What a search for calls comes to. -/
inductive ReferencesOutcome where
  | noWord
  /-- Nothing at the position names a function with an owner. -/
  | noTarget (word : String)
  | noMatch (target : Target)
  | found (set : ReferenceSet)
  deriving DecidableEq, Repr

/-- A change of the disk from outside. -/
inductive FileEvent where
  | changed (path : List Char)
  | removed (path : List Char)
  deriving DecidableEq, Repr

structure Service where
  settings : Settings
  admission : Admission
  store : Store
  table : Table
  history : History

/-- A command's result, and the disk and service after it. -/
structure Step (α : Type) where
  result : α
  disk : Disk
  service : Service

namespace Record

/-- Where the declaration of a record starts. -/
def location (r : Record) : Location :=
  ⟨r.file, r.lineIndex, 0⟩

end Record

namespace Service

/-! ## Opening -/

def openWith (disk : Disk) (root : List Char) (settings : Settings) :
    Except ServiceError Service :=
  let store := Store.inWorkspace root settings.index.fileName
  match store.load disk with
  | .error cause => .error (.index cause)
  | .ok loaded => .ok
    { settings
      admission := Admission.ofSettings disk root settings.index
      store
      table := loaded.table
      history := {} }

/-- Opens a workspace with the settings stored in it. -/
def openStored (disk : Disk) (root : List Char) : Except ServiceError Service :=
  openWith disk root (Settings.loadOrDefault disk root)

def root (s : Service) : List Char :=
  s.admission.root

/-! ## Indexing -/

/-- Lets a store operation act on the table of the service. -/
def onShelf {α : Type} (s : Service) (disk : Disk) (op : Shelf → Except StoreError α × Shelf) :
    Step (Except ServiceError α) :=
  let (result, shelf) := op ⟨disk, s.table⟩
  ⟨result.mapError .index, shelf.disk, { s with table := shelf.table }⟩

/-- Makes the index anew; gives the events, and the number of records. -/
def rebuild (grammar : Grammar) (s : Service) (disk : Disk) :
    Step (List IndexEvent × Except ServiceError Nat) :=
  let rebuilt := s.store.rebuild grammar (s.admission.discover disk) ⟨disk, s.table⟩
  ⟨(rebuilt.events, rebuilt.result.mapError .index), rebuilt.shelf.disk,
    { s with table := rebuilt.shelf.table }⟩

def updateFile (grammar : Grammar) (s : Service) (disk : Disk) (file : String) :
    Step (Except ServiceError Nat) :=
  s.onShelf disk (s.store.update grammar file)

def removeFile (s : Service) (disk : Disk) (file : String) : Step (Except ServiceError Nat) :=
  s.onShelf disk (s.store.removeFile file)

/-- Brings the index up to date with one change; says whether the index changed. A path that is no
file of the index may have been a directory. -/
def handleEvent (grammar : Grammar) (s : Service) (disk : Disk) (event : FileEvent) :
    Step (Except ServiceError Bool) :=
  let unchanged : Step (Except ServiceError Bool) := ⟨.ok false, disk, s⟩
  let touched (step : Step (Except ServiceError Nat)) (changed : Nat → Bool) :
      Step (Except ServiceError Bool) :=
    ⟨step.result.map changed, step.disk, step.service⟩
  match event with
  | .changed path =>
    match s.admission.relative? path with
    | none => unchanged
    | some file =>
      if s.admission.admits file then touched (s.updateFile grammar disk file) fun _ => true
      else unchanged
  | .removed path =>
    match s.admission.relative? path with
    | none => unchanged
    | some file =>
      if s.admission.admits file then touched (s.removeFile disk file) fun _ => true
      else touched (s.onShelf disk (s.store.removeDirectory file)) fun removed => 0 < removed

/-! ## Documents -/

/-- The path below the root of a file given by an absolute or a relative path. -/
def relativePath (s : Service) (path : List Char) : Except ServiceError String :=
  if Path.isAbsolute path then
    match s.admission.relative? path with
    | some file => .ok file
    | none => .error (.outside path)
  else .ok (String.ofList (replaceChar '\\' '/' path))

def readDocument (s : Service) (disk : Disk) (file : String) : Except OsError Document :=
  (disk.read (s.admission.absolute file)).map fun bytes =>
    Document.ofText file (Utf8.decodeLossy bytes)

def openDocument (s : Service) (disk : Disk) (path : List Char) : Except ServiceError Document := do
  let file ← s.relativePath path
  (s.readDocument disk file).mapError (.io (s.admission.absolute file))

/-! ## Navigation -/

def resolve? (s : Service) (doc : Document) (pos : Position) : Option Resolution :=
  doc.resolve? pos s.settings.resolver.wellKnownNamespaces s.table

def decide (resolution : Option Resolution) : GotoOutcome :=
  match resolution with
  | none => .noWord
  | some r =>
    if r.candidates.isEmpty then .noMatch r.word r.arguments
    else match r.targetRecord? with
      | some record => .navigate record.name record.location
      | none => .choose r.word r.candidates

/-- Looks for the definition of the identifier at a position. An empty table is filled first. -/
def goto (grammar : Grammar) (s : Service) (disk : Disk) (doc : Document) (pos : Position) :
    Step (Except ServiceError GotoOutcome) :=
  if s.table.isEmpty then
    let rebuilt := s.rebuild grammar disk
    ⟨rebuilt.result.2.map fun _ => decide (rebuilt.service.resolve? doc pos),
      rebuilt.disk, rebuilt.service⟩
  else ⟨.ok (decide (s.resolve? doc pos)), disk, s⟩

/-- The function that calls are searched for at a position. -/
def target? (doc : Document) (pos : Position) : Option Target :=
  (doc.wordRange? pos).bind fun range =>
    (doc.declaredTarget? pos).or (doc.memberTarget? ⟨pos.line, range.start⟩ (doc.wordIn range))

/-- The calls of a function in the files of the workspace, with the document at hand in place of
its file. -/
def callsOf (s : Service) (disk : Disk) (target : Target) (doc : Document) (pos : Position)
    (files : List String) : List Reference :=
  CallSearch.inFiles (fun file => (s.readDocument disk file).toOption) target
    (some ⟨doc, doc.enclosingClass? pos.line⟩) files

/-- Searches for calls of the function at a position; gives the progress reports and the outcome.
A result that is not empty goes on top of the history. -/
def findReferences (s : Service) (disk : Disk) (doc : Document) (pos : Position) :
    List (Nat × Nat) × ReferencesOutcome × Service :=
  match doc.word? pos with
  | none => ([], .noWord, s)
  | some word =>
    match target? doc pos with
    | none => ([], .noTarget word, s)
    | some target =>
      let files := s.admission.discover disk
      let reports := CallSearch.progress files.length
      match s.callsOf disk target doc pos files with
      | [] => (reports, .noMatch target, s)
      | references =>
        let set : ReferenceSet := { target, references }
        (reports, .found set, { s with history := s.history.push set })

/-- Marks an entry of the latest search as chosen. -/
def selectReference (s : Service) (index : Nat) : Option Location × Service :=
  ((s.history.entry? index).map (·.location), { s with history := s.history.select index })

/-- Drops the latest search and gives the one before it. -/
def popReferences (s : Service) : Option ReferenceSet × Service :=
  (s.history.pop.top?, { s with history := s.history.pop })

end Service

end CodeNav
