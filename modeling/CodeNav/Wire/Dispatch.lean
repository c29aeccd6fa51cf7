import CodeNav.Wire.Response

/-! Running requests. A request is carried out to its end and answered by any number of reports and
one last response. -/
namespace CodeNav
set_option autoImplicit false

/-- The responses to a request in order, whether to go on, and the disk and service afterwards. -/
structure Dispatch where
  responses : List Response
  goOn : Bool
  disk : Disk
  service : Service

namespace Service

/-- The document of a cursor: its text, or what its file holds. -/
def documentOf (s : Service) (disk : Disk) (cursor : Cursor) : Except ServiceError Document :=
  match cursor.text with
  | some text => (s.relativePath cursor.file.toList).map fun file => Document.ofText file text.toList
  | none => s.openDocument disk cursor.file.toList

/-- Answers a request about a document that may not be there. -/
def onDocument (s : Service) (disk : Disk) (cursor : Cursor) (answer : Document → Dispatch) :
    Dispatch :=
  match s.documentOf disk cursor with
  | .ok doc => answer doc
  | .error cause => ⟨[.failure cause.message], true, disk, s⟩

def dispatch (grammar : Grammar) (s : Service) (disk : Disk) (request : Request) : Dispatch :=
  match request with
  | .rebuildIndex =>
    let step := s.rebuild grammar disk
    let reports := step.result.1.filterMap Response.ofEvent?
    let failure := match step.result.2 with
      | .ok _ => []
      | .error cause => [.failure cause.message]
    ⟨reports ++ failure, true, step.disk, step.service⟩
  | .gotoDefinition cursor =>
    s.onDocument disk cursor fun doc =>
      let step := s.goto grammar disk doc cursor.position
      let answer := match step.result with
        | .ok outcome => .definition outcome
        | .error cause => .failure cause.message
      ⟨[answer], true, step.disk, step.service⟩
  | .findReferences cursor =>
    s.onDocument disk cursor fun doc =>
      let (reports, outcome, after) := s.findReferences disk doc cursor.position
      ⟨reports.map (fun (completed, total) => .referencesProgress completed total)
        ++ [.references outcome], true, disk, after⟩
  | .showLastReferences => ⟨[.lastReferences s.history.top?], true, disk, s⟩
  | .selectReference index =>
    let (location, after) := s.selectReference index
    ⟨[.selected location], true, disk, after⟩
  | .popReferences =>
    let (set, after) := s.popReferences
    ⟨[.lastReferences set], true, disk, after⟩
  | .complete cursor =>
    s.onDocument disk cursor fun doc =>
      ⟨[.completions (doc.completions cursor.position s.table)], true, disk, s⟩
  | .signatureHelp cursor =>
    s.onDocument disk cursor fun doc =>
      ⟨[.signature (doc.signature? cursor.position s.table)], true, disk, s⟩
  | .shutdown => ⟨[.shuttingDown], false, disk, s⟩

/-- Answers one line. A blank line is passed over, and one that is no request gets an error. -/
def dispatchLine (grammar : Grammar) (s : Service) (disk : Disk) (line : List Char) : Dispatch :=
  if Text.isAllBlank line then ⟨[], true, disk, s⟩
  else match Request.parse line with
    | .ok request => s.dispatch grammar disk request
    | .error fault => ⟨[.failure ("invalid request: " ++ fault.message)], true, disk, s⟩

/-- Answers lines until one asks to stop, or to their end. -/
def dispatchLines (grammar : Grammar) (s : Service) (disk : Disk) : List (List Char) → Dispatch
  | [] => ⟨[], true, disk, s⟩
  | line :: lines =>
    let here := s.dispatchLine grammar disk line
    if here.goOn then
      let later := here.service.dispatchLines grammar here.disk lines
      { later with responses := here.responses ++ later.responses }
    else here

end Service

end CodeNav
