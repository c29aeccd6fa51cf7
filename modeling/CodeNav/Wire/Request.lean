import CodeNav.Json.Parser
import CodeNav.Document.Basic

/-! Requests, and their form as JSON: an object with the kind under `type` and what it is about under
`payload`, or an array of these two. -/
namespace CodeNav
set_option autoImplicit false

/-- A cursor in a file. The text is that of an unsaved buffer; without it, the file is read. -/
structure Cursor where
  file : String
  position : Position
  text : Option String
  deriving DecidableEq, Repr

inductive Request where
  | rebuildIndex
  | gotoDefinition (cursor : Cursor)
  | findReferences (cursor : Cursor)
  | showLastReferences
  | selectReference (index : Nat)
  | popReferences
  | complete (cursor : Cursor)
  | signatureHelp (cursor : Cursor)
  | shutdown
  deriving DecidableEq, Repr

/-! ## Writing -/

def Position.toJson (p : Position) : Json :=
  .obj [("line", .nat p.line), ("character", .nat p.character)]

def Cursor.toJson (c : Cursor) : Json :=
  .obj ([("file", .str c.file), ("position", c.position.toJson)]
    ++ (c.text.map fun text => ("text", Json.str text)).toList)

namespace Request

def kindName : Request → String
  | rebuildIndex => "rebuild_index"
  | gotoDefinition _ => "goto_definition"
  | findReferences _ => "find_references"
  | showLastReferences => "show_last_references"
  | selectReference _ => "select_reference"
  | popReferences => "pop_references"
  | complete _ => "complete"
  | signatureHelp _ => "signature_help"
  | shutdown => "shutdown"

def payload? : Request → Option Json
  | gotoDefinition cursor | findReferences cursor | complete cursor | signatureHelp cursor =>
    some cursor.toJson
  | selectReference index => some (.obj [("index", .nat index)])
  | _ => none

def toJson (r : Request) : Json :=
  .obj (("type", .str r.kindName) :: (r.payload?.map fun payload => ("payload", payload)).toList)

end Request

/-! ## Reading -/

def Position.ofJson? (j : Json) : Option Position := do
  match ← j.structFields? ["line", "character"] with
  | [some line, some character] => return ⟨← line.word64?, ← character.word64?⟩
  | _ => none

/-- A text that may be missing or null. -/
def optionalText? : Option Json → Option (Option String)
  | none | some .null => some none
  | some j => j.str?.map some

def Cursor.ofJson? (j : Json) : Option Cursor := do
  match ← j.structFields? ["file", "position", "text"] with
  | [some file, some position, text] =>
    return ⟨← file.str?, ← Position.ofJson? position, ← optionalText? text⟩
  | _ => none

namespace Request

/-- The index of a selection, which is always written as an object. -/
def index? (j : Json) : Option Nat := do
  match ← j.namedFields? ["index"] with
  | [some index] => index.word64?
  | _ => none

/-- The name of a kind, as a text or as the only key of an object that holds null. -/
def kindName? : Json → Option String
  | .str name => some name
  | .obj [(name, .null)] => some name
  | _ => none

/-- A request without a payload accepts none, or null. -/
def plain? (request : Request) : Option Json → Option Request
  | none | some .null => some request
  | some _ => none

def withCursor? (make : Cursor → Request) (payload : Option Json) : Option Request :=
  (payload.bind Cursor.ofJson?).map make

def ofParts? (kind : String) (payload : Option Json) : Option Request :=
  match kind with
  | "rebuild_index" => plain? .rebuildIndex payload
  | "goto_definition" => withCursor? .gotoDefinition payload
  | "find_references" => withCursor? .findReferences payload
  | "show_last_references" => plain? .showLastReferences payload
  | "select_reference" => (payload.bind index?).map .selectReference
  | "pop_references" => plain? .popReferences payload
  | "complete" => withCursor? .complete payload
  | "signature_help" => withCursor? .signatureHelp payload
  | "shutdown" => plain? .shutdown payload
  | _ => none

/-- How deeply a payload may nest that comes before its kind. -/
def aheadDepth : Nat := 126

/-- A payload that comes before its kind is put aside, so all of it must be readable; behind the
kind, only what the kind asks for. -/
def isInOrder : List (String × Json) → Bool
  | [] => true
  | (key, value) :: fields =>
    if key = "type" then true
    else if key = "payload" then value.isReadable aheadDepth
    else isInOrder fields

def ofJson? (j : Json) : Option Request :=
  match j with
  | .arr [kind, payload] => do ofParts? (← kindName? kind) (some payload)
  | .obj fields => do
    match ← j.namedFields? ["type", "payload"] with
    | [some kind, payload] =>
      if isInOrder fields then ofParts? (← kindName? kind) payload else none
    | _ => none
  | _ => none

/-- Why a line is no request. -/
inductive Fault where
  | malformed
  | unknown
  deriving DecidableEq, Repr

def Fault.message : Fault → String
  | malformed => "the line is not JSON"
  | unknown => "the value is not a request"

def parse (text : List Char) : Except Fault Request :=
  match Json.parse? text with
  | none => .error .malformed
  | some j =>
    match ofJson? j with
    | some request => .ok request
    | none => .error .unknown

end Request

end CodeNav
