import CodeNav.Wire.Request
import CodeNav.Workspace.Service

/-! Responses and their form as JSON. -/
namespace CodeNav
set_option autoImplicit false

/-! ## Values inside responses -/

def Location.toJson (l : Location) : Json :=
  .obj [("file_path", .str l.file), ("line", .nat l.line), ("character", .nat l.character)]

def Parameter.toJson (p : Parameter) : Json :=
  .obj (("name", .str p.name) :: (p.type.map fun type => ("type", Json.str type)).toList)

def Record.toJson (r : Record) : Json :=
  .obj [("filePath", .str r.file), ("symbolName", .str r.name), ("lineNum", .nat r.line.toNat),
    ("paramCount", .nat r.arity.toNat), ("paramInfo", .arr (r.params.map Parameter.toJson))]

def Target.toJson (t : Target) : Json :=
  .obj [("namespace", .str t.owner), ("function_name", .str t.function)]

def Reference.toJson (r : Reference) : Json :=
  .obj [("location", r.location.toJson), ("preview", .str r.preview)]

def ReferenceSet.toJson (s : ReferenceSet) : Json :=
  .obj [("target", s.target.toJson), ("references", .arr (s.references.map Reference.toJson)),
    ("last_selected", .ofOption (s.lastSelected.map .nat))]

def GotoOutcome.toJson : GotoOutcome → Json
  | noWord => .obj [("outcome", .str "no_word")]
  | noMatch word arguments =>
    .obj [("outcome", .str "no_match"), ("word", .str word), ("param_count", .nat arguments)]
  | navigate symbol location =>
    .obj [("outcome", .str "navigate"), ("symbol", .str symbol), ("location", location.toJson)]
  | choose word candidates =>
    .obj [("outcome", .str "choose"), ("word", .str word),
      ("candidates", .arr (candidates.map Record.toJson))]

def ReferencesOutcome.toJson : ReferencesOutcome → Json
  | noWord => .obj [("outcome", .str "no_word")]
  | noTarget word => .obj [("outcome", .str "no_target"), ("word", .str word)]
  | noMatch target => .obj [("outcome", .str "no_match"), ("target", target.toJson)]
  | found set => .obj [("outcome", .str "found"), ("set", set.toJson)]

def Completion.Kind.name : Completion.Kind → String
  | method => "method"
  | namespaced => "namespace"

def Completion.toJson (c : Completion) : Json :=
  .obj ([("label", .str c.label), ("kind", .str c.kind.name)]
    ++ (c.detail.map fun detail => ("detail", Json.str detail)).toList)

def Signature.toJson (s : Signature) : Json :=
  .obj [("label", .str s.label), ("parameters", .strings s.parameters),
    ("active_parameter", .ofOption (s.active.map .nat))]

/-! ## Responses -/

inductive Response where
  | indexProgress (completed total : Nat)
  | indexFileFailed (file error : String)
  /-- The time it took is not measured. -/
  | indexCompleted (files symbols : Nat)
  | definition (outcome : GotoOutcome)
  | references (outcome : ReferencesOutcome)
  | referencesProgress (completed total : Nat)
  /-- Nothing when there has been no search. -/
  | lastReferences (set : Option ReferenceSet)
  | selected (location : Option Location)
  | completions (items : List Completion)
  | signature (help : Option Signature)
  | failure (message : String)
  | shuttingDown
  deriving DecidableEq, Repr

namespace Response

/-- The start and the end of single files are not worth a response. -/
def ofEvent? : IndexEvent → Option Response
  | .started _ | .completed _ _ => none
  | .failed file error => some (.indexFileFailed file error)
  | .progress completed total => some (.indexProgress completed total)
  | .done files symbols => some (.indexCompleted files symbols)

def kindName : Response → String
  | indexProgress _ _ => "index_progress"
  | indexFileFailed _ _ => "index_file_failed"
  | indexCompleted _ _ => "index_completed"
  | definition _ => "definition"
  | references _ => "references"
  | referencesProgress _ _ => "references_progress"
  | lastReferences _ => "last_references"
  | selected _ => "selected"
  | completions _ => "completions"
  | signature _ => "signature"
  | failure _ => "error"
  | shuttingDown => "shutting_down"

def payload? : Response → Option Json
  | indexProgress completed total | referencesProgress completed total =>
    some (.obj [("completed", .nat completed), ("total", .nat total)])
  | indexFileFailed file cause => some (.obj [("path", .str file), ("error", .str cause)])
  | indexCompleted files symbols =>
    some (.obj [("files", .nat files), ("symbols", .nat symbols), ("duration_ms", .nat 0)])
  | definition outcome => some outcome.toJson
  | references outcome => some outcome.toJson
  | lastReferences set => some (.ofOption (set.map ReferenceSet.toJson))
  | selected location => some (.ofOption (location.map Location.toJson))
  | completions items => some (.arr (items.map Completion.toJson))
  | signature help => some (.ofOption (help.map Signature.toJson))
  | failure message => some (.obj [("message", .str message)])
  | shuttingDown => none

def toJson (r : Response) : Json :=
  .obj (("type", .str r.kindName) :: (r.payload?.map fun payload => ("payload", payload)).toList)

end Response

end CodeNav
