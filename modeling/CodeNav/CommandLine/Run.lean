import CodeNav.CommandLine.Arguments
import CodeNav.Wire.Dispatch

/-! One run of the program: from its arguments, its input and the disk to its output, its exit code
and the disk it leaves. -/
namespace CodeNav.CommandLine
set_option autoImplicit false
open Text

structure Output where
  code : UInt8 := 0
  stdout : List Char := []
  stderr : List Char := []
  disk : Disk

def line (text : List Char) : List Char :=
  text ++ ['\n']

def fail (message : String) (disk : Disk) : Output :=
  { code := 1, stderr := line ("Error: " ++ message).toList, disk }

def printJson (j : Json) (disk : Disk) : Output :=
  { stdout := line j.pretty, disk }

def Spot.position (s : Spot) : Position :=
  ⟨s.line - 1, s.column - 1⟩

/-- Does something with the document of a spot, if it can be opened. -/
def onSpot (service : Service) (disk : Disk) (spot : Spot) (act : Document → Output) : Output :=
  match service.openDocument disk spot.file.toList with
  | .ok doc => act doc
  | .error cause => fail cause.message disk

/-- With a pick, the location of that candidate instead of all of them. -/
def printGoto (outcome : GotoOutcome) (pick : Option Nat) (disk : Disk) : Output :=
  match outcome, pick with
  | .choose _ candidates, some index =>
    match candidates[index]? with
    | some record => printJson record.location.toJson disk
    | none =>
      fail ("No candidate " ++ toString index ++ " (have " ++ toString candidates.length ++ ")") disk
  | _, _ => printJson outcome.toJson disk

def runIndex (grammar : Grammar) (service : Service) (disk : Disk) : Output :=
  let step := service.rebuild grammar disk
  match step.result.2 with
  | .error cause => fail cause.message step.disk
  | .ok symbols =>
    { stdout := line ("Indexed " ++ toString symbols ++ " symbols from "
        ++ toString step.service.table.fileCount ++ " files").toList
      disk := step.disk }

def runGoto (grammar : Grammar) (service : Service) (disk : Disk) (spot : Spot)
    (pick : Option Nat) : Output :=
  onSpot service disk spot fun doc =>
    let step := service.goto grammar disk doc spot.position
    match step.result with
    | .ok outcome => printGoto outcome pick step.disk
    | .error cause => fail cause.message step.disk

/-- The responses, one a line. -/
def responseLines (responses : List Response) : List Char :=
  responses.flatMap fun r => line r.toJson.compact

def runCommand (grammar : Grammar) (service : Service) (disk : Disk) (input : List Char) :
    Command → Output
  | .index => runIndex grammar service disk
  | .goto spot pick => runGoto grammar service disk spot pick
  | .references spot =>
    onSpot service disk spot fun doc =>
      printJson (service.findReferences disk doc spot.position).2.1.toJson disk
  | .complete spot =>
    onSpot service disk spot fun doc =>
      printJson (.arr ((doc.completions spot.position service.table).map Completion.toJson)) disk
  | .signature spot =>
    onSpot service disk spot fun doc =>
      printJson (.ofOption ((doc.signature? spot.position service.table).map Signature.toJson)) disk
  | .serve =>
    let done := service.dispatchLines grammar disk (splitOn '\n' input)
    { stdout := responseLines done.responses, disk := done.disk }

def misuseText : List Char :=
  line "error: the arguments are not understood; see --help".toList

/-- Runs the program with arguments and input on a disk. -/
def run (grammar : Grammar) (disk : Disk) (arguments : List String) (input : List Char) : Output :=
  match Reading.ofArguments arguments with
  | .misuse => { code := 2, stderr := misuseText, disk }
  | .tell text => { stdout := line text.toList, disk }
  | .run invocation =>
    match Service.openStored disk invocation.workspace.toList with
    | .error cause => fail cause.message disk
    | .ok service => runCommand grammar service disk input invocation.command

end CodeNav.CommandLine
