import CodeNav.CommandLine.Run
import CodeNav.Workspace.Transfer

/-! The program. It takes the workspace in, runs on it as a value, and writes back what has changed.
While it serves, it does so for every line of its input. -/
namespace CodeNav.Program
set_option autoImplicit false
open CommandLine

/-- The path of a place on the machine. -/
def machinePath (place : Place) :=
  (do return (← IO.currentDir) / String.ofList place.toPath : IO _)

/-- What lies at a place of the given type, with everything below it. Below it, links are passed
over, and so are files that may not be read. -/
partial def entriesAt (place : Place) (type : IO.FS.FileType) : IO (List (Place × Entry)) := do
  let path ← machinePath place
  match type with
  | .dir =>
    let mut found := [(place, Entry.directory)]
    for item in ← path.readDir do
      let inner ← item.path.symlinkMetadata
      found := found ++ (← entriesAt (place ++ [item.fileName.toList]) inner.type)
    return found
  | .file => try return [(place, .file (← IO.FS.readBinFile path).toList)] catch _ => return []
  | _ => return []

/-- The disk, as far as the workspace reaches. -/
def takeIn (workspace : String) : IO Disk := do
  let current := Place.along [] (← IO.currentDir).toString.toList
  let place := current.along workspace.toList
  let ways := (Disk.mk current []).makeDirectories current.toPath
  let path ← machinePath place
  if ← path.pathExists then
    let reached := ways.makeDirectories (Place.toPath place.dropLast)
    let found ← entriesAt place (← path.metadata).type
    return { reached with entries := found ++ reached.entries }
  else return ways

def writeBack (before after : Disk) : IO Unit := do
  for place in before.removedFrom after do
    IO.FS.removeFile (← machinePath place)
  for (place, bytes) in before.writtenSince after do
    IO.FS.writeBinFile (← machinePath place) ⟨bytes.toArray⟩

def grammarOf (disk : Disk) : Grammar :=
  Grammar.ofSamples disk.samples

/-- Prints what a run says, and gives its exit code. -/
def finish (before : Disk) (output : Output) : IO UInt32 := do
  writeBack before output.disk
  IO.print (String.ofList output.stdout)
  IO.eprint (String.ofList output.stderr)
  return output.code.toUInt32

/-- The next line of the input; nothing at its end. -/
def nextLine? : IO (Option String) := do
  let line ← try (← IO.getStdin).getLine catch _ => pure ""
  return if line.isEmpty then none else some line

partial def serveLines (workspace : String) (service : Service) : IO Unit := do
  let some line ← nextLine? | return
  let disk ← takeIn workspace
  let done := service.dispatchLine (grammarOf disk) disk line.toList
  writeBack disk done.disk
  IO.print (String.ofList (responseLines done.responses))
  (← IO.getStdout).flush
  if done.goOn then serveLines workspace done.service

def serve (workspace : String) : IO UInt32 := do
  let disk ← takeIn workspace
  match Service.openStored disk workspace.toList with
  | .ok service => serveLines workspace service; return 0
  | .error cause => finish disk (fail cause.message disk)

end CodeNav.Program

open CodeNav CodeNav.CommandLine CodeNav.Program in
def main (arguments : List String) : IO UInt32 := do
  match Reading.ofArguments arguments with
  | .run ⟨workspace, .serve⟩ => serve workspace
  | .run ⟨workspace, _⟩ =>
    let disk ← takeIn workspace
    finish disk (run (grammarOf disk) disk arguments [])
  | _ =>
    let disk : Disk := ⟨[], []⟩
    finish disk (run (grammarOf disk) disk arguments [])
