import CodeNav.Calls.Target

/-! The search for calls of a function: a scan of text that asks nothing of the symbol table.

A call counts when it is written with the namespace, with a variable that was built from it in the
same file, or, in the active file and inside the class, with the instance. -/
namespace CodeNav
set_option autoImplicit false
open Text Text.Scan

/-- One call, and the line it stands on. -/
structure Reference where
  location : Location
  preview : String
  deriving DecidableEq, Repr

namespace CallSearch

/-! ## Instances -/

def isTypeChar (c : Char) : Bool :=
  isNameChar c || c == '.'

/-- The variables that a line binds to a type. -/
def observe (instances : Bindings) (line : List Char) : Bindings :=
  let built := ((BindingLine.newVariable isNameChar isTypeChar).hits line).foldl
    (fun types hit => types.insertText hit.value.1 hit.value.2) instances
  let withProperties := ((BindingLine.newProperty isNameChar isTypeChar).hits line).foldl
    (fun types hit => types.insertText hit.value.1 hit.value.2) built
  match (BindingLine.aliased isNameChar isNameChar).first? line with
  | none => withProperties
  | some hit =>
    match withProperties.get? (String.ofList hit.value.2) with
    | some type => withProperties.insert (String.ofList hit.value.1) type
    | none => withProperties

/-! ## Calls on a line -/

/-- `.function (`. -/
def called (function : List Char) : Scan Unit := do
  chars ('.' :: function)
  blanks
  lit "("

def callOn (owner function : List Char) : Scan Unit := do
  chars owner
  called function

def callOnVariable (function : List Char) : Scan (List Char) := do
  let receiver ← run1 isNameChar
  called function
  return receiver

/-- No identifier character stands right before the place. -/
def startsWord (line : List Char) (start : Nat) : Bool :=
  !(line.take start).getLast?.any isIdentChar

def ownStarts (owner function line : List Char) : List Nat :=
  (((callOn owner function).hits line).map (·.start)).filter (startsWord line)

def variableStarts (target : Target) (instances : Bindings) (line : List Char) : List Nat :=
  (((callOnVariable target.function.toList).hits line).filter fun hit =>
    instances.get? (String.ofList hit.value) == some target.owner).map (·.start)

/-- Where calls start on a line, in ascending order and each once. -/
def starts (target : Target) (onInstance : Bool) (instances : Bindings) (line : List Char) :
    List Nat :=
  let own := ownStarts target.owner.toList target.function.toList line
  let inner := if onInstance then ownStarts "this".toList target.function.toList line else []
  ((own ++ inner ++ variableStarts target instances line).mergeSort (· ≤ ·)).eraseDups

/-! ## Calls in a document -/

/-- The calls on the lines from number `index` on, given the instances bound above them. -/
def scanLines (target : Target) (onInstance : Bool) (file : String) :
    Nat → Bindings → List (List Char) → List Reference
  | _, _, [] => []
  | index, instances, line :: lines =>
    let known := observe instances line
    ((starts target onInstance known line).map fun start =>
      ⟨⟨file, index, start⟩, String.ofList (trim line)⟩)
    ++ scanLines target onInstance file (index + 1) known lines

def scan (target : Target) (onInstance : Bool) (doc : Document) : List Reference :=
  scanLines target onInstance doc.path 0 [] doc.lines

/-- The document that has focus, and the class around the cursor. -/
structure Active where
  document : Document
  enclosingClass : Option String

/-- The calls in one file. The active document stands in for its file; a file that cannot be read
has none. -/
def inFile (read : String → Option Document) (target : Target) (active : Option Active)
    (file : String) : List Reference :=
  match active.filter (·.document.path == file) with
  | some a => scan target (a.enclosingClass == some target.owner) a.document
  | none => ((read file).map (scan target false)).getD []

def inFiles (read : String → Option Document) (target : Target) (active : Option Active)
    (files : List String) : List Reference :=
  files.flatMap (inFile read target active)

/-- The progress reports of a search: one after each file. -/
def progress (total : Nat) : List (Nat × Nat) :=
  (List.range total).map fun done => (done + 1, total)

end CallSearch

end CodeNav
