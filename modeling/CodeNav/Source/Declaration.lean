import CodeNav.Symbol.Record

/-! Declarations: the forms in which a script introduces a name, and the one dotted name that each
of them stands for. -/
namespace CodeNav
set_option autoImplicit false
open Text

/-- How a declaration is written. -/
inductive Form where
  /-- A class with a name of its own. -/
  | namedClass (name : String)
  /-- A class expression bound to a variable or assigned to a path. -/
  | assignedClass (path : List String)
  /-- A member of an object literal: the path of the object, then the key. -/
  | objectMember (path : List String)
  /-- An assignment to a dotted path. -/
  | dottedAssignment (path : List String)
  /-- A field or method in the body of a class. -/
  | classMember (name : String)
  /-- A function declaration, or a function bound to a variable. -/
  | function (name : String)
  deriving DecidableEq, Repr

/-- The part of the dotted name that the form adds below its scope. -/
def Form.segments : Form → List String
  | namedClass name | classMember name | function name => splitDots name
  | assignedClass path | objectMember path | dottedAssignment path => path

/-- A declaration, its lexical scope, and its parameters when it takes any list of them. -/
structure Declaration where
  scope : List String
  form : Form
  line : UInt32
  params : Option (List Parameter)
  deriving DecidableEq, Repr

namespace Declaration

def path (d : Declaration) : List String :=
  d.scope ++ d.form.segments

def qualifiedName (d : Declaration) : String :=
  joinDots d.path

def toRecord (file : String) (d : Declaration) : Record :=
  let bare : Record := { file, name := d.qualifiedName, line := d.line }
  match d.params with
  | some params => bare.withParams params
  | none => bare

end Declaration

/-- What a class is called that has neither a name nor a target. -/
def anonymousClass : String := "<anonymous>"

end CodeNav
