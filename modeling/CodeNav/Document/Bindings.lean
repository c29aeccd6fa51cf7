import CodeNav.Document.Basic
import CodeNav.Text.Scan

/-! Types of variables, as far as single lines tell: from `new`, from an alias of a variable whose
type is known, and from typed parameters. Lines are read from the top, and the last binding of a
name wins. -/
namespace CodeNav
set_option autoImplicit false
open Text Text.Scan

/-! ## Lines that bind -/

namespace BindingLine

def keyword : Scan Unit := do
  wordEdge
  oneOf ["let", "var", "const"]
  blanks1

/-- `= new Type (`. -/
def constructed (isType : Char → Bool) : Scan (List Char) := do
  blanks
  lit "="
  blanks
  lit "new"
  blanks1
  let type ← run1 isType
  blanks
  lit "("
  return type

/-- `let name = new Type(`. -/
def newVariable (isName isType : Char → Bool) : Scan (List Char × List Char) := do
  keyword
  let name ← run1 isName
  let type ← constructed isType
  return (name, type)

/-- `this.name = new Type(`. -/
def newProperty (isName isType : Char → Bool) : Scan (List Char × List Char) := do
  wordEdge
  lit "this."
  let name ← run1 isName
  let type ← constructed isType
  return (name, type)

/-- `name = source;`, with or without a declaring keyword. -/
def aliased (isName isSource : Char → Bool) : Scan (List Char × List Char) := do
  opt keyword
  let name ← run1 isName
  blanks
  lit "="
  blanks
  let source ← run1 isSource
  blanks
  lit ";"
  return (name, source)

/-- The text between the parentheses of `function name (…)`. -/
def functionParams : Scan (List Char) := do
  wordEdge
  lit "function"
  blanks
  skip isWordChar
  blanks
  lit "("
  let params ← run1 (· != ')')
  lit ")"
  return params

/-- `name: Type` or `name?: Type`. -/
def typedParam : Scan (List Char × List Char) := do
  let name ← run1 isWordChar
  blanks
  opt (lit "?")
  blanks
  lit ":"
  blanks
  let type ← run1 isPathChar
  return (name, type)

end BindingLine

/-! ## The map from variables to types -/

abbrev Bindings := List (String × String)

namespace Bindings

def get? (types : Bindings) (name : String) : Option String :=
  types.lookup name

def insert (types : Bindings) (name type : String) : Bindings :=
  (name, type) :: types.filter (·.1 != name)

def insertText (types : Bindings) (name type : List Char) : Bindings :=
  types.insert (String.ofList name) (String.ofList type)

def instancePrefix : List Char := "this.".toList

def bindNewVariables (line : List Char) (types : Bindings) : Bindings :=
  ((BindingLine.newVariable isWordChar isPathChar).hits line).foldl
    (fun types hit => types.insertText hit.value.1 hit.value.2) types

/-- A property is known by its bare name and by its name on the instance. -/
def bindNewProperties (line : List Char) (types : Bindings) : Bindings :=
  ((BindingLine.newProperty isWordChar isPathChar).hits line).foldl
    (fun types hit => (types.insertText hit.value.1 hit.value.2).insertText
      (instancePrefix ++ hit.value.1) hit.value.2) types

/-- The type of an alias source, which may be a property of the instance under its bare name. -/
def sourceType? (types : Bindings) (source : List Char) : Option String :=
  (types.get? (String.ofList source)).or
    ((dropPrefix? instancePrefix source).bind fun bare => types.get? (String.ofList bare))

/-- Only the first alias of a line counts. -/
def bindAlias (line : List Char) (types : Bindings) : Bindings :=
  match (BindingLine.aliased isWordChar isPathChar).first? line with
  | none => types
  | some hit =>
    match types.sourceType? hit.value.2 with
    | some type => types.insert (String.ofList hit.value.1) type
    | none => types

/-- The typed parameters of the first function on the line. -/
def bindParams (line : List Char) (types : Bindings) : Bindings :=
  match BindingLine.functionParams.first? line with
  | none => types
  | some hit =>
    (splitOn ',' hit.value).foldl (fun types param =>
      match BindingLine.typedParam.first? (trim param) with
      | some typed => types.insertText typed.value.1 typed.value.2
      | none => types) types

/-- The bindings after a line. -/
def observe (types : Bindings) (line : List Char) : Bindings :=
  bindParams line (bindAlias line (bindNewProperties line (bindNewVariables line types)))

def ofDocument (doc : Document) : Bindings :=
  doc.lines.foldl observe []

end Bindings

end CodeNav
