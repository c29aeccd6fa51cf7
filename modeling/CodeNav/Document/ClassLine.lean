import CodeNav.Document.Basic
import CodeNav.Text.Scan

/-! Lines that introduce a class, and the class that encloses a position: the one that the nearest
such line, at the position or above it, introduces. -/
namespace CodeNav
set_option autoImplicit false
open Text Text.Scan

namespace ClassLine

/-- `path = class … {`, with or without a declaring keyword in front. -/
def assignedClass : Scan (List Char) := do
  opt (do
    opt (do lit "export"; blanks1)
    oneOf ["const", "let", "var"]
    blanks1)
  let path ← run1 isPathChar
  blanks
  lit "="
  blanks
  lit "class"
  wordEdge
  blanks
  opt (do let _ ← many1 isWordChar; blanks)
  opt (do lit "extends"; blanks1; skip1 isPathChar; blanks)
  lit "\x7b"
  return path

/-- `class path`, exported or abstract or neither. -/
def declaredClass : Scan (List Char) := do
  opt (do
    lit "export"
    blanks1
    opt (do lit "default"; blanks1))
  opt (do lit "abstract"; blanks1)
  lit "class"
  blanks1
  run1 isPathChar

/-- The class that a line introduces. -/
def className? (line : List Char) : Option String :=
  let trimmed := trim line
  ((assignedClass.atStart? trimmed).or (declaredClass.atStart? trimmed)).map String.ofList

end ClassLine

/-- The class introduced nearest to the line, at it or above it. -/
def Document.enclosingClass? (doc : Document) (line : Nat) : Option String :=
  (doc.lines.take (line + 1)).reverse.findSome? ClassLine.className?

end CodeNav
