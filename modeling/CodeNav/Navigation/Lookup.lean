import CodeNav.Document.Arguments
import CodeNav.Document.ClassLine
import CodeNav.Document.Receiver

/-! A lookup: what the text around an identifier says about the symbol it names. -/
namespace CodeNav
set_option autoImplicit false
open Text Text.Scan

structure Lookup where
  word : String
  /-- The file in which the identifier stands. -/
  file : String
  /-- Is it written as a member of the instance? -/
  onInstance : Bool
  /-- The dotted expression that ends with the word. -/
  dotted : Option String
  /-- The number of arguments at the site. -/
  arguments : Nat
  enclosingClass : Option String
  /-- The type of the receiver, or the enclosing class when there is no receiver. -/
  receiverType : Option String
  /-- The type of the dotted path before the word; empty when unknown. -/
  objectType : String
  deriving DecidableEq, Repr

namespace Lookup

def isHead (c : Char) : Bool :=
  c.isAlpha || c == '_' || c == '$'

def segment : Scan Unit := do
  let _ ← char isHead
  skip isNameChar

/-- Two or more segments with dots between them. -/
def dottedExpression : Scan Unit := do
  segment
  lit "."
  segment
  repeated (do lit "."; segment)

/-- The dotted expression of the line that starts before the word and reaches its end, cut there. -/
def dottedWord? (line : List Char) (range : WordRange) : Option String :=
  ((dottedExpression.hits line).find? fun hit => hit.start < range.start && range.stop ≤ hit.stop).map
    fun hit => String.ofList ((line.drop hit.start).take (range.stop - hit.start))

/-- What a position says about the identifier it touches. -/
def at? (doc : Document) (pos : Position) (table : Table) : Option Lookup := do
  let range ← doc.wordRange? pos
  let start : Position := ⟨pos.line, range.start⟩
  let before := doc.before start
  let types := Bindings.ofDocument doc
  let enclosing := doc.enclosingClass? pos.line
  return {
    word := doc.wordIn range
    file := doc.path
    onInstance := "this.".toList.isSuffixOf before
    dotted := dottedWord? (doc.line pos.line) range
    arguments := doc.argumentCount pos
    enclosingClass := enclosing
    receiverType := match receiverWord? (trimEnd isBlank before) with
      | some receiver => types.get? receiver
      | none => enclosing
    objectType := doc.objectType start table types }

end Lookup

end CodeNav
