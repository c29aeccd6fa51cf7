import CodeNav.Text.Basic

/-! Documents: the text of one file as lines of characters, and positions in it. Lines and
characters count from zero. A position may lie anywhere; past the end of a line it means the end,
and past the last line the line is empty. -/
namespace CodeNav
set_option autoImplicit false
open Text

structure Position where
  line : Nat
  character : Nat
  deriving DecidableEq, Repr

/-- A place in a file of the workspace. -/
structure Location where
  file : String
  line : Nat
  character : Nat
  deriving DecidableEq, Repr

/-- The extent of an identifier on its line, in characters. -/
structure WordRange where
  line : Nat
  start : Nat
  stop : Nat
  deriving DecidableEq, Repr

structure Document where
  path : String
  lines : List (List Char)
  deriving DecidableEq, Repr

namespace Document

/-- A line without the carriage return that a line end may leave. -/
def withoutReturn (line : List Char) : List Char :=
  (dropSuffix? ['\r'] line).getD line

def ofText (path : String) (text : List Char) : Document :=
  ⟨path, (splitOn '\n' text).map withoutReturn⟩

def line (doc : Document) (index : Nat) : List Char :=
  doc.lines.getD index []

/-- The text of the line before the position. -/
def before (doc : Document) (pos : Position) : List Char :=
  (doc.line pos.line).take pos.character

/-- The text of the line from the position on. -/
def after (doc : Document) (pos : Position) : List Char :=
  (doc.line pos.line).drop pos.character

/-- The identifier that the position touches: the identifier characters on both sides of it. -/
def wordRange? (doc : Document) (pos : Position) : Option WordRange :=
  let column := min pos.character (doc.line pos.line).length
  let left := ((doc.before pos).reverse.takeWhile isIdentChar).length
  let right := ((doc.after pos).takeWhile isIdentChar).length
  if left = 0 ∧ right = 0 then none
  else some ⟨pos.line, column - left, column + right⟩

def wordIn (doc : Document) (range : WordRange) : String :=
  String.ofList (((doc.line range.line).drop range.start).take (range.stop - range.start))

def word? (doc : Document) (pos : Position) : Option String :=
  (doc.wordRange? pos).map doc.wordIn

end Document

end CodeNav
