import CodeNav.Document.Basic

/-! Counting the arguments of a call.

The count starts at the first opening parenthesis at or after a position and ends where it closes,
on that line or a later one; a line end counts as a blank. Commas separate arguments only directly
inside the parentheses, brackets of all three kinds nest alike, and inside quotes nothing counts but
the closing quote. An argument without any non-blank character is not counted. -/
namespace CodeNav
set_option autoImplicit false
open Text

/-- Where the count stands: how many brackets are open, the quote that is open, whether the current
argument has a non-blank character, and the arguments that are complete. -/
structure Tally where
  depth : Nat := 0
  quote : Option Char := none
  filled : Bool := false
  count : Nat := 0
  deriving DecidableEq, Repr

namespace Tally

def total (t : Tally) : Nat :=
  if t.filled then t.count + 1 else t.count

def take (t : Tally) (c : Char) : Tally :=
  { t with filled := t.filled || !isBlank c }

def isOpening (c : Char) : Bool := c == '(' || c == '[' || c == '\x7b'

def isClosing (c : Char) : Bool := c == ')' || c == ']' || c == '\x7d'

def isQuote (c : Char) : Bool := c == '"' || c == '\'' || c == '\x60'

/-- The count after one more character, or nothing when that character closes the call. -/
def step? (t : Tally) (c : Char) : Option Tally :=
  match t.quote with
  | some q => some { t.take c with quote := if c == q then none else some q }
  | none =>
    if isOpening c then
      if t.depth = 0 then some { t with depth := 1 }
      else some { t.take c with depth := t.depth + 1 }
    else if isClosing c then
      if t.depth ≤ 1 then none
      else some { t.take c with depth := t.depth - 1 }
    else if c == ',' && t.depth == 1 then
      some { t with filled := false, count := t.total }
    else if isQuote c then some { t.take c with quote := some c }
    else some (t.take c)

/-- The arguments from here to the end of the call; if the line ends first, what `next` makes of the
count there. -/
def countLine (t : Tally) (next : Tally → Nat) : List Char → Nat
  | [] => next t
  | c :: cs =>
    match t.step? c with
    | some later => countLine later next cs
    | none => t.total

/-- The arguments from the first of the lines on, to the end of the call or of the last line. -/
def countLines (t : Tally) : List (List Char) → Nat
  | [] => t.total
  | line :: lines => t.countLine (fun later => countLines (later.take ' ') lines) line

end Tally

/-- The number of arguments of the call that opens at or after the position, on its line. -/
def Document.argumentCount (doc : Document) (pos : Position) : Nat :=
  match (doc.after pos).dropWhile (· != '(') with
  | [] => 0
  | call => Tally.countLines {} (call :: doc.lines.drop (pos.line + 1))

end CodeNav
