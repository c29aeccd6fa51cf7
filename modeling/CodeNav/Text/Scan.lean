import CodeNav.Text.Basic

/-! Scanners: small patterns over one line of text.

A scanner started at a place of a line gives all its readings, the preferred one first. Sequencing
runs the second scanner after every reading of the first, a choice lists the readings of its first
branch before those of its second, and a greedy repetition lists the longest reading first; so the
head of the list is what trying alternatives in order, with backtracking, would find. A search
takes the leftmost place with a reading, and a search for all hits goes on behind each hit. -/
namespace CodeNav.Text
set_option autoImplicit false

/-- A place in a line: the characters to its left, nearest first, and those to its right. -/
structure Place where
  before : List Char
  after : List Char
  deriving DecidableEq

def Scan (α : Type) := Place → List (α × Place)

namespace Scan

instance : Monad Scan where
  pure a := fun here => [(a, here)]
  bind s f := fun here => (s here).flatMap fun (a, next) => f a next

variable {α β : Type}

/-- The readings of `s`, then those of `t`. -/
def orElse (s : Scan α) (t : Unit → Scan α) : Scan α :=
  fun here => s here ++ t () here

instance : OrElse (Scan α) where
  orElse := orElse

/-! ## Single characters and literals -/

def char (p : Char → Bool) : Scan Char
  | ⟨before, c :: after⟩ => if p c then [(c, ⟨c :: before, after⟩)] else []
  | _ => []

def chars (word : List Char) : Scan Unit := fun here =>
  if word.isPrefixOf here.after then
    [((), ⟨(here.after.take word.length).reverse ++ here.before, here.after.drop word.length⟩)]
  else []

def lit (word : String) : Scan Unit :=
  chars word.toList

def oneOf (literals : List String) : Scan Unit := fun here =>
  literals.flatMap fun word => lit word here

/-! ## Runs -/

/-- The whole run of characters satisfying `p`, possibly empty: one reading. -/
def run (p : Char → Bool) : Scan (List Char) := fun here =>
  let taken := here.after.takeWhile p
  [(taken, ⟨taken.reverse ++ here.before, here.after.dropWhile p⟩)]

def run1 (p : Char → Bool) : Scan (List Char) := fun here =>
  if (here.after.takeWhile p).isEmpty then [] else run p here

/-- Every run of characters satisfying `p`, from the longest down to the empty one. -/
def many (p : Char → Bool) : Scan (List Char) := fun here =>
  let longest := (here.after.takeWhile p).length
  (List.range (longest + 1)).reverse.map fun n =>
    (here.after.take n, ⟨(here.after.take n).reverse ++ here.before, here.after.drop n⟩)

def many1 (p : Char → Bool) : Scan (List Char) := fun here =>
  (many p here).filter fun reading => !reading.1.isEmpty

/-- Reads what `run` reads and keeps nothing of it. -/
def skip (p : Char → Bool) : Scan Unit := do
  let _ ← run p

def skip1 (p : Char → Bool) : Scan Unit := do
  let _ ← run1 p

def blanks : Scan Unit := skip isBlank

def blanks1 : Scan Unit := skip1 isBlank

/-- Everything up to the end of the line. -/
def rest : Scan (List Char) := run fun _ => true

/-! ## Optional and repeated parts -/

/-- With the part if it can be read, and without it. -/
def opt (s : Scan α) : Scan Unit := fun here =>
  (s here).map (fun reading => ((), reading.2)) ++ [((), here)]

/-- Up to `bound` repetitions, more before fewer. A repetition that reads nothing ends it. -/
def repeatUpTo (s : Scan α) : Nat → Scan Unit
  | 0, here => [((), here)]
  | bound + 1, here =>
    (s here).flatMap (fun reading =>
      if reading.2.after.length < here.after.length then repeatUpTo s bound reading.2 else [])
    ++ [((), here)]

/-- Any number of repetitions, more before fewer: the line is no longer than what is left of it. -/
def repeated (s : Scan α) : Scan Unit := fun here =>
  repeatUpTo s here.after.length here

/-- The text that a scanner reads. -/
def text (s : Scan α) : Scan (List Char) := fun here =>
  (s here).map fun reading =>
    (here.after.take (here.after.length - reading.2.after.length), reading.2)

/-! ## Places -/

def lineStart : Scan Unit := fun here =>
  if here.before.isEmpty then [((), here)] else []

/-- Between a word character and something else, in either order. -/
def wordEdge : Scan Unit := fun here =>
  let left := here.before.head?.any isWordChar
  let right := here.after.head?.any isWordChar
  if left != right then [((), here)] else []

/-! ## Searching a line -/

/-- A reading together with the part of the line that it covers. -/
structure Hit (α : Type) where
  start : Nat
  stop : Nat
  value : α

/-- The hits from a place on, `pos` characters into the line, that do not start before `resume`. -/
def hitsFrom (s : Scan α) (resume pos : Nat) (before : List Char) : List Char → List (Hit α)
  | [] =>
    if pos < resume then []
    else match s ⟨before, []⟩ with
      | [] => []
      | (value, _) :: _ => [⟨pos, pos, value⟩]
  | c :: after =>
    if pos < resume then hitsFrom s resume (pos + 1) (c :: before) after
    else match s ⟨before, c :: after⟩ with
      | [] => hitsFrom s resume (pos + 1) (c :: before) after
      | (value, next) :: _ =>
        let stop := pos + (after.length + 1 - next.after.length)
        ⟨pos, stop, value⟩ :: hitsFrom s stop (pos + 1) (c :: before) after

/-- All hits from left to right, none overlapping the one before it. -/
def hits (s : Scan α) (line : List Char) : List (Hit α) :=
  hitsFrom s 0 0 [] line

/-- The leftmost hit. -/
def first? (s : Scan α) (line : List Char) : Option (Hit α) :=
  (hits s line).head?

def occurs (s : Scan α) (line : List Char) : Bool :=
  (first? s line).isSome

/-- The preferred reading at the start of a line. -/
def atStart? (s : Scan α) (line : List Char) : Option α :=
  (s ⟨[], line⟩).head?.map (·.1)

end Scan

end CodeNav.Text
