import CodeNav.Text.Basic

/-! Path texts. A path is a text with slashes between its parts; empty parts and single dots say
nothing, and where the text of a path is kept, they are kept with it. -/
namespace CodeNav.Path
set_option autoImplicit false
open Text

abbrev Part := List Char

def isAbsolute (path : List Char) : Bool :=
  path.head? == some '/'

def parts (path : List Char) : List Part :=
  splitOn '/' path

/-- A part that does not change where a path leads. -/
def isFiller (part : Part) : Bool :=
  part == [] || part == ['.']

def parent : Part := ['.', '.']

/-- Does a path end in a name, and not in a slash, a dot or a step up? -/
def endsInName (path : List Char) : Bool :=
  (parts path).getLast?.any fun last => !isFiller last && last != parent

/-- A path below a base. An absolute path stands for itself. -/
def join (base path : List Char) : List Char :=
  if isAbsolute path then path
  else match base.getLast? with
    | none => path
    | some c => if c == '/' then base ++ path else base ++ '/' :: path

/-! ## Paths below a base -/

/-- Where a path starts: at the root, at the current directory written as a dot, or unsaid. -/
inductive Anchor where
  | root
  | current
  | unsaid
  deriving DecidableEq, Repr

def anchored (path : List Char) : Anchor × List Part :=
  match parts path with
  | first :: rest =>
    if isAbsolute path then (.root, rest)
    else if first == ['.'] then (.current, rest)
    else (.unsaid, first :: rest)
  | [] => (.unsaid, [])

/-- The parts that follow the given leading ones, fillers apart. -/
def dropLeading? : List Part → List Part → Option (List Part)
  | [], rest => some rest
  | name :: names, rest =>
    match rest.dropWhile isFiller with
    | part :: following => if part = name then dropLeading? names following else none
    | [] => none

def trimLastFillers (ps : List Part) : List Part :=
  (ps.reverse.dropWhile isFiller).reverse

def trimFillers (ps : List Part) : List Part :=
  trimLastFillers (ps.dropWhile isFiller)

/-- The text of a path without the fillers at its end. -/
def withoutLastFillers (path : List Char) : List Char :=
  match anchored path with
  | (.root, rest) => '/' :: joinWith '/' (trimLastFillers rest)
  | (.current, rest) => joinWith '/' (['.'] :: trimLastFillers rest)
  | (.unsaid, rest) => joinWith '/' (trimLastFillers rest)

/-- The text of a path below a base, if it lies there. Below the empty path lies every path. -/
def below? (base path : List Char) : Option (List Char) :=
  if base.isEmpty then some (withoutLastFillers path) else
  let (baseAnchor, baseParts) := anchored base
  let (anchor, pathParts) := anchored path
  if anchor = baseAnchor then
    (dropLeading? (baseParts.filter (!isFiller ·)) pathParts).map fun rest =>
      joinWith '/' (trimFillers rest)
  else none

/-! ## Extensions -/

/-- A name without its extension. A dot at the start begins no extension. -/
def stem (name : Part) : Part :=
  match splitLast? '.' name with
  | some (before, _) => if before.isEmpty then name else before
  | none => name

/-- The path with the extension of its last part replaced; unchanged when that part is no name. -/
def withExtension (path : List Char) (extension : List Char) : List Char :=
  match (parts path).reverse.dropWhile isFiller with
  | [] => path
  | name :: before =>
    if name = parent then path
    else joinWith '/' (before.reverse ++ [stem name ++ '.' :: extension])

end CodeNav.Path
