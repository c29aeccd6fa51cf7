import CodeNav.Text.Class

/-! Cutting and joining text. Texts are lists of characters here; splitting keeps empty pieces, so
that joining the pieces gives the text back. -/
namespace CodeNav.Text
set_option autoImplicit false

/-! ## Splitting and joining -/

/-- The pieces between the characters that satisfy `p`. There is always at least one. -/
def splitWhere (p : Char → Bool) : List Char → List (List Char)
  | [] => [[]]
  | c :: cs =>
    if p c then [] :: splitWhere p cs
    else match splitWhere p cs with
      | [] => [[c]]
      | piece :: pieces => (c :: piece) :: pieces

def splitOn (sep : Char) (cs : List Char) : List (List Char) :=
  splitWhere (· == sep) cs

def joinWith (sep : Char) : List (List Char) → List Char
  | [] => []
  | [piece] => piece
  | piece :: next :: pieces => piece ++ sep :: joinWith sep (next :: pieces)

/-- The text before and after the first `sep`. -/
def splitFirst? (sep : Char) : List Char → Option (List Char × List Char)
  | [] => none
  | c :: cs =>
    if c == sep then some ([], cs)
    else (splitFirst? sep cs).map fun (before, after) => (c :: before, after)

/-- The text before and after the last `sep`. -/
def splitLast? (sep : Char) : List Char → Option (List Char × List Char)
  | [] => none
  | c :: cs =>
    match splitLast? sep cs with
    | some (before, after) => some (c :: before, after)
    | none => if c == sep then some ([], cs) else none

/-- At most `limit + 1` pieces; the last one keeps its separators. -/
def splitAtMost (sep : Char) : Nat → List Char → List (List Char)
  | 0, cs => [cs]
  | limit + 1, cs =>
    match splitFirst? sep cs with
    | none => [cs]
    | some (before, after) => before :: splitAtMost sep limit after

/-- The maximal runs of non-blank characters. -/
def words (cs : List Char) : List (List Char) :=
  (splitWhere isBlank cs).filter (!·.isEmpty)

/-- The words of a text with one space between neighbours. -/
def collapseBlanks (cs : List Char) : List Char :=
  joinWith ' ' (words cs)

/-! ## Trimming -/

def trimStart (p : Char → Bool) (cs : List Char) : List Char :=
  cs.dropWhile p

def trimEnd (p : Char → Bool) (cs : List Char) : List Char :=
  (cs.reverse.dropWhile p).reverse

def trim (cs : List Char) : List Char :=
  trimEnd isBlank (trimStart isBlank cs)

def isAllBlank (cs : List Char) : Bool :=
  cs.all isBlank

/-! ## Searching -/

/-- Does `part` occur in the text, at any place? -/
def occursIn (part : List Char) : List Char → Bool
  | [] => part.isEmpty
  | c :: cs => part.isPrefixOf (c :: cs) || occursIn part cs

/-- The text without the leading `part`, if it starts with it. -/
def dropPrefix? (part cs : List Char) : Option (List Char) :=
  if part.isPrefixOf cs then some (cs.drop part.length) else none

/-- The text without the closing `part`, if it ends with it. -/
def dropSuffix? (part cs : List Char) : Option (List Char) :=
  if part.isSuffixOf cs then some (cs.take (cs.length - part.length)) else none

def replaceChar (old new : Char) (cs : List Char) : List Char :=
  cs.map fun c => if c == old then new else c

/-! ## Numerals -/

def digitValue (c : Char) : Nat :=
  c.toNat - '0'.toNat

def numeralValue (cs : List Char) : Nat :=
  cs.foldl (fun n c => 10 * n + digitValue c) 0

/-- Reads a decimal numeral that is at most `bound`: ASCII digits, at least one, after an optional
plus sign. -/
def readNumeral? (bound : Nat) (cs : List Char) : Option Nat :=
  let digits := match cs with
    | '+' :: rest => rest
    | _ => cs
  if digits.isEmpty || !digits.all Char.isDigit then none
  else if numeralValue digits ≤ bound then some (numeralValue digits)
  else none

/-- The decimal digits of a number, without leading zeros. -/
def digits (n : Nat) : List Char :=
  Nat.toDigits 10 n

/-! ## Strings -/

def joinDots (parts : List String) : String :=
  String.ofList (joinWith '.' (parts.map String.toList))

def splitDots (s : String) : List String :=
  (splitOn '.' s.toList).map String.ofList

def hasChar (c : Char) (s : String) : Bool :=
  s.toList.contains c

/-- Is `name` the text `owner`, a dot and `member`? -/
def isMemberName (name owner member : String) : Bool :=
  name.toList == owner.toList ++ '.' :: member.toList

end CodeNav.Text
