import CodeNav.Text.Basic

/-! Wildcards for file names: `*` for any run of characters, `?` for one character, and classes in
brackets, which an exclamation mark negates. Two stars form a unit that stands for whole path
components, and are valid only as one; nothing is escaped. -/
namespace CodeNav
set_option autoImplicit false
open Text

namespace Wildcard

/-- An inclusive range of characters. -/
abbrev CharRange := Char × Char

inductive Token where
  | one (c : Char)
  | any
  | anyRun
  /-- Any number of whole components. -/
  | components
  | within (ranges : List CharRange)
  | except (ranges : List CharRange)
  deriving DecidableEq, Repr

def inRange (c : Char) (r : CharRange) : Bool :=
  r.1 ≤ c && c ≤ r.2

/-! ## Reading a pattern -/

/-- The ranges between brackets: `a-b`, or a single character. -/
def classRanges : List Char → List CharRange
  | low :: '-' :: high :: rest => (low, high) :: classRanges rest
  | c :: rest => (c, c) :: classRanges rest
  | [] => []

/-- The text up to the first closing bracket that is not the first character, and what follows. -/
def classText? : List Char → Option (List Char × List Char)
  | [] => none
  | first :: rest => (splitFirst? ']' rest).map fun (more, after) => (first :: more, after)

/-- A class after its opening bracket, and what follows it. -/
def readClass? (cs : List Char) : Option (Token × List Char) :=
  match cs with
  | '!' :: rest => (classText? rest).map fun (text, after) => (.except (classRanges text), after)
  | _ => (classText? cs).map fun (text, after) => (.within (classRanges text), after)

/-- Reads a pattern whose last character read was `previous`, in at most `fuel` tokens. -/
def readFrom (fuel : Nat) (previous : Option Char) (cs : List Char) : Option (List Token) :=
  match fuel, cs with
  | _, [] => some []
  | 0, _ => none
  | _, '*' :: '*' :: '*' :: _ => none
  | fuel + 1, '*' :: '*' :: rest =>
    if previous.all (· == '/') then
      match rest with
      | [] => some [.components]
      | c :: after =>
        if c == '/' then (readFrom fuel (some '/') after).map (.components :: ·) else none
    else none
  | fuel + 1, '*' :: rest => (readFrom fuel (some '*') rest).map (.anyRun :: ·)
  | fuel + 1, '?' :: rest => (readFrom fuel (some '?') rest).map (.any :: ·)
  | fuel + 1, '[' :: rest => do
    let (token, after) ← readClass? rest
    return token :: (← readFrom fuel (some ']') after)
  | fuel + 1, c :: rest => (readFrom fuel (some c) rest).map (.one c :: ·)

/-- The tokens of a pattern; none when it is invalid. Every token takes at least one character. -/
def read? (pattern : List Char) : Option (List Token) :=
  readFrom pattern.length none pattern

/-! ## Matching -/

/-- The rests after each character that `stopsAfter` accepts, and after the last one. -/
def restsAfter (stopsAfter : Char → Bool) : List Char → List (List Char)
  | [] => []
  | c :: cs => if stopsAfter c || cs.isEmpty then cs :: restsAfter stopsAfter cs
    else restsAfter stopsAfter cs

def Token.rests (token : Token) (text : List Char) : List (List Char) :=
  match token with
  | .anyRun => text :: restsAfter (fun _ => true) text
  | .components => text :: restsAfter (· == '/') text
  | single =>
    match text with
    | [] => []
    | c :: cs =>
      let accepted := match single with
        | .one expected => c == expected
        | .within ranges => ranges.any (inRange c)
        | .except ranges => !ranges.any (inRange c)
        | _ => true
      if accepted then [cs] else []

/-- Can the tokens read the whole text? -/
def matchesAll : List Token → List Char → Bool
  | [], text => text.isEmpty
  | token :: tokens, text => (token.rests text).any (matchesAll tokens)

end Wildcard

/-- A valid wildcard pattern. -/
structure Wildcard where
  tokens : List Wildcard.Token
  deriving DecidableEq, Repr

namespace Wildcard

def ofText? (pattern : String) : Option Wildcard :=
  (read? pattern.toList).map Wildcard.mk

def accepts (w : Wildcard) (name : List Char) : Bool :=
  matchesAll w.tokens name

end Wildcard

end CodeNav
