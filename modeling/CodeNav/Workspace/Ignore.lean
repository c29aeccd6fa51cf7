import CodeNav.Workspace.Path
import CodeNav.Text.Utf8

/-! Ignore rules: one pattern a line, the last one that matches a path decides.

A pattern is matched against the bytes of a path relative to the root. Wildcards stop at slashes, a
double star between slashes crosses them, braces list alternatives, brackets hold classes, and a
backslash takes the next character as it is. -/
namespace CodeNav.Ignore
set_option autoImplicit false
open Text

inductive Token where
  | char (c : Char)
  | any
  | anyRun
  /-- A double star at the start: nothing, or any directories. -/
  | leading
  /-- A double star at the end: a slash and anything. -/
  | trailing
  /-- A double star between slashes: one slash, or any directories between two. -/
  | between
  | class (negated : Bool) (ranges : List (Char × Char))
  | alternatives (branches : List (List Token))

/-! ## Classes -/

/-- What becomes of a bracket: a class and the text behind it, no class because it is never closed,
or an error because a range runs backwards. -/
inductive ClassReading where
  | closed (ranges : List (Char × Char)) (rest : List Char)
  | unclosed
  | backwards

/-- Reads the inside of a class. `ranges` holds those read so far, the latest first; in a range,
the next character becomes its upper end. -/
def readRanges (first inRange : Bool) (ranges : List (Char × Char)) : List Char → ClassReading
  | [] => .unclosed
  | c :: cs =>
    if c == ']' && !first then
      .closed (if inRange then ('-', '-') :: ranges else ranges) cs
    else if c == '-' && !first && !inRange then readRanges false true ranges cs
    else if inRange then
      match ranges with
      | (low, _) :: others =>
        if c < low then .backwards else readRanges false false ((low, c) :: others) cs
      | [] => readRanges false false [(c, c)] cs
    else readRanges false false ((c, c) :: ranges) cs

/-! ## Patterns -/

/-- How far a pattern is read: the branches that are open, each with its latest token first and the
current one first; for every open brace, the number of branches outside it; the last character; and
whether a bracket turned out to be unclosed, after which brackets are plain characters. -/
structure Reader where
  branches : List (List Token) := [[]]
  opened : List Nat := []
  previous : Option Char := none
  plainBrackets : Bool := false

namespace Reader

def push (r : Reader) (token : Token) : Reader :=
  match r.branches with
  | current :: outer => { r with branches := (token :: current) :: outer }
  | [] => { r with branches := [[token]] }

def after (r : Reader) (c : Char) : Reader :=
  { r with previous := some c }

/-- Replaces the latest token by a double star, unless that token is one already that says more. -/
def spanning (r : Reader) (token : Token) : Reader :=
  match r.branches with
  | (.leading :: _) :: _ | (.trailing :: _) :: _ => r
  | (_ :: current) :: outer => { r with branches := (token :: current) :: outer }
  | _ => r.push token

def isInAlternatives (r : Reader) : Bool :=
  1 < r.branches.length

/-- A double star, with what follows it. Away from slashes it is two single stars. -/
def doubleStar (r : Reader) (rest : List Char) : Reader × List Char :=
  let plain := ((r.push .anyRun).push .anyRun).after '*'
  let isFirst := r.branches.head?.all (·.isEmpty)
  let afterSlash := r.previous == some '/' ||
    (r.isInAlternatives && (r.previous == some ',' || r.previous == some '\x7b'))
  if isFirst then
    match rest with
    | [] => ((r.push .leading).after '*', [])
    | '/' :: more => ((r.push .leading).after '/', more)
    | _ => (plain, rest)
  else if !afterSlash then (plain, rest)
  else match rest with
    | [] => ((r.spanning .trailing).after '*', [])
    | '/' :: more => ((r.spanning .between).after '/', more)
    | c :: _ =>
      if r.isInAlternatives && (c == ',' || c == '\x7d') then
        ((r.spanning .trailing).after '*', rest)
      else (plain, rest)

/-- Closes the innermost braces: their branches become one token of the branch around them. -/
def close? (r : Reader) : Option Reader :=
  match r.opened with
  | [] => none
  | outside :: opened =>
    let inside := r.branches.take (r.branches.length - outside)
    let around : Reader :=
      { r with branches := r.branches.drop (r.branches.length - outside), opened := opened }
    some (around.push (.alternatives (inside.reverse.map List.reverse)))

/-- Reads a class after its opening bracket. -/
def bracket? (r : Reader) (rest : List Char) : Option (Reader × List Char) :=
  let (negated, body) := match rest with
    | '!' :: more | '^' :: more => (true, more)
    | _ => (false, rest)
  match readRanges true false [] body with
  | .closed ranges after => some ((r.push (.class negated ranges.reverse)).after ']', after)
  | .unclosed => some (({ r with plainBrackets := true }.push (.char '[')).after '[', rest)
  | .backwards => none

/-- Reads one element of a pattern and gives what is left. -/
def step? (r : Reader) (c : Char) (rest : List Char) : Option (Reader × List Char) :=
  if c == '?' then some ((r.push .any).after c, rest)
  else if c == '*' then
    match rest with
    | '*' :: more => some (r.doubleStar more)
    | _ => some ((r.push .anyRun).after c, rest)
  else if c == '[' && !r.plainBrackets then r.bracket? rest
  else if c == '\x7b' then
    some ({ r with branches := [] :: r.branches, opened := r.branches.length :: r.opened }.after c,
      rest)
  else if c == '\x7d' then r.close?.map fun closed => (closed.after c, rest)
  else if c == ',' && r.isInAlternatives then
    some ({ r with branches := [] :: r.branches }.after c, rest)
  else if c == '\\' then
    match rest with
    | [] => none
    | escaped :: more => some ((r.push (.char escaped)).after escaped, more)
  else some ((r.push (.char c)).after c, rest)

def run (r : Reader) : Nat → List Char → Option Reader
  | _, [] => some r
  | 0, _ => none
  | fuel + 1, c :: cs => do
    let (next, rest) ← r.step? c cs
    next.run fuel rest

end Reader

/-- The tokens of a pattern; none when it is invalid. Every step takes at least one character. -/
def readPattern? (pattern : List Char) : Option (List Token) := do
  let done ← Reader.run {} pattern.length pattern
  match done.branches with
  | [tokens] => some tokens.reverse
  | _ => none

/-! ## Matching -/

def slash : UInt8 := 47

/-- The text and all that is left of it after some of its bytes. -/
def suffixes : Utf8.Bytes → List Utf8.Bytes
  | [] => [[]]
  | b :: bs => (b :: bs) :: suffixes bs

/-- What is left after some bytes of the first component. -/
def restsInComponent : Utf8.Bytes → List Utf8.Bytes
  | [] => [[]]
  | b :: bs => if b == slash then [b :: bs] else (b :: bs) :: restsInComponent bs

/-- What is left after each slash. -/
def restsAfterSlashes : Utf8.Bytes → List Utf8.Bytes
  | [] => []
  | b :: bs => if b == slash then bs :: restsAfterSlashes bs else restsAfterSlashes bs

/-- Does a byte lie in a range of characters, the characters being written as their bytes? Between
the last byte of the lower end and the first byte of the upper end every byte counts. -/
def byteInRange (b : UInt8) (r : Char × Char) : Bool :=
  let low := String.utf8EncodeChar r.1
  let high := String.utf8EncodeChar r.2
  if r.1 == r.2 then low.contains b
  else low.contains b || high.contains b ||
    ((low.getLast?.all (· ≤ b)) && (high.head?.all (b ≤ ·)))

def dropBytes? (word bytes : Utf8.Bytes) : List Utf8.Bytes :=
  if word.isPrefixOf bytes then [bytes.drop word.length] else []

mutual

/-- Does a token stand for nothing at all? -/
def isVoid : Token → Bool
  | .alternatives branches => branchesVoid branches
  | _ => false

def allVoid : List Token → Bool
  | [] => true
  | t :: ts => isVoid t && allVoid ts

def branchesVoid : List (List Token) → Bool
  | [] => true
  | b :: bs => allVoid b && branchesVoid bs

end

mutual

/-- What can be left of a text after a token has read a part of it. -/
def rests (bytes : Utf8.Bytes) : Token → List Utf8.Bytes
  | .char c => dropBytes? (String.utf8EncodeChar c) bytes
  | .any =>
    match bytes with
    | b :: bs => if b == slash then [] else [bs]
    | [] => []
  | .anyRun => restsInComponent bytes
  | .leading => bytes :: restsAfterSlashes bytes
  | .trailing =>
    match bytes with
    | b :: bs => if b == slash then suffixes bs else []
    | [] => []
  | .between =>
    match bytes with
    | b :: bs => if b == slash then bs :: restsAfterSlashes bs else []
    | [] => []
  | .class negated ranges =>
    match bytes with
    | b :: bs => if ranges.any (byteInRange b) != negated then [bs] else []
    | [] => []
  | .alternatives branches =>
    if branchesVoid branches then [bytes] else branchesRests bytes branches

/-- The rests after all tokens in turn, from each of the given texts. -/
def sequenceRests (texts : List Utf8.Bytes) : List Token → List Utf8.Bytes
  | [] => texts
  | t :: ts => sequenceRests (texts.flatMap fun bytes => rests bytes t).eraseDups ts

/-- Branches that stand for nothing are left out. -/
def branchesRests (bytes : Utf8.Bytes) : List (List Token) → List Utf8.Bytes
  | [] => []
  | b :: bs =>
    (if allVoid b then [] else sequenceRests [bytes] b) ++ branchesRests bytes bs

end

def isChar (p : Char → Bool) : Token → Bool
  | .char c => p c
  | _ => false

/-- Is the path written out, from the root or with the directory it lies in? -/
def spellsOut : List Token → Bool
  | .leading :: tokens => tokens.all (isChar fun _ => true) && tokens.any (isChar (· == '/'))
  | tokens => tokens.all (isChar fun _ => true)

/-- A pattern that ends in a dot finds a path only if it spells it out: a name that ends in a dot
counts as no name, and has no extension. -/
def isEffective (tokens : List Token) : Bool :=
  !tokens.getLast?.any (isChar (· == '.')) || spellsOut tokens

/-- Does the pattern match the whole path? A double star alone matches everything. -/
def matchesPath (tokens : List Token) (path : Utf8.Bytes) : Bool :=
  match tokens with
  | [.leading] => true
  | _ => isEffective tokens && (sequenceRests [path] tokens).contains []

/-! ## Rules -/

structure Rule where
  tokens : List Token
  /-- The rule takes back what earlier rules ignore. -/
  keeps : Bool
  onlyDirectories : Bool

/-- A line without the blanks at its end, unless the last one is escaped. -/
def withoutTrailingBlanks (line : List Char) : List Char :=
  if ['\\', ' '].isSuffixOf line then line else trimEnd isBlank line

/-- A pattern tied to the root, or made to match at any depth when it names no directory. -/
def placed (isAnchored : Bool) (pattern : List Char) : List Char :=
  if isAnchored || pattern.contains '/' || pattern == ['*', '*'] then pattern
  else "**/".toList ++ pattern

/-- A closing double star needs something below the directory. -/
def belowDirectory (pattern : List Char) : List Char :=
  if "/**".toList.isSuffixOf pattern then pattern ++ "/*".toList else pattern

/-- The marks at the start of a line: whether the rule keeps, whether it is tied to the root, and
the pattern behind them. An escaped mark is part of the pattern. -/
def leadingMarks (line : List Char) : Bool × Bool × List Char :=
  match line with
  | '\\' :: '!' :: _ | '\\' :: '#' :: _ => (false, false, line.drop 1)
  | '!' :: '/' :: rest => (true, true, rest)
  | '!' :: rest => (true, false, rest)
  | '/' :: rest => (false, true, rest)
  | _ => (false, false, line)

/-- A closing slash, escaped or not, limits a pattern to directories. -/
def closingSlash (pattern : List Char) : Bool × List Char :=
  match dropSuffix? ['/'] pattern with
  | some rest => (true, (dropSuffix? ['\\'] rest).getD rest)
  | none => (false, pattern)

/-- The rule of a line: nothing for a blank line or a comment, an error for an invalid pattern. -/
def readRule (line : List Char) : Except Unit (Option Rule) :=
  let text := withoutTrailingBlanks line
  if line.head? = some '#' || text.isEmpty then .ok none
  else
    let (keeps, isAnchored, marked) := leadingMarks text
    let (onlyDirectories, pattern) := closingSlash marked
    match readPattern? (belowDirectory (placed isAnchored pattern)) with
    | some tokens => .ok (some ⟨tokens, keeps, onlyDirectories⟩)
    | none => .error ()

/-- The lines of a text; the line feed that ends a line takes a carriage return before it along. -/
def lines (text : List Char) : List (List Char) :=
  match (splitOn '\n' text).reverse with
  | [] => []
  | last :: ended => (ended.map fun line => (dropSuffix? ['\r'] line).getD line).reverse ++ [last]

/-- The byte order mark that may open a file. -/
def byteOrderMark : Char := Char.ofNat 0xFEFF

/-- The rules of a file; none when any part of it is invalid. -/
def readRules? (bytes : Utf8.Bytes) : Option (List Rule) := do
  let text ← Utf8.decode? bytes
  let rules ← ((lines (trimStart (· == byteOrderMark) text)).mapM readRule).toOption
  return rules.filterMap id

/-- Is a path ignored? The last rule that matches it decides. -/
def ignores (rules : List Rule) (path : Utf8.Bytes) (isDirectory : Bool) : Bool :=
  match rules.reverse.find? fun rule =>
      matchesPath rule.tokens path && (!rule.onlyDirectories || isDirectory) with
  | some rule => !rule.keeps
  | none => false

end CodeNav.Ignore
