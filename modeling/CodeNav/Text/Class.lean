import CodeNav.Text.Tables

/-! Classes of characters: blanks, word characters, name characters and identifier characters,
and the lower-case forms of characters and texts.

Three classes of "identifier-like" characters are kept apart, because the rules that read source
text use all three: word characters (letters, marks, digits, connectors), name characters (those
and the dollar sign), and identifier characters (letters, numerals, underscore, dollar sign), which
say where the identifier under a cursor starts and ends. -/
namespace CodeNav.Text
set_option autoImplicit false

def inRanges (ranges : List (Nat × Nat)) (code : Nat) : Bool :=
  ranges.any fun r => r.1 ≤ code && code ≤ r.2

def isBlank (c : Char) : Bool :=
  if c.toNat < 128 then (9 ≤ c.toNat && c.toNat ≤ 13) || c.toNat == 32
  else inRanges blankRanges c.toNat

def isAlphabetic (c : Char) : Bool :=
  if c.toNat < 128 then c.isAlpha else inRanges alphabeticRanges c.toNat

def isDecimal (c : Char) : Bool :=
  if c.toNat < 128 then c.isDigit else inRanges decimalRanges c.toNat

def isNumeral (c : Char) : Bool :=
  isDecimal c || (128 ≤ c.toNat && inRanges numberRanges c.toNat)

def isMark (c : Char) : Bool :=
  128 ≤ c.toNat && inRanges markRanges c.toNat

def isConnector (c : Char) : Bool :=
  c == '_' || (128 ≤ c.toNat && inRanges connectorRanges c.toNat)

/-- The two invisible characters that ask for or against joining their neighbours. -/
def isJoiner (c : Char) : Bool :=
  c.toNat == 0x200C || c.toNat == 0x200D

def isWordChar (c : Char) : Bool :=
  isAlphabetic c || isDecimal c || isConnector c || isMark c || isJoiner c

def isNameChar (c : Char) : Bool :=
  isWordChar c || c == '$'

def isIdentChar (c : Char) : Bool :=
  isAlphabetic c || isNumeral c || c == '_' || c == '$'

/-- Word characters and the dot: what a dotted type name is written with. -/
def isPathChar (c : Char) : Bool :=
  isWordChar c || c == '.'

def CaseRun.contains (r : CaseRun) (code : Nat) : Bool :=
  r.first ≤ code && code ≤ r.last && (code - r.first) % r.step == 0

/-- The lower-case form of one character. It is a single character, except that the capital I
with a dot above becomes a small i and a combining dot. -/
def lower (c : Char) : List Char :=
  if c.toNat < 128 then [c.toLower]
  else if c.toNat == 0x130 then ['i', Char.ofNat 0x307]
  else match lowerRuns.find? (·.contains c.toNat) with
    | some r => [Char.ofNat (c.toNat + r.shift).toNat]
    | none => [c]

def isCased (c : Char) : Bool :=
  if c.toNat < 128 then c.isAlpha else inRanges casedRanges c.toNat

def isCaseIgnorable (c : Char) : Bool :=
  if c.toNat < 128 then c ∈ ['\'', '.', ':', '^', Char.ofNat 0x60]
  else inRanges caseIgnorableRanges c.toNat

/-- Does a letter with a case come first, apart from characters that are passed over? -/
def startsCased (cs : List Char) : Bool :=
  (cs.dropWhile isCaseIgnorable).head?.any isCased

/-- The lower-case form of a text, given the text before it from its end. A capital sigma at the end
of a word becomes a final sigma. -/
def lowerAfter (before : List Char) : List Char → List Char
  | [] => []
  | c :: cs =>
    (if c == 'Σ' && startsCased before && !startsCased cs then ['ς'] else lower c) ++
      lowerAfter (c :: before) cs

def lowerAll (cs : List Char) : List Char :=
  lowerAfter [] cs

example : lowerAll "ΣΟΣ".toList = "σος".toList := by decide +kernel

end CodeNav.Text
