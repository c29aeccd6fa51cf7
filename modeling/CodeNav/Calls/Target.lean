import CodeNav.Document.ClassLine
import CodeNav.Document.Receiver

/-! The function that a search for calls is about: one that the cursor line declares, or a member
whose receiver names its namespace. -/
namespace CodeNav
set_option autoImplicit false
open Text Text.Scan

/-- A function and the namespace or class it belongs to. -/
structure Target where
  owner : String
  function : String
  deriving DecidableEq, Repr

def Target.title (t : Target) : String :=
  t.owner ++ "." ++ t.function

/-! ## Lines that declare a function -/

namespace DeclaringLine

/-- The start of the line, or a character that is not part of a name. -/
def outsideName : Scan Unit :=
  lineStart <|> do
    let _ ← char (!isNameChar ·)

/-- `word: function (`. -/
def functionProperty (word : List Char) : Scan Unit := do
  outsideName
  chars word
  blanks
  lit ":"
  blanks
  opt (do lit "async"; blanks1)
  lit "function"
  wordEdge
  blanks
  opt (lit "*")
  blanks
  lit "("

/-- `word(…) {` at the start of a line, after modifiers, with or without a result type. -/
def methodHead (word : List Char) : Scan Unit := do
  lineStart
  repeated (do oneOf ["static", "async", "public", "private", "protected"]; blanks1)
  opt (lit "*")
  chars word
  blanks
  lit "("
  skip (· != ')')
  lit ")"
  blanks
  opt (do lit ":"; skip1 (· != '\x7b'))
  lit "\x7b"

/-- `word = (…) =>` or `word: name =>`. -/
def arrowProperty (word : List Char) : Scan Unit := do
  outsideName
  chars word
  blanks
  let _ ← char fun c => c == ':' || c == '='
  blanks
  opt (do lit "async"; blanks)
  (do lit "("; skip (· != ')'); lit ")") <|> skip1 isNameChar
  blanks
  lit "=>"

def declares (word line : List Char) : Bool :=
  (functionProperty word).occurs line || (methodHead word).occurs line ||
    (arrowProperty word).occurs line

end DeclaringLine

/-! ## Blocks -/

namespace Block

def nameParts : Scan (List Char) :=
  text (do skip1 isNameChar; repeated (do lit "."; skip1 isNameChar))

/-- `path = {`. -/
def literalOpening : Scan (List Char) := do
  let path ← nameParts
  blanks
  lit "="
  blanks
  lit "\x7b"
  return path

/-- Does the first closing brace stand before a semicolon? -/
def closesAhead (rest : List Char) : Bool :=
  ['\x7d', ';'].isPrefixOf (rest.dropWhile (· != '\x7d'))

/-- The object that a line opens and does not close again. -/
def openedLiteral? (line : List Char) : Option String :=
  ((literalOpening.hits line).find? fun hit => !closesAhead (line.drop hit.stop)).map
    fun hit => String.ofList hit.value

def openedClass? (line : List Char) : Option String :=
  if line.contains '\x7b' then ClassLine.className? line else none

def openedName? (line : List Char) : Option String :=
  (openedLiteral? line).or (openedClass? line)

/-- The blocks open after a line, the innermost first; a plain block has no name. -/
def afterLine (blocks : List (Option String)) (line : List Char) : List (Option String) :=
  let braces := line.count '\x7b'
  let opened := match openedName? line with
    | some name => List.replicate (braces - 1) none ++ some name :: blocks
    | none => List.replicate braces none ++ blocks
  opened.drop (line.count '\x7d')

/-- The blocks open at the end of the given lines. -/
def afterLines (lines : List (List Char)) : List (Option String) :=
  lines.foldl (fun blocks line => afterLine blocks (trim line)) []

def innermost? (blocks : List (Option String)) : Option String :=
  blocks.findSome? id

end Block

/-! ## Targets -/

/-- The function that the line of the position declares under the word at the position, in the
innermost named block that is open after the line, or else in the one that the line opens. -/
def Document.declaredTarget? (doc : Document) (pos : Position) : Option Target := do
  let word ← doc.word? pos
  let line := trim (doc.line pos.line)
  if DeclaringLine.declares word.toList line then
    let owner ← (Block.innermost? (Block.afterLines (doc.lines.take (pos.line + 1)))).or
      (Block.openedName? line)
    return ⟨owner, word⟩
  else none

/-- The member that `receiver.word` names: the instance stands for the enclosing class, a variable
for its type, and any other receiver for itself. -/
def Document.memberTarget? (doc : Document) (start : Position) (word : String) : Option Target := do
  let receiver ← receiverWord? (doc.before start)
  if receiver = "this" then
    return ⟨← doc.enclosingClass? start.line, word⟩
  else
    return ⟨((Bindings.ofDocument doc).get? receiver).getD receiver, word⟩

end CodeNav
