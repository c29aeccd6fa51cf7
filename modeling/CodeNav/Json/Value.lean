import CodeNav.Text.Basic

/-! JSON values and their two written forms: on one line without blanks, and spread over lines with
two blanks per level. An object keeps its fields in order and may repeat a key. -/
namespace CodeNav
set_option autoImplicit false
open Text

inductive Json where
  | null
  | bool (b : Bool)
  /-- A numeral without sign, fraction and exponent. -/
  | nat (n : Nat)
  /-- Any other number, as it is written. -/
  | number (text : List Char)
  /-- A text with an escape that stands for no character, or an object with such a key, as it is
  written. It may stand where nobody asks for its value. -/
  | unread (text : List Char)
  | str (s : String)
  | arr (items : List Json)
  | obj (fields : List (String × Json))

namespace Json

def ofOption (j : Option Json) : Json :=
  j.getD .null

def strings (items : List String) : Json :=
  .arr (items.map .str)

/-! ## Texts -/

def hexDigit (n : Nat) : Char :=
  if n < 10 then Char.ofNat (48 + n) else Char.ofNat (87 + n)

/-- Quotes, backslashes and control characters are escaped, everything else stands for itself. -/
def escaped (c : Char) : List Char :=
  if c == '"' then ['\\', '"']
  else if c == '\\' then ['\\', '\\']
  else if 32 ≤ c.toNat then [c]
  else if c.toNat == 8 then ['\\', 'b']
  else if c.toNat == 9 then ['\\', 't']
  else if c.toNat == 10 then ['\\', 'n']
  else if c.toNat == 12 then ['\\', 'f']
  else if c.toNat == 13 then ['\\', 'r']
  else ['\\', 'u', '0', '0', hexDigit (c.toNat / 16), hexDigit (c.toNat % 16)]

def quoted (s : String) : List Char :=
  '"' :: s.toList.flatMap escaped ++ ['"']

/-! ## One line -/

mutual

def compact : Json → List Char
  | .null => "null".toList
  | .bool true => "true".toList
  | .bool false => "false".toList
  | .nat n => digits n
  | .number text | .unread text => text
  | .str s => quoted s
  | .arr items => '[' :: compactItems items ++ [']']
  | .obj fields => '\x7b' :: compactFields fields ++ ['\x7d']

def compactItems : List Json → List Char
  | [] => []
  | [item] => compact item
  | item :: next :: items => compact item ++ ',' :: compactItems (next :: items)

def compactFields : List (String × Json) → List Char
  | [] => []
  | [(key, value)] => quoted key ++ ':' :: compact value
  | (key, value) :: next :: fields =>
    quoted key ++ ':' :: compact value ++ ',' :: compactFields (next :: fields)

end

/-! ## Many lines -/

/-- A line end and the indentation of the next line. -/
def newLine (level : Nat) : List Char :=
  '\n' :: List.replicate (2 * level) ' '

mutual

def prettyAt (level : Nat) : Json → List Char
  | .arr [] => ['[', ']']
  | .arr (item :: items) =>
    '[' :: prettyItems (level + 1) (item :: items) ++ newLine level ++ [']']
  | .obj [] => ['\x7b', '\x7d']
  | .obj (field :: fields) =>
    '\x7b' :: prettyFields (level + 1) (field :: fields) ++ newLine level ++ ['\x7d']
  | .null => "null".toList
  | .bool true => "true".toList
  | .bool false => "false".toList
  | .nat n => digits n
  | .number text | .unread text => text
  | .str s => quoted s

def prettyItems (level : Nat) : List Json → List Char
  | [] => []
  | [item] => newLine level ++ prettyAt level item
  | item :: next :: items =>
    newLine level ++ prettyAt level item ++ ',' :: prettyItems level (next :: items)

def prettyFields (level : Nat) : List (String × Json) → List Char
  | [] => []
  | [(key, value)] => newLine level ++ quoted key ++ ':' :: ' ' :: prettyAt level value
  | (key, value) :: next :: fields =>
    newLine level ++ quoted key ++ ':' :: ' ' :: prettyAt level value
      ++ ',' :: prettyFields level (next :: fields)

end

def pretty (j : Json) : List Char :=
  j.prettyAt 0

/-! ## Reading ahead -/

mutual

/-- Can the whole value be read and put aside, with at most `depth` levels of nesting? -/
def isReadable (depth : Nat) : Json → Bool
  | .unread _ => false
  | .arr items => 0 < depth && allReadable (depth - 1) items
  | .obj fields => 0 < depth && fieldsReadable (depth - 1) fields
  | _ => true

def allReadable (depth : Nat) : List Json → Bool
  | [] => true
  | item :: items => isReadable depth item && allReadable depth items

def fieldsReadable (depth : Nat) : List (String × Json) → Bool
  | [] => true
  | (_, value) :: fields => isReadable depth value && fieldsReadable depth fields

end

end Json

end CodeNav
