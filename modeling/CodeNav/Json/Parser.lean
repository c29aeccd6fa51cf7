import CodeNav.Json.Value

/-! Reading JSON: exactly one value, with blanks around it. -/
namespace CodeNav.Json
set_option autoImplicit false
open Text

def isSpace (c : Char) : Bool :=
  c == ' ' || c == '\n' || c == '\t' || c == '\r'

def skipSpace (cs : List Char) : List Char :=
  cs.dropWhile isSpace

/-! ## Texts -/

def hexValue? (c : Char) : Option Nat :=
  if '0' ≤ c && c ≤ '9' then some (c.toNat - 48)
  else if 'a' ≤ c && c ≤ 'f' then some (c.toNat - 87)
  else if 'A' ≤ c && c ≤ 'F' then some (c.toNat - 55)
  else none

/-- Four hexadecimal digits, and what follows. -/
def hex4? : List Char → Option (Nat × List Char)
  | a :: b :: c :: d :: rest => do
    let n := 4096 * (← hexValue? a) + 256 * (← hexValue? b) + 16 * (← hexValue? c) + (← hexValue? d)
    return (n, rest)
  | _ => none

def isHighHalf (n : Nat) : Bool := 0xD800 ≤ n && n ≤ 0xDBFF

def isLowHalf (n : Nat) : Bool := 0xDC00 ≤ n && n ≤ 0xDFFF

/-- The character of a numeric escape, which may take two of them; none for half of a pair without
the other half. -/
def numericEscape? (cs : List Char) : Option (Option Char × List Char) := do
  let (n, rest) ← hex4? cs
  if isHighHalf n then
    match rest with
    | '\\' :: 'u' :: more =>
      let (low, after) ← hex4? more
      if isLowHalf low then
        return (some (Char.ofNat (0x10000 + 1024 * (n - 0xD800) + (low - 0xDC00))), after)
      else return (none, rest)
    | _ => return (none, rest)
  else if isLowHalf n then return (none, rest)
  else return (some (Char.ofNat n), rest)

def simpleEscape? (c : Char) : Option Char :=
  match c with
  | '"' => some '"'
  | '\\' => some '\\'
  | '/' => some '/'
  | 'b' => some (Char.ofNat 8)
  | 'f' => some (Char.ofNat 12)
  | 'n' => some '\n'
  | 'r' => some '\r'
  | 't' => some '\t'
  | _ => none

/-- The characters of a text after its opening quote, and what follows the closing one. -/
def textFrom : Nat → List Char → Option (List (Option Char) × List Char)
  | 0, _ => none
  | _, [] => none
  | fuel + 1, c :: cs =>
    if c == '"' then some ([], cs)
    else if c == '\\' then
      match cs with
      | 'u' :: rest => do
        let (char, after) ← numericEscape? rest
        let (text, remaining) ← textFrom fuel after
        return (char :: text, remaining)
      | e :: rest => do
        let char ← simpleEscape? e
        let (text, remaining) ← textFrom fuel rest
        return (some char :: text, remaining)
      | [] => none
    else if c.toNat < 32 then none
    else do
      let (text, remaining) ← textFrom fuel cs
      return (some c :: text, remaining)

/-- The string of a text all of whose characters are there. -/
def string? (text : List (Option Char)) : Option String :=
  (text.mapM id).map String.ofList

/-! ## Numbers -/

/-- One or more digits. -/
def digits? (cs : List Char) : Option (List Char × List Char) :=
  let found := cs.takeWhile Char.isDigit
  if found.isEmpty then none else some (found, cs.dropWhile Char.isDigit)

/-- Digits without a superfluous zero in front. -/
def whole? (cs : List Char) : Option (List Char × List Char) := do
  let (found, rest) ← digits? cs
  if found.head? == some '0' && 1 < found.length then none else return (found, rest)

/-- A fraction, if there is one. -/
def fraction? (cs : List Char) : Option (List Char × List Char) :=
  match cs with
  | '.' :: rest => (digits? rest).map fun (found, after) => ('.' :: found, after)
  | _ => some ([], cs)

/-- An exponent, if there is one. -/
def exponent? (cs : List Char) : Option (List Char × List Char) :=
  match cs with
  | e :: rest =>
    if e == 'e' || e == 'E' then
      match rest with
      | sign :: more =>
        if sign == '+' || sign == '-' then
          (digits? more).map fun (found, after) => (e :: sign :: found, after)
        else (digits? rest).map fun (found, after) => (e :: found, after)
      | [] => none
    else some ([], cs)
  | [] => some ([], [])

def number? (cs : List Char) : Option (Json × List Char) := do
  let (sign, unsigned) := match cs with
    | '-' :: rest => (['-'], rest)
    | _ => ([], cs)
  let (found, afterWhole) ← whole? unsigned
  let (fraction, afterFraction) ← fraction? afterWhole
  let (exponent, after) ← exponent? afterFraction
  if sign.isEmpty && fraction.isEmpty && exponent.isEmpty then
    return (.nat (numeralValue found), after)
  else return (.number (sign ++ found ++ fraction ++ exponent), after)

/-! ## Values -/

def word? (word : String) (value : Json) (cs : List Char) : Option (Json × List Char) :=
  (dropPrefix? word.toList cs).map fun rest => (value, rest)

/-- What was read of a text when `rest` is left of it. -/
def written (text rest : List Char) : List Char :=
  text.take (text.length - rest.length)

/-- An object, unless a key of it cannot be read. -/
def objectOf (text : List Char) (fields : List (Option String × Json)) : Json :=
  match fields.mapM fun (key, value) => key.map (·, value) with
  | some named => .obj named
  | none => .unread text

mutual

def value? : Nat → List Char → Option (Json × List Char)
  | 0, _ => none
  | fuel + 1, text =>
    match skipSpace text with
    | [] => none
    | c :: cs =>
      if c == '"' then
        (textFrom (cs.length + 1) cs).map fun (chars, rest) =>
          (((string? chars).map .str).getD (.unread (written (c :: cs) rest)), rest)
      else if c == '[' then
        match skipSpace cs with
        | ']' :: rest => some (.arr [], rest)
        | _ => (items? fuel cs).map fun (items, rest) => (.arr items, rest)
      else if c == '\x7b' then
        match skipSpace cs with
        | '\x7d' :: rest => some (.obj [], rest)
        | _ => (fields? fuel cs).map fun (fields, rest) =>
          (objectOf (written (c :: cs) rest) fields, rest)
      else if c == 'n' then word? "null" .null (c :: cs)
      else if c == 't' then word? "true" (.bool true) (c :: cs)
      else if c == 'f' then word? "false" (.bool false) (c :: cs)
      else number? (c :: cs)

/-- One item or more, up to the closing bracket. -/
def items? : Nat → List Char → Option (List Json × List Char)
  | 0, _ => none
  | fuel + 1, text => do
    let (item, rest) ← value? fuel text
    match skipSpace rest with
    | ',' :: more =>
      let (items, after) ← items? fuel more
      return (item :: items, after)
    | ']' :: after => return ([item], after)
    | _ => none

/-- One field or more, up to the closing brace. -/
def fields? : Nat → List Char → Option (List (Option String × Json) × List Char)
  | 0, _ => none
  | fuel + 1, text =>
    match skipSpace text with
    | '"' :: cs => do
      let (key, afterKey) ← textFrom (cs.length + 1) cs
      match skipSpace afterKey with
      | ':' :: afterColon =>
        let (value, rest) ← value? fuel afterColon
        match skipSpace rest with
        | ',' :: more =>
          let (fields, after) ← fields? fuel more
          return ((string? key, value) :: fields, after)
        | '\x7d' :: after => return ([(string? key, value)], after)
        | _ => none
      | _ => none
    | _ => none

end

/-- Two steps are enough for every character of a text. -/
def parse? (text : List Char) : Option Json := do
  let (value, rest) ← value? (2 * text.length + 2) text
  if (skipSpace rest).isEmpty then some value else none

/-! ## Looking inside -/

def natBelow? (bound : Nat) : Json → Option Nat
  | .nat n => if n < bound then some n else none
  | _ => none

/-- A number of 64 bits without a sign. -/
def word64? (j : Json) : Option Nat :=
  j.natBelow? UInt64.size

def str? : Json → Option String
  | .str s => some s
  | _ => none

def bool? : Json → Option Bool
  | .bool b => some b
  | _ => none

def strings? : Json → Option (List String)
  | .arr items => items.mapM str?
  | _ => none

/-- The value of a key that an object has at most once. -/
def field? (fields : List (String × Json)) (key : String) : Option (Option Json) :=
  match fields.filter (·.1 == key) with
  | [] => some none
  | [(_, value)] => some (some value)
  | _ => none

/-- The values of the given keys in an object; other keys do not matter, repeated ones do. -/
def namedFields? (keys : List String) : Json → Option (List (Option Json))
  | .obj fields => keys.mapM (field? fields)
  | _ => none

/-- The values of the given keys in an object, or the items of an array in the order of the keys,
where those at the end may be missing. -/
def structFields? (keys : List String) (j : Json) : Option (List (Option Json)) :=
  match j with
  | .arr items =>
    if items.length ≤ keys.length then
      some (items.map some ++ List.replicate (keys.length - items.length) none)
    else none
  | _ => j.namedFields? keys

end CodeNav.Json
