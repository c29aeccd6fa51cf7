import CodeNav.Symbol.Record

/-! The line format of the index: `file,name,line,count,params`, where the parameters are tokens
`name:type` with a semicolon between neighbours.

Nothing is escaped. Writing therefore drops line breaks everywhere, turns semicolons of parameters
into commas and colons of parameter names into equal signs; an absent type is written as a
placeholder. Reading takes everything after the fourth comma as parameters, so a type may hold
commas and colons. -/
namespace CodeNav
set_option autoImplicit false
open Text

namespace Line

/-- What stands for an absent type. -/
def unknownType : List Char := "unknown".toList

def fieldSeparator : Char := ','

def tokenSeparator : Char := ';'

def typeMark : Char := ':'

def isLineBreak (c : Char) : Bool :=
  c == '\n' || c == '\r'

/-! ## Writing -/

def unbroken (cs : List Char) : List Char :=
  cs.filter (!isLineBreak ·)

def typeText (cs : List Char) : List Char :=
  replaceChar tokenSeparator ',' (unbroken cs)

def nameText (cs : List Char) : List Char :=
  replaceChar typeMark '=' (typeText cs)

def token (p : Parameter) : List Char :=
  nameText p.name.toList ++ typeMark ::
    (match p.type with
     | some type => typeText type.toList
     | none => unknownType)

def fields (r : Record) : List (List Char) :=
  [unbroken r.file.toList, unbroken r.name.toList, digits r.line.toNat, digits r.arity.toNat,
    joinWith tokenSeparator (r.params.map token)]

/-! ## Reading -/

/-- Why a line is no record. -/
inductive Fault where
  | fieldCount (count : Nat)
  | lineNumber (field : String)
  | paramCount (field : String)
  deriving DecidableEq, Repr

def readWord? (field : List Char) : Option UInt32 :=
  (readNumeral? (UInt32.size - 1) (trim field)).map UInt32.ofNat

/-- A token without a type mark is a name. -/
def parseToken (token : List Char) : Parameter :=
  match splitFirst? typeMark token with
  | some (name, type) =>
    if type = unknownType then ⟨String.ofList name, none⟩
    else ⟨String.ofList name, some (String.ofList type)⟩
  | none => ⟨String.ofList token, none⟩

def parseParams (raw : List Char) : List Parameter :=
  let text := trimEnd (· == '\r') raw
  if text.isEmpty then [] else (splitOn tokenSeparator text).map parseToken

def parseFields : List (List Char) → Except Fault Record
  | file :: name :: lineField :: countField :: tail =>
    match readWord? lineField with
    | none => .error (.lineNumber (String.ofList lineField))
    | some line =>
      match readWord? countField with
      | none => .error (.paramCount (String.ofList countField))
      | some arity =>
        .ok { file := String.ofList file, name := String.ofList name, line, arity,
              params := (tail.head?.map parseParams).getD [] }
  | fields => .error (.fieldCount fields.length)

def parse (line : List Char) : Except Fault Record :=
  parseFields (splitAtMost fieldSeparator 4 line)

end Line

/-- The record as one line of the index, without a line feed. -/
def Record.toLine (r : Record) : List Char :=
  joinWith Line.fieldSeparator (Line.fields r)

end CodeNav
