import CodeNav.Text.Basic

/-! Symbol records: one declared name, where it is declared, and the parameters it takes. -/
namespace CodeNav
set_option autoImplicit false
open Text

structure Parameter where
  name : String
  type : Option String := none
  deriving DecidableEq, Repr

/-- `name: type`, or the bare name when no type is known. -/
def Parameter.display (p : Parameter) : String :=
  match p.type with
  | some type => p.name ++ ": " ++ type
  | none => p.name

/-- A declaration in the index. `file` is relative to the workspace root, `name` is dotted, `line`
counts from one. The parameter count is a field of its own: an index line may state any number. -/
structure Record where
  file : String
  name : String
  line : UInt32
  arity : UInt32 := 0
  params : List Parameter := []
  deriving DecidableEq, Repr

namespace Record

def withParams (r : Record) (params : List Parameter) : Record :=
  { r with arity := UInt32.ofNat params.length, params := params }

/-- The part of the name after its last dot. -/
def shortName (r : Record) : String :=
  match splitLast? '.' r.name.toList with
  | some (_, last) => String.ofList last
  | none => r.name

/-- Parameters as they are shown to a reader: `a: number, b`. -/
def parameterList (params : List Parameter) : String :=
  ", ".intercalate (params.map Parameter.display)

def signature (r : Record) : String :=
  "(" ++ parameterList r.params ++ ")"

/-- The line of the declaration, counted from zero. -/
def lineIndex (r : Record) : Nat :=
  r.line.toNat - 1

end Record

end CodeNav
