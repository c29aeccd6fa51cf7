import CodeNav.Document.Receiver

/-! Signature help: the parameters of the method whose argument list is being typed. -/
namespace CodeNav
set_option autoImplicit false
open Text Text.Scan

structure Signature where
  label : String
  parameters : List String
  /-- The parameter being typed; none when the method takes none. -/
  active : Option Nat
  deriving DecidableEq, Repr

namespace Signature

/-- An open call: the dotted receiver, the method, and the arguments typed so far. -/
structure OpenCall where
  receiver : List Char
  method : List Char
  typed : List Char

def wordPath : Scan (List Char) :=
  text (do skip1 isWordChar; repeated (do lit "."; skip1 isWordChar))

/-- `receiver.method(…`. -/
def openCall : Scan OpenCall := do
  let receiver ← wordPath
  lit "."
  let method ← run1 isWordChar
  blanks
  lit "("
  let typed ← rest
  return ⟨receiver, method, typed⟩

/-- The help for a call of `method` with the parameters of `r`: commas typed so far say which
parameter is next, and the last one stays active. -/
def ofRecord (method typed : List Char) (r : Record) : Signature :=
  { label := String.ofList method ++ "(" ++ Record.parameterList r.params ++ ")"
    parameters := r.params.map Parameter.display
    active := if r.params.isEmpty then none
      else some (min (typed.count ',') (r.params.length - 1)) }

end Signature

def Document.signature? (doc : Document) (pos : Position) (table : Table) : Option Signature := do
  let call := (← Signature.openCall.first? (doc.before pos)).value
  let receiver := String.ofList call.receiver
  let owner := ((Bindings.ofDocument doc).get? receiver).getD receiver
  let record ← table.findByName? (owner ++ "." ++ String.ofList call.method)
  return Signature.ofRecord call.method call.typed record

end CodeNav
