import CodeNav.Navigation.Lookup

/-! Ranking the records that a looked-up identifier may mean.

Every record whose name fits gets a grade. The candidates are listed with the preferred records
first, within them by grade, and otherwise in the order of the table. A single candidate, or a
single one of the best grade, is the target to go to without asking. -/
namespace CodeNav
set_option autoImplicit false
open Text

inductive Grade where
  | exact
  /-- A member of the receiver's type with another number of parameters. -/
  | typed
  | other
  deriving DecidableEq, Repr

/-- Ranked candidates, and the position among them of the one to go to. -/
structure Resolution where
  word : String
  arguments : Nat
  candidates : List Record
  target : Option Nat
  deriving DecidableEq, Repr

def Resolution.targetRecord? (r : Resolution) : Option Record :=
  r.target.bind fun index => r.candidates[index]?

namespace Lookup

variable (query : Lookup) (namespaces : List String)

/-- Does the name end with a dot and the word? -/
def endsWithMember (name word : String) : Bool :=
  ('.' :: word.toList).isSuffixOf name.toList

/-- The grade of a record, if it is a candidate at all. In a well-known namespace a member without
parameters always fits exactly. -/
def grade? (r : Record) : Option Grade :=
  let fits := r.arity.toNat == query.arguments
  let memberOf (owner : Option String) := owner.any (isMemberName r.name · query.word)
  if r.name = "" then none
  else if query.onInstance && memberOf query.enclosingClass then some .exact
  else if r.name = query.word && fits then some .exact
  else if query.dotted = some r.name then some .exact
  else if r.arity = 0 && namespaces.any (isMemberName r.name · query.word) then some .exact
  else if memberOf query.receiverType then some (if fits then .exact else .typed)
  else if r.name = query.word || endsWithMember r.name query.word then some .other
  else none

/-- On the instance, records of the same file come first, elsewhere those that mention the type of
the object. -/
def prefers (r : Record) : Bool :=
  if query.onInstance then r.file == query.file
  else occursIn query.objectType.toList r.name.toList

def graded (table : Table) (grade : Grade) : List Record :=
  table.filter (query.grade? namespaces · = some grade)

def candidates (table : Table) : List Record :=
  [true, false].flatMap fun preferred =>
    [Grade.exact, Grade.typed, Grade.other].flatMap fun grade =>
      (query.graded namespaces table grade).filter (query.prefers · == preferred)

def target? (table : Table) : Option Nat :=
  let exact := query.graded namespaces table .exact
  let all := query.candidates namespaces table
  if all.length = 1 then some 0
  else if query.onInstance && (exact.filter query.prefers).length == 1 then some 0
  else match exact with
    | [only] => all.idxOf? only
    | _ => none

def rank (table : Table) : Resolution :=
  { word := query.word
    arguments := query.arguments
    candidates := query.candidates namespaces table
    target := query.target? namespaces table }

end Lookup

/-- The candidates for the identifier at a position; nothing when there is none. -/
def Document.resolve? (doc : Document) (pos : Position) (namespaces : List String) (table : Table) :
    Option Resolution :=
  (Lookup.at? doc pos table).map (·.rank namespaces table)

end CodeNav
