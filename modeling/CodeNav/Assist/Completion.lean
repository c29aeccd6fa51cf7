import CodeNav.Document.Receiver

/-! Completions after a dot: the members of the object before it. -/
namespace CodeNav
set_option autoImplicit false
open Text

inductive Completion.Kind where
  | method
  /-- A symbol with members of its own. -/
  | namespaced
  deriving DecidableEq, Repr

structure Completion where
  label : String
  kind : Completion.Kind
  detail : Option String
  deriving DecidableEq, Repr

namespace Completion

/-- What is left of a record's name below the type. -/
def memberPath? (type : String) (r : Record) : Option (List Char) :=
  dropPrefix? (type.toList ++ ['.']) r.name.toList

/-- The records below a type, each with the rest of its name. -/
def below (type : String) (table : Table) : List (List Char × Record) :=
  table.filterMap fun r => (memberPath? type r).map fun path => (path, r)

/-- The direct members, or everything below the type when it has none. -/
def offered (members : List (List Char × Record)) : List (List Char × Record) :=
  let direct := members.filter (!·.1.contains '.')
  if direct.isEmpty then members else direct

/-- The names that some record lies directly below. -/
def owners (members : List (List Char × Record)) : List String :=
  members.filterMap fun m => (splitLast? '.' m.2.name.toList).map fun parts => String.ofList parts.1

def ofRecord (owners : List String) (label : List Char) (r : Record) : Completion :=
  { label := String.ofList label
    kind := if r.name ∈ owners then .namespaced else .method
    detail := if r.params.isEmpty then none else some r.signature }

/-- Every label once, at its first occurrence; an empty one is no label. -/
def distinct (owners : List String) (seen : List (List Char)) :
    List (List Char × Record) → List Completion
  | [] => []
  | (label, r) :: rest =>
    if label.isEmpty || label ∈ seen then distinct owners seen rest
    else ofRecord owners label r :: distinct owners (label :: seen) rest

end Completion

def Document.completions (doc : Document) (pos : Position) (table : Table) : List Completion :=
  if (doc.before pos).getLast? ≠ some '.' then []
  else
    let type := doc.objectType pos table (Bindings.ofDocument doc)
    if type = "" then []
    else
      let members := Completion.below type table
      Completion.distinct (Completion.owners members) [] (Completion.offered members)

end CodeNav
