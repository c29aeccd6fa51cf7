import CodeNav.Document.Bindings
import CodeNav.Symbol.Table

/-! What stands before a dot: the receiver of a member, and the type of the dotted path in front of
a position. -/
namespace CodeNav
set_option autoImplicit false
open Text

/-- The word right before the dot that ends a text. -/
def receiverWord? (text : List Char) : Option String :=
  match text.reverse with
  | '.' :: rest =>
    let word := (rest.takeWhile isWordChar).reverse
    if word.isEmpty then none else some (String.ofList word)
  | _ => none

/-- The dotted path right before the dot that ends a text. -/
def receiverPath? (text : List Char) : Option (List Char) :=
  match text.reverse with
  | '.' :: rest =>
    let path := (rest.takeWhile isPathChar).reverse
    if path.isEmpty then none else some path
  | _ => none

/-- A dotted path as the name of a symbol: the path itself where the first symbol that starts with it
holds it, else that symbol's name; empty where there is none. -/
def Table.symbolPath (table : Table) (path : List Char) : String :=
  match table.firstStartingWith? path with
  | some r => if occursIn path r.name.toList then String.ofList path else r.name
  | none => ""

/-- The type of the path before the position: that of a variable of this name, else the path as the
name of a symbol. -/
def Document.objectType (doc : Document) (pos : Position) (table : Table) (types : Bindings) :
    String :=
  match receiverPath? (doc.before pos) with
  | none => ""
  | some path =>
    match types.get? (String.ofList path) with
    | some type => type
    | none => table.symbolPath path

end CodeNav
