import CodeNav.Source.Node
import CodeNav.Symbol.Record

/-! The parameters of a function node: their names as bound, and their stated types. -/
namespace CodeNav.Source
set_option autoImplicit false
open Text

def collapsed (source : Source) (n : Node) : String :=
  String.ofList (collapseBlanks (source.text n))

/-- Drops every leading group of three dots. -/
def dropEllipses : List Char → List Char
  | '.' :: '.' :: '.' :: rest => dropEllipses rest
  | cs => cs

mutual

/-- The name that a pattern binds. A rest pattern binds what is inside it, a pattern with a default
value what stands to the left, and a destructuring pattern is named by its own text. -/
def bindingName (source : Source) : Node → String
  | .mk label children =>
    match label.kind with
    | .identifier | .self => source.string (.mk label children)
    | .restPattern =>
      match children with
      | inner :: _ => bindingName source inner
      | [] => String.ofList (dropEllipses (source.text (.mk label children)))
    | .assignmentPattern =>
      match leftBindingName? source children with
      | some name => name
      | none => source.collapsed (.mk label children)
    | _ => source.collapsed (.mk label children)

def leftBindingName? (source : Source) : List Node → Option String
  | [] => none
  | n :: ns => if n.role = .left then some (bindingName source n) else leftBindingName? source ns

end

/-- The type that a type label states, without the colon in front of it. -/
def statedType (source : Source) (noted : Node) : String :=
  match noted.kind, noted.children with
  | .typeLabel, type :: _ => source.string type
  | _, _ => String.ofList (trim (trimStart (· == ':') (source.text noted)))

def parameter (source : Source) (n : Node) : Parameter :=
  match n.kind with
  | .typedParameter =>
    { name := match n.child? .pattern with
        | some pattern => source.bindingName pattern
        | none => source.collapsed n
      type := ((n.child? .type).map source.statedType).filter (· != "") }
  | _ => { name := source.bindingName n }

/-- The parameters of a function: those of its list, or the single one of a bare arrow function. -/
def parameters (source : Source) (function : Node) : List Parameter :=
  match function.child? .parameters with
  | some list =>
    (list.children.filter fun n => n.kind != .comment && n.kind != .decorator).map source.parameter
  | none =>
    match function.child? .parameter with
    | some single => [{ name := source.bindingName single }]
    | none => []

end CodeNav.Source
