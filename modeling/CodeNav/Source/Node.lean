import CodeNav.Text.Utf8

/-! Syntax trees as a parser hands them over: every node has a kind, the role it plays in its parent,
the row and byte offset where it starts, and the offset where it stops. Only the kinds and roles
that declarations are read from are told apart. -/
namespace CodeNav
set_option autoImplicit false
open Text

inductive Kind where
  | classLike
  | namespaceLike
  | variableStatement
  | variableDeclarator
  | expressionStatement
  | assignment
  | binary
  | member
  | functionDeclaration
  | functionValue
  | fieldDefinition
  | methodDefinition
  | methodSignature
  | object
  | pair
  | identifier
  | self
  | quoted
  | number
  | propertyName
  | comment
  | decorator
  | typedParameter
  | restPattern
  | assignmentPattern
  | typeLabel
  | other
  deriving DecidableEq, Repr

/-- The kind that a grammar's name for a node stands for. -/
def Kind.ofName (name : String) : Kind :=
  match name with
  | "class_declaration" | "abstract_class_declaration" | "class" => .classLike
  | "internal_module" | "module" => .namespaceLike
  | "lexical_declaration" | "variable_declaration" => .variableStatement
  | "variable_declarator" => .variableDeclarator
  | "expression_statement" => .expressionStatement
  | "assignment_expression" => .assignment
  | "binary_expression" => .binary
  | "member_expression" => .member
  | "function_declaration" | "generator_function_declaration" => .functionDeclaration
  | "function_expression" | "function" | "arrow_function" | "generator_function" => .functionValue
  | "public_field_definition" | "field_definition" => .fieldDefinition
  | "method_definition" => .methodDefinition
  | "method_signature" | "abstract_method_signature" => .methodSignature
  | "object" => .object
  | "pair" => .pair
  | "identifier" => .identifier
  | "this" => .self
  | "string" => .quoted
  | "number" => .number
  | "property_identifier" | "private_property_identifier" => .propertyName
  | "comment" => .comment
  | "decorator" => .decorator
  | "required_parameter" | "optional_parameter" => .typedParameter
  | "rest_pattern" => .restPattern
  | "assignment_pattern" => .assignmentPattern
  | "type_annotation" => .typeLabel
  | _ => .other

/-- What a node is to its parent. -/
inductive Role where
  | name
  | property
  | body
  | left
  | right
  | value
  | key
  | object
  | parameters
  | parameter
  | pattern
  | type
  | other
  deriving DecidableEq, Repr

def Role.ofName (name : String) : Role :=
  match name with
  | "name" => .name
  | "property" => .property
  | "body" => .body
  | "left" => .left
  | "right" => .right
  | "value" => .value
  | "key" => .key
  | "object" => .object
  | "parameters" => .parameters
  | "parameter" => .parameter
  | "pattern" => .pattern
  | "type" => .type
  | _ => .other

structure Label where
  kind : Kind
  role : Role
  row : Nat
  start : Nat
  stop : Nat
  deriving DecidableEq, Repr

inductive Node where
  | mk (label : Label) (children : List Node)

namespace Node

def label : Node → Label
  | mk label _ => label

def children : Node → List Node
  | mk _ children => children

def kind (n : Node) : Kind := n.label.kind

def role (n : Node) : Role := n.label.role

/-- The line on which the node starts, counted from one. -/
def line (n : Node) : UInt32 :=
  UInt32.ofNat n.label.row + 1

def child? (n : Node) (role : Role) : Option Node :=
  n.children.find? (·.role = role)

/-- The position among the children of the first one with the given role. -/
def childIndex? (n : Node) (role : Role) : Option Nat :=
  n.children.findIdx? (·.role = role)

end Node

/-- Source text as the bytes that node offsets count. -/
structure Source where
  bytes : Utf8.Bytes

namespace Source

def ofChars (cs : List Char) : Source :=
  ⟨Utf8.encode cs⟩

/-- The text between two offsets; empty when they cut a character. -/
def slice (source : Source) (start stop : Nat) : List Char :=
  (Utf8.decode? ((source.bytes.take stop).drop start)).getD []

def text (source : Source) (n : Node) : List Char :=
  source.slice n.label.start n.label.stop

def string (source : Source) (n : Node) : String :=
  String.ofList (source.text n)

end Source

end CodeNav
