import CodeNav.Source.Declaration
import CodeNav.Source.Parameters

/-! Reading the declarations off a syntax tree.

The walk visits the nodes in preorder and carries the lexical scope, which grows inside classes and
namespaces. A class field is reported once per dotted name, and so is a function; the names already
reported are the only state of the walk. -/
namespace CodeNav.Source
set_option autoImplicit false
open Text

/-- The place of a node: its parent, and its position among the children of the parent. -/
structure Site where
  parent : Node
  index : Nat

def Site.plays (site : Site) (role : Role) : Bool :=
  site.parent.childIndex? role == some site.index

/-- The dotted names of the fields and of the functions reported so far. -/
structure Seen where
  fields : List String := []
  functions : List String := []

/-! ## Assignment targets -/

mutual

/-- The dotted path of a chain of member accesses, and whether the chain starts at the instance. -/
def memberChain (source : Source) : Node → List String × Bool
  | .mk label children =>
    match label.kind with
    | .member =>
      let (inner, onInstance) := objectChain source children
      let own := ((Node.mk label children).child? .property).map source.string
      (inner ++ own.toList, onInstance)
    | .identifier => ([source.string (.mk label children)], false)
    | .self => ([], true)
    | _ => ([], false)

def objectChain (source : Source) : List Node → List String × Bool
  | [] => ([], false)
  | n :: ns => if n.role = .object then memberChain source n else objectChain source ns

end

/-- The scope and path that an assignment to `target` declares. A plain name stays in the current
scope, a chain from a name is absolute, and a chain from the instance belongs to the scope. -/
def assignmentTarget? (source : Source) (scope : List String) (target : Node) :
    Option (List String × List String) :=
  match target.kind with
  | .identifier => some (scope, [source.string target])
  | .member =>
    let (chain, onInstance) := source.memberChain target
    if chain.isEmpty then none else some (if onInstance then scope else [], chain)
  | _ => none

/-! ## Object literals -/

/-- The text of a key. Computed keys have none. -/
def keyText? (source : Source) (key : Node) : Option String :=
  match key.kind with
  | .propertyName | .number => some (source.string key)
  | .quoted =>
    let isQuote := fun c => c == '"' || c == '\''
    let name := trimEnd isQuote (trimStart isQuote (source.text key))
    if name.isEmpty then none else some (String.ofList name)
  | _ => none

def objectMember (source : Source) (scope path : List String) (property function : Node) :
    Declaration :=
  { scope, form := .objectMember path, line := property.line,
    params := some (source.parameters function) }

mutual

/-- The members of an object literal bound to `path`: its functions, and those of the literals
nested in it, below the longer path. -/
def literalMembers (source : Source) (scope path : List String) : Node → List Declaration
  | .mk _ children => propertiesMembers source scope path children

def propertiesMembers (source : Source) (scope path : List String) :
    List Node → List Declaration
  | [] => []
  | p :: ps => propertyMembers source scope path p ++ propertiesMembers source scope path ps

def propertyMembers (source : Source) (scope path : List String) : Node → List Declaration
  | .mk label children =>
    match label.kind with
    | .pair =>
      match ((Node.mk label children).child? .key).bind source.keyText? with
      | some key => valueMembers source scope (path ++ [key]) (.mk label children) children
      | none => []
    | .methodDefinition =>
      match ((Node.mk label children).child? .name).bind source.keyText? with
      | some key =>
        [source.objectMember scope (path ++ [key]) (.mk label children) (.mk label children)]
      | none => []
    | _ => []

/-- What the value of a property declares; the value is the first child in that role. -/
def valueMembers (source : Source) (scope path : List String) (property : Node) :
    List Node → List Declaration
  | [] => []
  | n :: ns =>
    if n.role = .value then
      if n.kind = .functionValue then [source.objectMember scope path property n]
      else if n.kind = .object then literalMembers source scope path n
      else []
    else valueMembers source scope path property ns

end

/-! ## Single nodes -/

/-- A class is called by its own name, else by the target it is assigned to, else it is anonymous. -/
def classForm (source : Source) (site : Option Site) (scope : List String) (node : Node) :
    List String × Form :=
  match node.child? .name with
  | some name => (scope, .namedClass (source.string name))
  | none => (targetForm?).getD (scope, .namedClass anonymousClass)
where
  targetForm? : Option (List String × Form) := do
    let site ← site
    match site.parent.kind with
    | .assignment =>
      if site.plays .right then
        let left ← site.parent.child? .left
        let (base, path) ← source.assignmentTarget? scope left
        return (base, .assignedClass path)
      else none
    | .variableDeclarator =>
      let name ← site.parent.child? .name
      if name.kind = .identifier then return (scope, .assignedClass [source.string name]) else none
    | _ => none

/-- The members in the body of a class whose dotted path is `path`. -/
def classMembers (source : Source) (path : List String) :
    List Node → Seen → List Declaration × Seen
  | [], seen => ([], seen)
  | member :: members, seen =>
    let declared (name : Node) (params : Option (List Parameter)) : Declaration :=
      { scope := path, form := .classMember (source.string name), line := member.line, params }
    match member.kind with
    | .fieldDefinition =>
      match (member.child? .name).or (member.child? .property) with
      | none => source.classMembers path members seen
      | some name =>
        let full := joinDots (path ++ [source.string name])
        if full ∈ seen.fields then source.classMembers path members seen
        else
          let (others, after) :=
            source.classMembers path members { seen with fields := full :: seen.fields }
          (declared name none :: others, after)
    | .methodDefinition | .methodSignature =>
      match member.child? .name with
      | none => source.classMembers path members seen
      | some name =>
        let (others, after) := source.classMembers path members seen
        (declared name (some (source.parameters member)) :: others, after)
    | _ => source.classMembers path members seen

/-- What a node declares by itself, and the scope for the nodes inside it. -/
structure Entry where
  declared : List Declaration
  inner : List String
  seen : Seen

def enterClass (source : Source) (site : Option Site) (scope : List String) (node : Node)
    (seen : Seen) : Entry :=
  let (base, form) := source.classForm site scope node
  let path := base ++ form.segments
  let own : Declaration := { scope := base, form, line := node.line, params := none }
  match node.child? .body with
  | none => ⟨[own], path, seen⟩
  | some body =>
    let (members, after) := source.classMembers path body.children seen
    ⟨own :: members, path, after⟩

/-- A namespace adds the segments of its name; one named by a quoted text adds nothing. -/
def namespaceScope (source : Source) (scope : List String) (node : Node) : List String :=
  match node.child? .name with
  | none => scope
  | some name =>
    if name.kind = .quoted then scope
    else scope ++ (splitOn '.' (source.text name)).map fun part => String.ofList (trim part)

/-- The members of the object literal that a declarator binds. Where the value combines a name and
a literal, as in `a = a || {…}`, the members belong to that name. -/
def declaratorMembers (source : Source) (scope : List String) (declarator : Node) :
    List Declaration :=
  if declarator.kind ≠ .variableDeclarator then []
  else match declarator.child? .value with
    | none => []
    | some value =>
      match value.kind with
      | .object =>
        match declarator.child? .name with
        | some name =>
          if name.kind = .identifier then source.literalMembers scope [source.string name] value
          else []
        | none => []
      | .binary | .assignment =>
        match value.child? .left, value.child? .right with
        | some left, some right =>
          if left.kind = .identifier ∧ right.kind = .object then
            source.literalMembers scope [source.string left] right
          else []
        | _, _ => []
      | _ => []

/-- An assignment to a dotted path declares that path, after the members of an assigned literal. -/
def statementDeclarations (source : Source) (scope : List String) (node : Node) :
    List Declaration :=
  match node.children with
  | [] => []
  | expression :: _ =>
    if expression.kind ≠ .assignment then []
    else match expression.child? .left, expression.child? .right with
      | some left, some right =>
        if left.kind ≠ .member then []
        else match source.assignmentTarget? scope left with
          | none => []
          | some (base, path) =>
            let members :=
              if right.kind = .object then source.literalMembers base path right else []
            let params :=
              if right.kind = .functionValue then some (source.parameters right) else none
            members ++ [{ scope := base, form := .dottedAssignment path, line := node.line, params }]
      | _, _ => []

def enterFunction (source : Source) (scope : List String) (node : Node) (name : Option Node)
    (seen : Seen) : Entry :=
  match name with
  | none => ⟨[], scope, seen⟩
  | some name =>
    let full := joinDots (scope ++ [source.string name])
    if full ∈ seen.functions then ⟨[], scope, seen⟩
    else
      ⟨[{ scope, form := .function (source.string name), line := node.line,
          params := some (source.parameters node) }],
        scope, { seen with functions := full :: seen.functions }⟩

/-- The name of the variable that a function value is bound to. -/
def boundName? (site : Option Site) : Option Node := do
  let site ← site
  if site.parent.kind = .variableDeclarator ∧ site.plays .value = true then
    let name ← site.parent.child? .name
    if name.kind = .identifier then some name else none
  else none

def enter (source : Source) (site : Option Site) (scope : List String) (node : Node)
    (seen : Seen) : Entry :=
  match node.kind with
  | .classLike => source.enterClass site scope node seen
  | .namespaceLike => ⟨[], source.namespaceScope scope node, seen⟩
  | .variableStatement => ⟨node.children.flatMap (source.declaratorMembers scope), scope, seen⟩
  | .expressionStatement => ⟨source.statementDeclarations scope node, scope, seen⟩
  | .functionDeclaration => source.enterFunction scope node (node.child? .name) seen
  | .functionValue => source.enterFunction scope node (boundName? site) seen
  | _ => ⟨[], scope, seen⟩

/-! ## The walk -/

mutual

def visit (source : Source) (site : Option Site) (scope : List String) :
    Node → Seen → List Declaration × Seen
  | .mk label children, seen =>
    let entry := source.enter site scope (.mk label children) seen
    let (below, after) := visitAll source (.mk label children) 0 entry.inner children entry.seen
    (entry.declared ++ below, after)

def visitAll (source : Source) (parent : Node) (index : Nat) (scope : List String) :
    List Node → Seen → List Declaration × Seen
  | [], seen => ([], seen)
  | n :: ns, seen =>
    let (here, between) := visit source (some ⟨parent, index⟩) scope n seen
    let (later, after) := visitAll source parent (index + 1) scope ns between
    (here ++ later, after)

end

/-- The declarations of a tree, in the order of the walk. -/
def declarations (source : Source) (tree : Node) : List Declaration :=
  (source.visit none [] tree {}).1

/-! ## Records -/

/-- Keeps what the index can hold: no name with a comma, and each name once per line. -/
def indexable (seen : List (String × UInt32)) : List Declaration → List Declaration
  | [] => []
  | d :: ds =>
    let key := (d.qualifiedName, d.line)
    if hasChar ',' d.qualifiedName || key ∈ seen then indexable seen ds
    else d :: indexable (key :: seen) ds

def records (source : Source) (file : String) (tree : Node) : List Record :=
  (indexable [] (source.declarations tree)).map (Declaration.toRecord file)

end CodeNav.Source
