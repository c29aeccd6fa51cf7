import CodeNav.Proofs.Source.FirstDeclarations
import CodeNav.Proofs.Source.Places

/-! The walk through a tree against a rule for each of its places. A place has a scope, which the
classes and namespaces above it give, and declares something by itself; what all places declare, one
after the other, is the raw list. The walk gives this list without the functions and fields that
repeat a name. -/
namespace CodeNav.Source
set_option autoImplicit false
open Text

variable (source : Source)

/-! ## The rule -/

/-- The child there is the first one of its parent in the role. -/
def Site.Fills (site : Site) (role : Role) : Prop :=
  (site.parent.children.map Node.role)[site.index]? = some role ∧
    role ∉ (site.parent.children.map Node.role).take site.index

instance (site : Site) (role : Role) : Decidable (site.Fills role) :=
  inferInstanceAs (Decidable (_ ∧ _))

/-- The parent of a node that is the child of its parent in the role. -/
def parentAs? (role : Role) (site : Option Site) : Option Node :=
  (site.filter fun site => site.Fills role).map Site.parent

/-- The plain name of the variable that is declared. -/
def declaredName? (declarator : Node) : Option Node :=
  if declarator.kind = .variableDeclarator then
    (declarator.child? .name).filter (·.kind = .identifier)
  else none

/-- The name of the variable whose value a node is. -/
def valueName? (site : Option Site) : Option Node :=
  (parentAs? .value site).bind declaredName?

/-- The scope and path that a class takes from its parent: those of the target that it is assigned
to, or the variable in whose declaration it stands. -/
def givenPath? (site : Option Site) (scope : List String) : Option (List String × List String) :=
  let assignment := (parentAs? .right site).filter (·.kind = .assignment)
  let target := (assignment.bind (·.child? .left)).bind (source.assignmentTarget? scope)
  let name := (site.map Site.parent).bind declaredName?
  target.or (name.map fun name => (scope, [source.string name]))

/-- The scope and the form of a class: by its own name, else by what its parent gives. -/
def classHead (site : Option Site) (scope : List String) (node : Node) : List String × Form :=
  match node.child? .name, source.givenPath? site scope with
  | some name, _ => (scope, .namedClass (source.string name))
  | none, some (base, path) => (base, .assignedClass path)
  | none, none => (scope, .namedClass anonymousClass)

/-- The scope for the nodes inside a node. A class replaces the scope by its own path, a namespace
adds the segments of its name, unless this is a quoted text. -/
def scopeInside (site : Option Site) (scope : List String) (node : Node) : List String :=
  match node.kind with
  | .classLike =>
    let (base, form) := source.classHead site scope node
    base ++ form.segments
  | .namespaceLike =>
    match (node.child? .name).filter (·.kind ≠ .quoted) with
    | some name => scope ++ (splitOn '.' (source.text name)).map (String.ofList ∘ trim)
    | none => scope
  | _ => scope

/-- The scope of a place, by the sites from there up. -/
def scopeAt : List Site → List String
  | [] => []
  | site :: above => source.scopeInside above.head? (scopeAt above) site.parent

def classMember? (path : List String) (member : Node) : Option Declaration :=
  let declared (params : Option (List Parameter)) (name : Node) : Declaration :=
    { scope := path, form := .classMember (source.string name), line := member.line, params }
  match member.kind with
  | .fieldDefinition => ((member.child? .name).or (member.child? .property)).map (declared none)
  | .methodDefinition | .methodSignature =>
    (member.child? .name).map (declared (some (source.parameters member)))
  | _ => none

/-- A class, and behind it its members. -/
def classDeclarations (site : Option Site) (scope : List String) (node : Node) :
    List Declaration :=
  let (base, form) := source.classHead site scope node
  let body := (node.child? .body).toList.flatMap Node.children
  { scope := base, form, line := node.line, params := none } ::
    body.filterMap (source.classMember? (base ++ form.segments))

/-- The path and the literal that a declarator binds. -/
def boundLiteral? (declarator : Node) : Option (List String × Node) :=
  if declarator.kind = .variableDeclarator then do
    let value ← declarator.child? .value
    let (name, object) ← match value.kind with
      | .object => (declarator.child? .name).map (·, value)
      | .binary | .assignment => do
        let left ← value.child? .left
        let right ← value.child? .right
        some (left, right)
      | _ => none
    if name.kind = .identifier ∧ object.kind = .object then some ([source.string name], object)
    else none
  else none

/-- The scope, the path and the value of an assignment to a dotted path. -/
def dottedAssignment? (scope : List String) (statement : Node) :
    Option (List String × List String × Node) := do
  let expression ← statement.children.head?
  if expression.kind = .assignment then
    let left ← expression.child? .left
    let right ← expression.child? .right
    if left.kind = .member then
      let (base, path) ← source.assignmentTarget? scope left
      some (base, path, right)
    else none
  else none

/-- The members of an assigned literal, and behind them the assignment. -/
def assignmentDeclarations (statement : Node) (base path : List String) (value : Node) :
    List Declaration :=
  (if value.kind = .object then source.membersBelow base path value else []) ++
    [{ scope := base, form := .dottedAssignment path, line := statement.line,
       params := if value.kind = .functionValue then some (source.parameters value) else none }]

def functionNamed (scope : List String) (node name : Node) : Declaration :=
  { scope, form := .function (source.string name), line := node.line,
    params := some (source.parameters node) }

/-- What a node declares by itself. -/
def declared (site : Option Site) (scope : List String) (node : Node) : List Declaration :=
  match node.kind with
  | .classLike => source.classDeclarations site scope node
  | .variableStatement =>
    (node.children.filterMap source.boundLiteral?).flatMap fun bound =>
      source.membersBelow scope bound.1 bound.2
  | .expressionStatement =>
    (source.dottedAssignment? scope node).toList.flatMap fun assigned =>
      source.assignmentDeclarations node assigned.1 assigned.2.1 assigned.2.2
  | .functionDeclaration => (node.child? .name).toList.map (source.functionNamed scope node)
  | .functionValue => (valueName? site).toList.map (source.functionNamed scope node)
  | _ => []

def declaredAt (p : Place) : List Declaration :=
  source.declared p.above.head? (source.scopeAt p.above) p.node

/-- What the places of a tree declare, in preorder. -/
def rawDeclarations (tree : Node) : List Declaration :=
  (tree.places []).flatMap source.declaredAt

/-! ## What the walk looks up -/

theorem plays_iff (site : Site) (role : Role) : site.plays role = true ↔ site.Fills role := by
  rw [Site.plays, beq_iff_eq, Node.childIndex?, Site.Fills]
  generalize site.parent.children = children
  generalize site.index = index
  induction children generalizing index with
  | nil => simp
  | cons n ns ih =>
    rw [List.findIdx?_cons, List.map_cons]
    cases index with
    | zero => by_cases h : n.role = role <;> simp [h]
    | succ index =>
      by_cases h : n.role = role
      · simp [h]
      · simp [h, Ne.symm h, ih index]

theorem parentAs_site (role : Role) (site : Site) :
    parentAs? role (some site) = if site.plays role = true then some site.parent else none := by
  simp only [plays_iff, parentAs?, Option.filter_some, decide_eq_true_eq]
  split <;> rfl

theorem declaredName_eq (declarator : Node) (hkind : declarator.kind = .variableDeclarator) :
    declaredName? declarator =
      (declarator.child? .name).bind fun name =>
        if name.kind = .identifier then some name else none := by
  rw [declaredName?, if_pos hkind]
  cases declarator.child? .name with
  | none => rfl
  | some name => simp only [Option.filter_some, decide_eq_true_eq, Option.bind_some]

theorem boundName_eq (site : Option Site) : boundName? site = valueName? site := by
  cases site with
  | none => rfl
  | some site =>
    rw [boundName?, valueName?, parentAs_site]
    by_cases hkind : site.parent.kind = .variableDeclarator
    · by_cases hvalue : site.plays .value = true
      · simp [hkind, hvalue, declaredName_eq]
      · simp [hvalue]
    · by_cases hvalue : site.plays .value = true <;> simp [hkind, hvalue, declaredName?]

theorem targetForm_eq (site : Option Site) (scope : List String) :
    classForm.targetForm? source site scope =
      (source.givenPath? site scope).map fun given => (given.1, .assignedClass given.2) := by
  cases site with
  | none => rfl
  | some site =>
    have hother (hkind : site.parent.kind ≠ .assignment) :
        (if site.plays .right = true then some site.parent else none).filter
          (·.kind = .assignment) = none := by
      split <;> simp [hkind]
    simp only [classForm.targetForm?, givenPath?, Option.bind_eq_bind, Option.bind_some,
      parentAs_site, Option.map_some]
    cases hkind : site.parent.kind with
    | assignment =>
      have hname : declaredName? site.parent = none := by simp [declaredName?, hkind]
      by_cases hright : site.plays .right = true
      · simp only [if_pos hright, Option.filter_some, hkind, decide_true, if_true,
          Option.bind_some, hname, Option.map_none, Option.or_none]
        cases site.parent.child? .left with
        | none => rfl
        | some left =>
          rw [Option.bind_some, Option.bind_some]
          cases source.assignmentTarget? scope left <;> rfl
      · simp [hright, hname]
    | variableDeclarator =>
      simp [hother (by simp [hkind]), declaredName_eq site.parent hkind]
    | _ => simp [hother (by simp [hkind]), declaredName?, hkind]

theorem classForm_eq (site : Option Site) (scope : List String) (node : Node) :
    source.classForm site scope node = source.classHead site scope node := by
  rw [classForm, classHead, targetForm_eq]
  cases node.child? .name with
  | some name => rfl
  | none => cases source.givenPath? site scope <;> rfl

/-! ## Single nodes -/

theorem form_of_mem_membersBelow (scope path : List String) (object : Node) (d : Declaration)
    (h : d ∈ source.membersBelow scope path object) : ∃ path, d.form = .objectMember path := by
  obtain ⟨p, _, hp⟩ := List.mem_filterMap.mp h
  obtain ⟨keys, _, hp⟩ := Option.bind_eq_some_iff.mp hp
  obtain ⟨held, _, hp⟩ := Option.bind_eq_some_iff.mp hp
  cases hp
  exact ⟨_, rfl⟩

theorem membersBelow_plain (scope path : List String) (object : Node) :
    ∀ d ∈ source.membersBelow scope path object, d.isFunction = false ∧ d.isField = false := by
  intro d hd
  obtain ⟨_, hform⟩ := source.form_of_mem_membersBelow scope path object d hd
  rw [Declaration.isFunction, Declaration.isField, hform]
  exact ⟨rfl, rfl⟩

theorem path_ne_nil_of_target (scope base path : List String) (target : Node)
    (h : source.assignmentTarget? scope target = some (base, path)) : path ≠ [] := by
  rw [assignmentTarget?] at h
  split at h
  · cases h
    exact List.cons_ne_nil _ _
  · simp only at h
    split at h
    · cases h
    · next hchain =>
      cases h
      exact fun he => hchain (List.isEmpty_iff.mpr he)
  · cases h

theorem classHead_cases (site : Option Site) (scope : List String) (node : Node) :
    (∃ name, (source.classHead site scope node).2 = .namedClass name) ∨
      ∃ path, path ≠ [] ∧ (source.classHead site scope node).2 = .assignedClass path := by
  rw [classHead]
  split
  · exact .inl ⟨_, rfl⟩
  · next base path _ hgiven =>
    refine .inr ⟨path, ?_, rfl⟩
    rcases Option.or_eq_some_iff.mp hgiven with htarget | ⟨-, hvariable⟩
    · obtain ⟨left, -, htarget⟩ := Option.bind_eq_some_iff.mp htarget
      exact source.path_ne_nil_of_target scope base path left htarget
    · obtain ⟨name, -, hvariable⟩ := Option.map_eq_some_iff.mp hvariable
      cases hvariable
      exact List.cons_ne_nil _ _
  · exact .inl ⟨_, rfl⟩

theorem keepNew_field (seen : Seen) (path : List String) (name : String) (line : UInt32)
    (ds : List Declaration) :
    seen.keepNew (⟨path, .classMember name, line, none⟩ :: ds) =
      if joinDots (path ++ [name]) ∈ seen.fields then seen.keepNew ds
      else
        let later := Seen.keepNew
          { seen with fields := joinDots (path ++ [name]) :: seen.fields } ds
        (⟨path, .classMember name, line, none⟩ :: later.1, later.2) := by
  have hname : (Declaration.mk path (.classMember name) line none).qualifiedName =
      joinDots (path ++ [name]) := joinDots_append_splitDots path name
  simp only [Seen.keepNew, Seen.Knows, Seen.note, hname, Declaration.isFunction,
    Declaration.isField, Bool.false_eq_true, false_and, false_or, true_and, ↓reduceIte]

theorem keepNew_function (seen : Seen) (scope : List String) (name : String) (line : UInt32)
    (params : Option (List Parameter)) :
    seen.keepNew [⟨scope, .function name, line, params⟩] =
      if joinDots (scope ++ [name]) ∈ seen.functions then ([], seen)
      else ([⟨scope, .function name, line, params⟩],
        { seen with functions := joinDots (scope ++ [name]) :: seen.functions }) := by
  have hname : (Declaration.mk scope (.function name) line params).qualifiedName =
      joinDots (scope ++ [name]) := joinDots_append_splitDots scope name
  simp only [Seen.keepNew, Seen.Knows, Seen.note, hname, Declaration.isFunction,
    Declaration.isField, Bool.false_eq_true, false_and, or_false, true_and, ↓reduceIte]

theorem keepNew_cons_plain (seen : Seen) (d : Declaration) (ds : List Declaration)
    (hfunction : d.isFunction = false) (hfield : d.isField = false) :
    seen.keepNew (d :: ds) = (d :: (seen.keepNew ds).1, (seen.keepNew ds).2) := by
  have h := seen.keepNew_append [d] ds
  rw [seen.keepNew_of_plain [d] (by simp [hfunction, hfield])] at h
  exact h

/-- The fields of a class are kept by the names seen so far, its methods always. -/
theorem classMembers_eq (path : List String) (members : List Node) (seen : Seen) :
    source.classMembers path members seen =
      seen.keepNew (members.filterMap (source.classMember? path)) := by
  induction members generalizing seen with
  | nil => rfl
  | cons member members ih =>
    have hmethod (hkind : member.kind = .methodDefinition ∨ member.kind = .methodSignature) :
        source.classMember? path member = (member.child? .name).map fun name =>
          ⟨path, .classMember (source.string name), member.line,
            some (source.parameters member)⟩ := by
      rcases hkind with hkind | hkind <;> simp only [classMember?, hkind]
    rw [classMembers]
    cases hkind : member.kind with
    | fieldDefinition =>
      have hfield : source.classMember? path member =
          ((member.child? .name).or (member.child? .property)).map fun name =>
            ⟨path, .classMember (source.string name), member.line, none⟩ := by
        simp only [classMember?, hkind]
      cases hname : (member.child? .name).or (member.child? .property) with
      | none =>
        rw [hname] at hfield
        rw [List.filterMap_cons_none hfield]
        exact ih seen
      | some name =>
        rw [hname] at hfield
        rw [List.filterMap_cons_some hfield, keepNew_field]
        simp only [ih]
    | methodDefinition | methodSignature =>
      have hmember := hmethod (by simp [hkind])
      cases hname : member.child? .name with
      | none =>
        rw [hname] at hmember
        rw [List.filterMap_cons_none hmember]
        exact ih seen
      | some name =>
        rw [hname] at hmember
        rw [List.filterMap_cons_some hmember, keepNew_cons_plain seen _ _ rfl rfl]
        simp only [ih]
    | _ =>
      have hnone : source.classMember? path member = none := by simp only [classMember?, hkind]
      rw [List.filterMap_cons_none hnone]
      exact ih seen

theorem enterClass_eq (site : Option Site) (scope : List String) (node : Node) (seen : Seen) :
    source.enterClass site scope node seen =
      let (base, form) := source.classHead site scope node
      ⟨(seen.keepNew (source.classDeclarations site scope node)).1, base ++ form.segments,
        (seen.keepNew (source.classDeclarations site scope node)).2⟩ := by
  have hplain : ∀ d : Declaration, d.form = (source.classHead site scope node).2 →
      d.isFunction = false ∧ d.isField = false := by
    intro d hd
    rw [Declaration.isFunction, Declaration.isField, hd]
    rcases source.classHead_cases site scope node with ⟨_, hform⟩ | ⟨_, _, hform⟩ <;>
      rw [hform] <;> exact ⟨rfl, rfl⟩
  rw [enterClass, classDeclarations, classForm_eq]
  simp only [classMembers_eq]
  obtain ⟨hfunction, hfield⟩ := hplain
    ⟨(source.classHead site scope node).1, (source.classHead site scope node).2, node.line, none⟩
    rfl
  rw [keepNew_cons_plain seen _ _ hfunction hfield]
  cases node.child? .body with
  | none => rfl
  | some body => simp

theorem declaratorMembers_eq (scope : List String) (declarator : Node) :
    source.declaratorMembers scope declarator =
      (source.boundLiteral? declarator).toList.flatMap fun bound =>
        source.membersBelow scope bound.1 bound.2 := by
  rw [declaratorMembers, boundLiteral?]
  by_cases hdeclarator : declarator.kind = .variableDeclarator
  · rw [if_neg (not_not_intro hdeclarator), if_pos hdeclarator]
    cases declarator.child? .value with
    | none => rfl
    | some value =>
      cases hvalue : value.kind with
      | object =>
        cases declarator.child? .name with
        | none => simp [hvalue]
        | some name =>
          by_cases hname : name.kind = .identifier
          · simp [hvalue, hname, source.membersBelow_eq scope _ value hvalue]
          · simp [hvalue, hname]
      | binary | assignment =>
        cases hleft : value.child? .left with
        | none => simp [hvalue, hleft]
        | some left =>
          cases hright : value.child? .right with
          | none => simp [hvalue, hleft, hright]
          | some right =>
            by_cases hliteral : left.kind = .identifier ∧ right.kind = .object
            · simp [hvalue, hleft, hright, hliteral,
                source.membersBelow_eq scope _ right hliteral.2]
            · simp [hvalue, hleft, hright, hliteral]
      | _ => simp [hvalue]
  · rw [if_pos hdeclarator, if_neg hdeclarator]
    rfl

theorem statementDeclarations_eq (scope : List String) (node : Node) :
    source.statementDeclarations scope node =
      (source.dottedAssignment? scope node).toList.flatMap fun assigned =>
        source.assignmentDeclarations node assigned.1 assigned.2.1 assigned.2.2 := by
  rw [statementDeclarations, dottedAssignment?]
  cases node.children with
  | nil => rfl
  | cons expression others =>
    simp only [List.head?_cons, Option.bind_eq_bind, Option.bind_some]
    by_cases hassignment : expression.kind = .assignment
    · rw [if_neg (not_not_intro hassignment), if_pos hassignment]
      cases hleft : expression.child? .left with
      | none => simp
      | some left =>
        cases hright : expression.child? .right with
        | none => simp
        | some right =>
          by_cases hmember : left.kind = .member
          · simp only [hmember, ne_eq, not_true_eq_false, ↓reduceIte, Option.bind_some]
            cases source.assignmentTarget? scope left with
            | none => rfl
            | some target =>
              simp only [Option.bind_some, Option.toList_some, List.flatMap_singleton,
                assignmentDeclarations]
              by_cases hobject : right.kind = .object
              · simp only [if_pos hobject, source.membersBelow_eq _ _ right hobject]
              · simp only [if_neg hobject]
          · simp [hmember]
    · rw [if_pos hassignment, if_neg hassignment]
      rfl

theorem enterFunction_eq (scope : List String) (node : Node) (name : Option Node) (seen : Seen) :
    source.enterFunction scope node name seen =
      ⟨(seen.keepNew (name.toList.map (source.functionNamed scope node))).1, scope,
        (seen.keepNew (name.toList.map (source.functionNamed scope node))).2⟩ := by
  cases name with
  | none => rfl
  | some name =>
    rw [enterFunction]
    simp only [Option.toList_some, List.map_cons, List.map_nil, functionNamed, keepNew_function]
    split <;> rfl

theorem namespaceScope_eq (scope : List String) (node : Node) :
    source.namespaceScope scope node =
      match (node.child? .name).filter (·.kind ≠ .quoted) with
      | some name => scope ++ (splitOn '.' (source.text name)).map (String.ofList ∘ trim)
      | none => scope := by
  rw [namespaceScope]
  cases node.child? .name with
  | none => rfl
  | some name =>
    by_cases hquoted : name.kind = .quoted <;> simp [Option.filter, hquoted, Function.comp_def]

theorem boundLiterals_eq (scope : List String) (children : List Node) :
    children.flatMap (source.declaratorMembers scope) =
      (children.filterMap source.boundLiteral?).flatMap fun bound =>
        source.membersBelow scope bound.1 bound.2 := by
  rw [List.filterMap_eq_flatMap_toList, List.flatMap_assoc]
  exact List.flatMap_congr (fun declarator _ => source.declaratorMembers_eq scope declarator)

theorem assignmentDeclarations_plain (statement : Node) (base path : List String) (value : Node) :
    ∀ d ∈ source.assignmentDeclarations statement base path value,
      d.isFunction = false ∧ d.isField = false := by
  intro d hd
  rw [assignmentDeclarations, List.mem_append, List.mem_singleton] at hd
  rcases hd with hd | rfl
  · split at hd
    · exact source.membersBelow_plain base path value d hd
    · cases hd
  · exact ⟨rfl, rfl⟩

theorem enter_eq (site : Option Site) (scope : List String) (node : Node) (seen : Seen) :
    source.enter site scope node seen =
      ⟨(seen.keepNew (source.declared site scope node)).1, source.scopeInside site scope node,
        (seen.keepNew (source.declared site scope node)).2⟩ := by
  rw [enter, declared, scopeInside]
  -- Only classes and functions ask for the names seen; what the others declare is never left out.
  cases node.kind with
  | classLike => exact source.enterClass_eq site scope node seen
  | namespaceLike =>
    simp only [namespaceScope_eq]
    rfl
  | variableStatement =>
    have hplain : ∀ d ∈ (node.children.filterMap source.boundLiteral?).flatMap fun bound =>
        source.membersBelow scope bound.1 bound.2, d.isFunction = false ∧ d.isField = false := by
      intro d hd
      obtain ⟨bound, _, hd⟩ := List.mem_flatMap.mp hd
      exact source.membersBelow_plain scope bound.1 bound.2 d hd
    simp only [boundLiterals_eq, seen.keepNew_of_plain _ hplain]
  | expressionStatement =>
    have hplain : ∀ d ∈ (source.dottedAssignment? scope node).toList.flatMap fun assigned =>
        source.assignmentDeclarations node assigned.1 assigned.2.1 assigned.2.2,
        d.isFunction = false ∧ d.isField = false := by
      intro d hd
      obtain ⟨assigned, _, hd⟩ := List.mem_flatMap.mp hd
      exact source.assignmentDeclarations_plain node _ _ _ d hd
    simp only [statementDeclarations_eq, seen.keepNew_of_plain _ hplain]
  | functionDeclaration => exact source.enterFunction_eq scope node _ seen
  | functionValue =>
    simp only [boundName_eq]
    exact source.enterFunction_eq scope node _ seen
  | _ => rfl

/-! ## The walk -/

mutual

/-- The walk enters a node and goes through its children, with the scope that the node gives. -/
theorem visit_eq (above : List Site) (node : Node) (seen : Seen) :
    source.visit above.head? (source.scopeAt above) node seen =
      seen.keepNew ((node.places above).flatMap source.declaredAt) := by
  match node with
  | .mk label children =>
    rw [visit, Node.places, List.flatMap_cons, Seen.keepNew_append, enter_eq]
    simp only [visitAll_eq above (.mk label children) 0 children]
    rfl

theorem visitAll_eq (above : List Site) (parent : Node) (index : Nat) (children : List Node)
    (seen : Seen) :
    source.visitAll parent index (source.scopeInside above.head? (source.scopeAt above) parent)
        children seen =
      seen.keepNew ((Node.childPlaces parent above index children).flatMap source.declaredAt) := by
  match children with
  | [] => rfl
  | n :: ns =>
    have hn := visit_eq (⟨parent, index⟩ :: above) n seen
    rw [List.head?_cons, scopeAt] at hn
    rw [visitAll, Node.childPlaces, List.flatMap_append, Seen.keepNew_append, hn]
    simp only [visitAll_eq above parent (index + 1) ns]

end

/-- For every tree, the declarations are those that its places make, without the functions and the
fields whose dotted name an earlier function or field has. The records are those of the
declarations whose name has no comma, without any whose name and line an earlier one has. Each has
the parameters of its declaration, and none where this takes no list of them. -/
theorem declarations_are_firsts (file : String) (tree : Node) :
    source.declarations tree = firsts Declaration.Repeats (source.rawDeclarations tree) ∧
    source.records file tree =
      (firsts Declaration.SameEntry ((source.declarations tree).filter fun d =>
        ',' ∉ d.qualifiedName.toList)).map fun d =>
          { file, name := d.qualifiedName, line := d.line
            arity := UInt32.ofNat (d.params.getD []).length, params := d.params.getD [] } := by
  refine ⟨?_, ?_⟩
  · have hvisit := source.visit_eq [] tree {}
    rw [declarations, rawDeclarations, ← Seen.keepNew_eq_firsts, ← hvisit]
    rfl
  · rw [records, indexable_eq_firsts]
    exact List.map_congr_left (fun d _ => toRecord_eq file d)

end CodeNav.Source
