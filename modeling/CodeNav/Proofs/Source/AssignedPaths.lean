import CodeNav.Proofs.Source.MemberClasses

/-! Paths that are assigned to. The member accesses of a target lead from a root through the names of
properties. A chain from a name or from the instance is declared under all of its names; one from
anything else is declared under the names that follow its root, as if these stood for themselves. -/
namespace CodeNav
set_option autoImplicit false
open Text

namespace Declaration

/-- The scope and the path of a declaration that an assignment makes. -/
def assigned? (d : Declaration) : Option (List String × List String) :=
  match d.form with
  | .dottedAssignment path | .assignedClass path => some (d.scope, path)
  | _ => none

end Declaration

namespace Source

variable (source : Source)

/-! ## Member accesses -/

/-- The name of the property that an access asks for. -/
def accessedName (n : Node) : List String :=
  ((n.child? .property).map source.string).toList

/-- The accesses of a node lead from a root to the node, through names in source order. An access to
nothing is a root. -/
inductive Accesses : Node → Node → List String → Prop where
  | root {n : Node} (hkind : n.kind ≠ .member) : Accesses n n []
  | broken {n : Node} (hkind : n.kind = .member) (hobject : n.child? .object = none) :
      Accesses n n (source.accessedName n)
  | access {n object root : Node} {names : List String} (hkind : n.kind = .member)
      (hobject : n.child? .object = some object) (h : Accesses object root names) :
      Accesses n root (names ++ source.accessedName n)

/-- A root that is a name comes first in the path. -/
def rootName (root : Node) : List String :=
  if root.kind = .identifier then [source.string root] else []

theorem mem_of_child {n c : Node} {role : Role} (h : n.child? role = some c) : c ∈ n.children :=
  List.mem_of_find?_eq_some h

/-- The accesses of every node lead from some root; by `Accesses.unique` from one only. -/
theorem exists_accesses (n : Node) : ∃ root names, source.Accesses n root names := by
  induction n using Node.induction with
  | mk label children ih =>
    by_cases hkind : (Node.mk label children).kind = .member
    · cases hobject : (Node.mk label children).child? .object with
      | none => exact ⟨_, _, .broken hkind hobject⟩
      | some object =>
        obtain ⟨root, names, h⟩ := ih object (mem_of_child hobject)
        exact ⟨root, _, .access hkind hobject h⟩
    · exact ⟨_, _, .root hkind⟩

theorem Accesses.unique {source : Source} {n root other : Node} {names others : List String}
    (h : source.Accesses n root names) (h' : source.Accesses n other others) :
    root = other ∧ names = others := by
  induction h generalizing other others with
  | root hkind =>
    cases h' with
    | root => exact ⟨rfl, rfl⟩
    | broken hmember => exact absurd hmember hkind
    | access hmember => exact absurd hmember hkind
  | broken hkind hobject =>
    cases h' with
    | root hother => exact absurd hkind hother
    | broken => exact ⟨rfl, rfl⟩
    | access _ hsome =>
      rw [hobject] at hsome
      cases hsome
  | access hkind hobject _ ih =>
    cases h' with
    | root hother => exact absurd hkind hother
    | broken _ hnone =>
      rw [hobject] at hnone
      cases hnone
    | access _ hsome h' =>
      rw [hobject] at hsome
      cases hsome
      obtain ⟨rfl, rfl⟩ := ih h'
      exact ⟨rfl, rfl⟩

theorem objectChain_eq (children : List Node) :
    source.objectChain children =
      ((children.find? (·.role = .object)).map source.memberChain).getD ([], false) := by
  induction children with
  | nil => rfl
  | cons n ns ih =>
    rw [objectChain]
    by_cases hrole : n.role = .object
    · rw [if_pos hrole, List.find?_cons_of_pos (by simpa using hrole)]
      rfl
    · rw [if_neg hrole, List.find?_cons_of_neg (by simpa using hrole), ih]

theorem memberChain_member (n : Node) (h : n.kind = .member) :
    source.memberChain n =
      let inner := ((n.child? .object).map source.memberChain).getD ([], false)
      (inner.1 ++ source.accessedName n, inner.2) := by
  cases n with
  | mk label children =>
    have hkind : label.kind = .member := h
    rw [memberChain, hkind]
    simp only [objectChain_eq]
    rfl

theorem memberChain_root (n : Node) (h : n.kind ≠ .member) :
    source.memberChain n = (source.rootName n, decide (n.kind = .self)) := by
  cases n with
  | mk label children =>
    have hkind : (Node.mk label children).kind = label.kind := rfl
    rw [hkind] at h
    rw [rootName, hkind]
    cases hlabel : label.kind with
    | member => exact absurd hlabel h
    | _ => simp [memberChain, hlabel]

/-- The chain of a target is its root, if this is a name, and the names behind it. -/
theorem memberChain_of_accesses {n root : Node} {names : List String}
    (h : source.Accesses n root names) :
    source.memberChain n = (source.rootName root ++ names, decide (root.kind = .self)) := by
  induction h with
  | root hkind => rw [source.memberChain_root _ hkind, List.append_nil]
  | broken hkind hobject =>
    rw [source.memberChain_member _ hkind, hobject, rootName, hkind]
    rfl
  | access hkind hobject _ ih =>
    rw [source.memberChain_member _ hkind, hobject]
    simp only [Option.map_some, Option.getD_some, ih, List.append_assoc]

theorem assignmentTarget_of_accesses (scope : List String) {target root : Node}
    {names : List String} (hkind : target.kind = .member)
    (h : source.Accesses target root names) :
    source.assignmentTarget? scope target =
      if source.rootName root ++ names = [] then none
      else some (if root.kind = .self then scope else [], source.rootName root ++ names) := by
  rw [assignmentTarget?, hkind]
  simp only [source.memberChain_of_accesses h, List.isEmpty_iff, decide_eq_true_eq]

/-! ## Places that are assigned to -/

/-- The assignment that a place takes its path from: the expression of a statement, or the
assignment of a class without a name. -/
def assignmentAt? (p : Place) : Option Node :=
  match p.node.kind with
  | .expressionStatement =>
    p.node.children.head?.filter fun e => e.kind = .assignment ∧ (e.child? .right).isSome
  | .classLike =>
    if (p.node.child? .name).isSome then none
    else (p.above.head?.filter fun site => site.parent.kind = .assignment ∧ site.plays .right).map
      Site.parent
  | _ => none

/-- The member access that a place is assigned to. -/
def memberTarget? (p : Place) : Option Node :=
  ((assignmentAt? p).bind fun assignment => assignment.child? .left).filter (·.kind = .member)

theorem assigned_of_membersBelow (scope path : List String) (object : Node) :
    (source.membersBelow scope path object).filterMap Declaration.assigned? = [] := by
  rw [List.filterMap_eq_nil_iff]
  intro d hd
  obtain ⟨_, hform⟩ := source.form_of_mem_membersBelow scope path object d hd
  rw [Declaration.assigned?, hform]

theorem form_of_classMember (path : List String) (member : Node) (d : Declaration)
    (h : source.classMember? path member = some d) : ∃ name, d.form = .classMember name := by
  rw [classMember?] at h
  split at h
  · obtain ⟨_, _, rfl⟩ := Option.map_eq_some_iff.mp h
    exact ⟨_, rfl⟩
  · obtain ⟨_, _, rfl⟩ := Option.map_eq_some_iff.mp h
    exact ⟨_, rfl⟩
  · obtain ⟨_, _, rfl⟩ := Option.map_eq_some_iff.mp h
    exact ⟨_, rfl⟩
  · cases h

theorem assigned_of_classMembers (path : List String) (members : List Node) :
    (members.filterMap (source.classMember? path)).filterMap Declaration.assigned? = [] := by
  rw [List.filterMap_eq_nil_iff]
  intro d hd
  obtain ⟨member, _, hmember⟩ := List.mem_filterMap.mp hd
  obtain ⟨_, hform⟩ := source.form_of_classMember path member d hmember
  rw [Declaration.assigned?, hform]

theorem assigned_of_statement (scope : List String) (statement expression target : Node)
    (hexpression : statement.children.head? = some expression)
    (hkind : expression.kind = .assignment) (hright : (expression.child? .right).isSome)
    (hleft : expression.child? .left = some target) (htarget : target.kind = .member) :
    ((source.dottedAssignment? scope statement).toList.flatMap fun assigned =>
        source.assignmentDeclarations statement assigned.1 assigned.2.1 assigned.2.2).filterMap
      Declaration.assigned? = (source.assignmentTarget? scope target).toList := by
  obtain ⟨right, hright⟩ := Option.isSome_iff_exists.mp hright
  have hdotted : source.dottedAssignment? scope statement =
      (source.assignmentTarget? scope target).map fun assigned =>
        (assigned.1, assigned.2, right) := by
    simp only [dottedAssignment?, hexpression, hkind, hleft, hright, htarget, Option.bind_eq_bind,
      Option.bind_some, ↓reduceIte]
    cases source.assignmentTarget? scope target <;> rfl
  rw [hdotted]
  cases source.assignmentTarget? scope target with
  | none => rfl
  | some assigned =>
    have hmembers : (if right.kind = .object then
        source.membersBelow assigned.1 assigned.2 right else []).filterMap
          Declaration.assigned? = [] := by
      split
      · exact source.assigned_of_membersBelow _ _ _
      · rfl
    simp only [Option.map_some, Option.toList_some, List.flatMap_singleton, assignmentDeclarations,
      List.filterMap_append, hmembers, List.nil_append]
    rfl

theorem assigned_of_class (site : Site) (scope : List String) (node target : Node)
    (hname : (node.child? .name).isSome = false) (hkind : site.parent.kind = .assignment)
    (hright : site.plays .right = true) (hleft : site.parent.child? .left = some target) :
    (source.classDeclarations (some site) scope node).filterMap Declaration.assigned? =
      (source.assignmentTarget? scope target).toList := by
  rw [Option.isSome_eq_false_iff, Option.isNone_iff_eq_none] at hname
  have hgiven : source.givenPath? (some site) scope = source.assignmentTarget? scope target := by
    simp [givenPath?, parentAs_site, Option.filter_some, hright, hkind, hleft, declaredName?]
  rw [classDeclarations_eq, List.filterMap_cons, assigned_of_classMembers, classItself, classHead,
    hname, hgiven]
  cases source.assignmentTarget? scope target <;> rfl

/-- A place declares by assignment what its target stands for. -/
theorem assigned_of_declaredAt (p : Place) (target : Node) (h : memberTarget? p = some target) :
    (source.declaredAt p).filterMap Declaration.assigned? =
      (source.assignmentTarget? (source.scopeAt p.above) target).toList := by
  obtain ⟨hleft, htarget⟩ := Option.filter_eq_some_iff.mp h
  rw [decide_eq_true_eq] at htarget
  obtain ⟨assignment, hassignment, hleft⟩ := Option.bind_eq_some_iff.mp hleft
  rw [assignmentAt?] at hassignment
  rw [declaredAt, declared]
  cases hkind : p.node.kind with
  | expressionStatement =>
    rw [hkind] at hassignment
    obtain ⟨hhead, hassigned⟩ := Option.filter_eq_some_iff.mp hassignment
    obtain ⟨hassigned, hright⟩ := of_decide_eq_true hassigned
    exact source.assigned_of_statement _ p.node assignment target hhead hassigned hright hleft
      htarget
  | classLike =>
    rw [hkind] at hassignment
    simp only at hassignment
    split at hassignment
    · cases hassignment
    · next hname =>
      obtain ⟨site, hsite, rfl⟩ := Option.map_eq_some_iff.mp hassignment
      obtain ⟨hhead, hassigned⟩ := Option.filter_eq_some_iff.mp hsite
      obtain ⟨hassigned, hright⟩ := of_decide_eq_true hassigned
      rw [hhead]
      exact source.assigned_of_class site _ p.node target (Bool.eq_false_iff.mpr hname) hassigned
        hright hleft
  | _ =>
    rw [hkind] at hassignment
    cases hassignment

/-! ## The walk -/

theorem memberTarget_of_assignment (p : Place) (scope : List String)
    (assigned : List String × List String × Node) (hkind : p.node.kind = .expressionStatement)
    (h : source.dottedAssignment? scope p.node = some assigned) : (memberTarget? p).isSome := by
  obtain ⟨expression, hhead, hassigned⟩ := Option.bind_eq_some_iff.mp h
  split at hassigned
  · next hassignment =>
    obtain ⟨left, hleft, hassigned⟩ := Option.bind_eq_some_iff.mp hassigned
    obtain ⟨right, hright, hassigned⟩ := Option.bind_eq_some_iff.mp hassigned
    split at hassigned
    · next hmember =>
      simp [memberTarget?, assignmentAt?, hkind, hhead, hassignment, hright, hleft, hmember,
        Option.filter]
    · cases hassigned
  · cases hassigned

theorem form_ne_dotted_of_class (site : Option Site) (scope path : List String) (node : Node)
    (d : Declaration) (h : d ∈ source.classDeclarations site scope node) :
    d.form ≠ .dottedAssignment path := by
  intro hform
  simp only [classDeclarations_eq, List.mem_cons, List.mem_filterMap] at h
  rcases h with rfl | ⟨member, _, hmember⟩
  · have hclass := (source.classItself_kind site scope node).1
    rw [Declaration.isClass, hform] at hclass
    cases hclass
  · obtain ⟨_, hother⟩ := source.form_of_classMember _ member d hmember
    rw [hform] at hother
    cases hother

/-- Only statements that assign to a member access declare dotted paths. -/
theorem memberTarget_of_dotted (p : Place) (d : Declaration) (path : List String)
    (hform : d.form = .dottedAssignment path) (h : d ∈ source.declaredAt p) :
    (memberTarget? p).isSome := by
  have hnamed (ns : List Node) (scope : List String) :
      d ∉ ns.map (source.functionNamed scope p.node) := by
    intro hd
    obtain ⟨_, _, rfl⟩ := List.mem_map.mp hd
    cases hform
  rw [declaredAt, declared] at h
  cases hkind : p.node.kind with
  | expressionStatement =>
    rw [hkind] at h
    obtain ⟨assigned, hassigned, _⟩ := List.mem_flatMap.mp h
    exact source.memberTarget_of_assignment p _ assigned hkind (Option.mem_toList.mp hassigned)
  | classLike =>
    rw [hkind] at h
    exact absurd hform (source.form_ne_dotted_of_class _ _ path p.node d h)
  | variableStatement =>
    rw [hkind] at h
    obtain ⟨bound, _, hd⟩ := List.mem_flatMap.mp h
    obtain ⟨_, hobject⟩ := source.form_of_mem_membersBelow _ _ _ d hd
    rw [hform] at hobject
    cases hobject
  | functionDeclaration | functionValue =>
    rw [hkind] at h
    exact absurd h (hnamed _ _)
  | _ =>
    rw [hkind] at h
    cases h

theorem mem_declarations_of_assigned (tree : Node) (p : Place) (d : Declaration)
    (hp : p ∈ tree.places []) (hd : d ∈ source.declaredAt p) (h : d.assigned?.isSome) :
    d ∈ source.declarations tree := by
  have hplain : d.isFunction = false ∧ d.isField = false := by
    rw [Declaration.assigned?] at h
    rw [Declaration.isFunction, Declaration.isField]
    cases hform : d.form <;> simp [hform] at h ⊢
  rw [declarations_eq_keepNew]
  exact Seen.mem_keepNew_of_plain {} _ d (List.mem_flatMap.mpr ⟨p, hp, hd⟩) hplain.1 hplain.2

/-- The scope and the path that a complete chain of member accesses stands for. A chain from a name
is absolute, a chain from the instance belongs to the scope around it. -/
def IsComplete (scope : List String) (target : Node) (assigned : List String × List String) :
    Prop :=
  ∃ root names, source.Accesses target root names ∧
    ((root.kind = .identifier ∧ assigned = ([], source.string root :: names)) ∨
      (root.kind = .self ∧ assigned = (scope, names)))

theorem isComplete_iff (scope : List String) {target root : Node} {names : List String}
    (h : source.Accesses target root names) :
    source.IsComplete scope target
        (if root.kind = .self then scope else [], source.rootName root ++ names) ↔
      root.kind = .identifier ∨ root.kind = .self := by
  constructor
  · rintro ⟨other, others, hother, hrooted⟩
    obtain ⟨rfl, rfl⟩ := h.unique hother
    exact hrooted.imp And.left And.left
  · intro hrooted
    refine ⟨root, names, h, hrooted.imp (fun hkind => ⟨hkind, ?_⟩) (fun hkind => ⟨hkind, ?_⟩)⟩
    · simp [rootName, hkind]
    · simp [rootName, hkind]

/-- Dotted paths are declared where a statement assigns to a member access, and so are the paths of
classes without a name. Such a target is a chain of accesses from a root. What the place declares
is in the list of the walk; it is the path of the whole chain exactly if the chain starts at a name
or at the instance, or nothing is declared. -/
theorem assigned_path_complete_iff (tree : Node) :
    (∀ d ∈ source.declarations tree, ∀ path, d.form = .dottedAssignment path →
      ∃ p ∈ tree.places [], d ∈ source.declaredAt p ∧ (memberTarget? p).isSome) ∧
    ∀ p ∈ tree.places [], ∀ target, memberTarget? p = some target →
      (∃ root names, source.Accesses target root names) ∧
      ∀ root names, source.Accesses target root names →
      let scope := source.scopeAt p.above
      let assigned := (source.declaredAt p).filterMap Declaration.assigned?
      (∀ d ∈ source.declaredAt p, d.assigned?.isSome → d ∈ source.declarations tree) ∧
      assigned = (if source.rootName root ++ names = [] then []
        else [(if root.kind = .self then scope else [], source.rootName root ++ names)]) ∧
      ((∀ a ∈ assigned, source.IsComplete scope target a) ↔
        root.kind = .identifier ∨ root.kind = .self ∨ names = []) := by
  refine ⟨?_, ?_⟩
  · intro d hd path hform
    rw [declarations_eq_keepNew] at hd
    obtain ⟨p, hp, hdeclared⟩ := List.mem_flatMap.mp (Seen.mem_of_mem_keepNew {} _ d hd)
    exact ⟨p, hp, hdeclared, source.memberTarget_of_dotted p d path hform hdeclared⟩
  · intro p hp target htarget
    refine ⟨source.exists_accesses target, ?_⟩
    intro root names haccesses scope assigned
    have hmember : target.kind = .member :=
      of_decide_eq_true (Option.filter_eq_some_iff.mp htarget).2
    have hassigned : assigned = if source.rootName root ++ names = [] then []
        else [(if root.kind = .self then scope else [], source.rootName root ++ names)] := by
      have h := source.assigned_of_declaredAt p target htarget
      rw [source.assignmentTarget_of_accesses _ hmember haccesses] at h
      rw [show assigned = _ from h]
      split <;> rfl
    refine ⟨fun d => source.mem_declarations_of_assigned tree p d hp, hassigned, ?_⟩
    rw [hassigned]
    by_cases hempty : source.rootName root ++ names = []
    · rw [if_pos hempty]
      simp [(List.append_eq_nil_iff.mp hempty).2]
    · rw [if_neg hempty, List.forall_mem_singleton, source.isComplete_iff scope haccesses]
      -- Without names behind it, a root is declared only if it is a name.
      have hroot (hnames : names = []) : root.kind = .identifier := by
        by_contra hkind
        exact hempty (by simp [rootName, hkind, hnames])
      refine ⟨fun h => h.imp_right .inl, ?_⟩
      rintro (h | h | h)
      · exact .inl h
      · exact .inr h
      · exact .inl (hroot h)

/-- An assignment to a member of the instance, inside a method of a class. -/
def ownAssignmentText : List Char :=
  "class A \x7b m() \x7b this.b.c = 1; \x7d \x7d".toList

def ownInstance : Node :=
  .mk ⟨.self, .object, 0, 16, 20⟩ []

def ownObject : Node :=
  .mk ⟨.member, .object, 0, 16, 22⟩ [ownInstance, .mk ⟨.propertyName, .property, 0, 21, 22⟩ []]

def ownTarget : Node :=
  .mk ⟨.member, .left, 0, 16, 24⟩ [ownObject, .mk ⟨.propertyName, .property, 0, 23, 24⟩ []]

def ownStatement : Node :=
  .mk ⟨.expressionStatement, .other, 0, 16, 29⟩ [
    .mk ⟨.assignment, .other, 0, 16, 28⟩ [ownTarget, .mk ⟨.number, .right, 0, 27, 28⟩ []]]

def ownMethodBody : Node :=
  .mk ⟨.other, .body, 0, 14, 31⟩ [ownStatement]

def ownMethod : Node :=
  .mk ⟨.methodDefinition, .other, 0, 10, 31⟩ [
    .mk ⟨.propertyName, .name, 0, 10, 11⟩ [], .mk ⟨.other, .parameters, 0, 11, 13⟩ [],
    ownMethodBody]

def ownClassBody : Node :=
  .mk ⟨.other, .body, 0, 8, 33⟩ [ownMethod]

def ownClass : Node :=
  .mk ⟨.classLike, .other, 0, 0, 33⟩ [.mk ⟨.identifier, .name, 0, 6, 7⟩ [], ownClassBody]

def ownPlace : Place :=
  ⟨ownStatement, [⟨ownMethodBody, 0⟩, ⟨ownMethod, 2⟩, ⟨ownClassBody, 0⟩, ⟨ownClass, 1⟩]⟩

theorem accesses_ownTarget :
    (ofChars ownAssignmentText).Accesses ownTarget ownInstance ["b", "c"] := by
  have hroot : (ofChars ownAssignmentText).Accesses ownInstance ownInstance [] :=
    .root (by decide)
  have hobject := Accesses.access (rfl : ownObject.kind = .member) rfl hroot
  have htarget := Accesses.access (rfl : ownTarget.kind = .member) rfl hobject
  exact htarget

theorem assigned_path_complete_for_own :
    ownPlace ∈ ownClass.places [] ∧ memberTarget? ownPlace = some ownTarget ∧
      (ofChars ownAssignmentText).Accesses ownTarget ownInstance ["b", "c"] ∧
      ((ofChars ownAssignmentText).declaredAt ownPlace).filterMap Declaration.assigned? =
        [(["A"], ["b", "c"])] ∧
      (ofChars ownAssignmentText).IsComplete ["A"] ownTarget (["A"], ["b", "c"]) := by
  have hp : ownPlace ∈ ownClass.places [] :=
    List.mem_of_getElem? (show (ownClass.places [])[7]? = some ownPlace from rfl)
  have hscope : (ofChars ownAssignmentText).scopeAt ownPlace.above = ["A"] := by decide +kernel
  obtain ⟨_, hassigned, hcomplete⟩ :=
    (((ofChars ownAssignmentText).assigned_path_complete_iff ownClass).2 ownPlace hp ownTarget
      rfl).2 _ _ accesses_ownTarget
  have hpath : ((ofChars ownAssignmentText).declaredAt ownPlace).filterMap Declaration.assigned? =
      [(["A"], ["b", "c"])] := by
    rw [hassigned, hscope]
    rfl
  rw [hpath, hscope] at hcomplete
  have hall := hcomplete.mpr (.inr (.inl rfl))
  exact ⟨hp, rfl, accesses_ownTarget, hpath, hall _ (List.mem_singleton.mpr rfl)⟩

/-- An assignment to a member of what a call gives. -/
def calledText : List Char :=
  "f().x = 1;".toList

def calledResult : Node :=
  .mk ⟨.other, .object, 0, 0, 3⟩ [
    .mk ⟨.identifier, .other, 0, 0, 1⟩ [], .mk ⟨.other, .other, 0, 1, 3⟩ []]

def calledTarget : Node :=
  .mk ⟨.member, .left, 0, 0, 5⟩ [calledResult, .mk ⟨.propertyName, .property, 0, 4, 5⟩ []]

def calledStatement : Node :=
  .mk ⟨.expressionStatement, .other, 0, 0, 10⟩ [
    .mk ⟨.assignment, .other, 0, 0, 9⟩ [calledTarget, .mk ⟨.number, .right, 0, 8, 9⟩ []]]

/-- The member of an unknown object is declared as a name of its own. -/
theorem unrooted_path_declared :
    (ofChars calledText).declarations calledStatement =
        [⟨[], .dottedAssignment ["x"], 1, none⟩] ∧
      memberTarget? ⟨calledStatement, []⟩ = some calledTarget ∧
      ∀ assigned, ¬ (ofChars calledText).IsComplete [] calledTarget assigned := by
  refine ⟨by decide +kernel, rfl, ?_⟩
  rintro assigned ⟨root, names, haccesses, hrooted⟩
  have hcalled : (ofChars calledText).Accesses calledTarget calledResult _ :=
    .access rfl rfl (.root (by decide))
  obtain ⟨rfl, _⟩ := haccesses.unique hcalled
  rcases hrooted with ⟨hkind, _⟩ | ⟨hkind, _⟩ <;> cases hkind

end Source

end CodeNav
