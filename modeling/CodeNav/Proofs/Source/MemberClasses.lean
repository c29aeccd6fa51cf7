import CodeNav.Proofs.Source.Walk

/-! Members and their classes. A member is declared only together with the class around it, whose
path is the scope of the member. The class is neither left out by the names seen before nor for a
comma that its member does not have; and where another declaration has its name and line, that one
keeps the record. -/
namespace CodeNav
set_option autoImplicit false
open Text

namespace Declaration

def isClass (d : Declaration) : Bool :=
  match d.form with
  | .namedClass _ | .assignedClass _ => true
  | _ => false

end Declaration

namespace Source

variable (source : Source)

/-! ## Where members are declared -/

theorem declarations_eq_keepNew (tree : Node) :
    source.declarations tree = (Seen.keepNew {} (source.rawDeclarations tree)).1 := by
  rw [declarations, rawDeclarations, ← source.visit_eq [] tree {}]
  rfl

/-- Only classes declare members of classes. -/
theorem mem_classDeclarations_of_member (site : Option Site) (scope : List String) (node : Node)
    (d : Declaration) (name : String) (hform : d.form = .classMember name)
    (h : d ∈ source.declared site scope node) :
    node.kind = .classLike ∧ d ∈ source.classDeclarations site scope node := by
  have hmembers (base path : List String) (object : Node) :
      d ∉ source.membersBelow base path object := by
    intro hd
    obtain ⟨_, hobject⟩ := source.form_of_mem_membersBelow base path object d hd
    rw [hform] at hobject
    cases hobject
  have hnamed (ns : List Node) : d ∉ ns.map (source.functionNamed scope node) := by
    intro hd
    obtain ⟨_, _, rfl⟩ := List.mem_map.mp hd
    cases hform
  rw [declared] at h
  cases hkind : node.kind with
  | classLike =>
    rw [hkind] at h
    exact ⟨rfl, h⟩
  | variableStatement =>
    rw [hkind] at h
    obtain ⟨bound, _, hd⟩ := List.mem_flatMap.mp h
    exact absurd hd (hmembers _ _ _)
  | expressionStatement =>
    rw [hkind] at h
    obtain ⟨assigned, _, hd⟩ := List.mem_flatMap.mp h
    rw [assignmentDeclarations, List.mem_append, List.mem_singleton] at hd
    rcases hd with hd | rfl
    · split at hd
      · exact absurd hd (hmembers _ _ _)
      · cases hd
    · cases hform
  | functionDeclaration =>
    rw [hkind] at h
    exact absurd h (hnamed _)
  | functionValue =>
    rw [hkind] at h
    exact absurd h (hnamed _)
  | _ =>
    rw [hkind] at h
    cases h

theorem scope_of_classMember (path : List String) (member : Node) (d : Declaration)
    (h : source.classMember? path member = some d) : d.scope = path := by
  rw [classMember?] at h
  split at h
  · obtain ⟨_, _, rfl⟩ := Option.map_eq_some_iff.mp h
    rfl
  · obtain ⟨_, _, rfl⟩ := Option.map_eq_some_iff.mp h
    rfl
  · obtain ⟨_, _, rfl⟩ := Option.map_eq_some_iff.mp h
    rfl
  · cases h

/-- The declaration of a class by itself, without its members. -/
def classItself (site : Option Site) (scope : List String) (node : Node) : Declaration :=
  { scope := (source.classHead site scope node).1, form := (source.classHead site scope node).2,
    line := node.line, params := none }

theorem classDeclarations_eq (site : Option Site) (scope : List String) (node : Node) :
    source.classDeclarations site scope node = source.classItself site scope node ::
      ((node.child? .body).toList.flatMap Node.children).filterMap
        (source.classMember? (source.classItself site scope node).path) := rfl

theorem classItself_kind (site : Option Site) (scope : List String) (node : Node) :
    (source.classItself site scope node).isClass = true ∧
      (source.classItself site scope node).isFunction = false ∧
      (source.classItself site scope node).isField = false := by
  rw [Declaration.isClass, Declaration.isFunction, Declaration.isField, classItself]
  rcases source.classHead_cases site scope node with ⟨_, hform⟩ | ⟨_, _, hform⟩ <;> rw [hform] <;>
    exact ⟨rfl, rfl, rfl⟩

theorem classItself_path_ne_nil (site : Option Site) (scope : List String) (node : Node) :
    (source.classItself site scope node).path ≠ [] := by
  rw [Declaration.path, ne_eq, List.append_eq_nil_iff, not_and_or, classItself]
  right
  rcases source.classHead_cases site scope node with ⟨name, hform⟩ | ⟨path, hne, hform⟩
  · rw [hform, Form.segments, splitDots, List.map_eq_nil_iff]
    exact splitOn_ne_nil '.' name.toList
  · rw [hform]
    exact hne

/-- A member stands behind the class whose path is its scope. -/
theorem exists_class_of_member (tree : Node) (d : Declaration) (name : String)
    (h : d ∈ source.declarations tree) (hform : d.form = .classMember name) :
    d.scope ≠ [] ∧ ∃ c ∈ source.declarations tree, c.isClass = true ∧ c.path = d.scope := by
  rw [declarations_eq_keepNew] at h ⊢
  obtain ⟨p, hp, hd⟩ := List.mem_flatMap.mp (Seen.mem_of_mem_keepNew {} _ d h)
  obtain ⟨hkind, hmember⟩ := source.mem_classDeclarations_of_member _ _ p.node d name hform hd
  obtain ⟨hclass, hfunction, hfield⟩ :=
    source.classItself_kind p.above.head? (source.scopeAt p.above) p.node
  have hdeclared : source.classItself p.above.head? (source.scopeAt p.above) p.node ∈
      source.declaredAt p := by
    rw [declaredAt, declared, hkind]
    exact List.mem_cons_self
  rw [classDeclarations_eq] at hmember
  rcases List.mem_cons.mp hmember with hitself | hmember
  · rw [← hitself, Declaration.isClass, hform] at hclass
    cases hclass
  · obtain ⟨member, _, hmember⟩ := List.mem_filterMap.mp hmember
    rw [source.scope_of_classMember _ member d hmember]
    refine ⟨source.classItself_path_ne_nil _ _ p.node, _, ?_, hclass, rfl⟩
    exact Seen.mem_keepNew_of_plain {} _ _ (List.mem_flatMap.mpr ⟨p, hp, hdeclared⟩) hfunction
      hfield

/-! ## Records of classes -/

theorem comma_not_mem_of_record (file : String) (tree : Node) (d : Declaration)
    (h : d.toRecord file ∈ source.records file tree) : ',' ∉ d.qualifiedName.toList := by
  obtain ⟨e, he, hsame⟩ := List.mem_map.mp h
  have hname := congrArg Record.name hsame
  rw [toRecord_name, toRecord_name] at hname
  exact hname ▸ comma_not_mem_of_indexable [] _ e he

/-- Every declaration without a comma in its name has a record with its name and line, whether this
is its own or that of an earlier one. -/
theorem exists_record (file : String) (tree : Node) (c : Declaration)
    (h : c ∈ source.declarations tree) (hcomma : ',' ∉ c.qualifiedName.toList) :
    ∃ r ∈ source.records file tree, r.name = c.qualifiedName ∧ r.line = c.line := by
  have hrecord (e : Declaration) (he : e ∈ indexable [] (source.declarations tree))
      (hsame : e.SameEntry c) :
      ∃ r ∈ source.records file tree, r.name = c.qualifiedName ∧ r.line = c.line := by
    refine ⟨e.toRecord file, List.mem_map_of_mem he, ?_⟩
    rw [toRecord_eq]
    exact hsame
  have hfilter : c ∈ (source.declarations tree).filter fun d => ',' ∉ d.qualifiedName.toList :=
    List.mem_filter.mpr ⟨h, decide_eq_true hcomma⟩
  rcases exists_like_in_firsts Declaration.SameEntry Declaration.SameEntry.trans _ c hfilter with
    hkept | ⟨e, hkept, hsame⟩
  · exact hrecord c (indexable_eq_firsts _ ▸ hkept) ⟨rfl, rfl⟩
  · exact hrecord e (indexable_eq_firsts _ ▸ hkept) hsame

/-- Where a tree gives a record for a member of a class, it gives one for the class: the name of the
member is that of its class, a dot and its own, and some record has the name and the line of the
class. -/
theorem member_keeps_class (file : String) (tree : Node) (d : Declaration) (name : String)
    (hd : d ∈ source.declarations tree) (hform : d.form = .classMember name)
    (hrecord : d.toRecord file ∈ source.records file tree) :
    d.qualifiedName = joinDots d.scope ++ "." ++ name ∧
    ∃ c ∈ source.declarations tree, c.isClass = true ∧ c.path = d.scope ∧
      ∃ r ∈ source.records file tree, r.name = joinDots d.scope ∧ r.line = c.line := by
  obtain ⟨hne, c, hc, hclass, hpath⟩ := source.exists_class_of_member tree d name hd hform
  have hname : d.qualifiedName = joinDots d.scope ++ "." ++ name := by
    rw [Declaration.qualifiedName, Declaration.path, hform, Form.segments,
      joinDots_append_splitDots, joinDots_concat d.scope name hne]
  have hcname : c.qualifiedName = joinDots d.scope := by rw [Declaration.qualifiedName, hpath]
  have hcomma : ',' ∉ c.qualifiedName.toList := by
    have hmember := source.comma_not_mem_of_record file tree d hrecord
    rw [hname, String.toList_append, String.toList_append] at hmember
    rw [hcname]
    exact fun hmem => hmember (List.mem_append_left _ (List.mem_append_left _ hmem))
  obtain ⟨r, hr, hrname, hrline⟩ := source.exists_record file tree c hc hcomma
  exact ⟨hname, c, hc, hclass, hpath, r, hr, hrname.trans hcname, hrline⟩

/-- A class assigned to the instance of the class around it. The assignment comes first and has the
name and the line of the inner class, so the record of that name is the assignment's. -/
def innerClassText : List Char :=
  "class A \x7b m() \x7b this.B = class \x7b run() \x7b\x7d \x7d; \x7d \x7d".toList

def innerClass : Node :=
  .mk ⟨.classLike, .right, 0, 25, 43⟩ [
    .mk ⟨.other, .body, 0, 31, 43⟩ [
      .mk ⟨.methodDefinition, .other, 0, 33, 41⟩ [
        .mk ⟨.propertyName, .name, 0, 33, 36⟩ [], .mk ⟨.other, .parameters, 0, 36, 38⟩ [],
        .mk ⟨.other, .body, 0, 39, 41⟩ []]]]

def outerClass : Node :=
  .mk ⟨.classLike, .other, 0, 0, 48⟩ [
    .mk ⟨.identifier, .name, 0, 6, 7⟩ [],
    .mk ⟨.other, .body, 0, 8, 48⟩ [
      .mk ⟨.methodDefinition, .other, 0, 10, 46⟩ [
        .mk ⟨.propertyName, .name, 0, 10, 11⟩ [], .mk ⟨.other, .parameters, 0, 11, 13⟩ [],
        .mk ⟨.other, .body, 0, 14, 46⟩ [
          .mk ⟨.expressionStatement, .other, 0, 16, 44⟩ [
            .mk ⟨.assignment, .other, 0, 16, 43⟩ [
              .mk ⟨.member, .left, 0, 16, 22⟩ [
                .mk ⟨.self, .object, 0, 16, 20⟩ [], .mk ⟨.propertyName, .property, 0, 21, 22⟩ []],
              innerClass]]]]]]

def innerMember : Declaration :=
  { scope := ["A", "B"], form := .classMember "run", line := 1, params := some [] }

theorem member_keeps_class_of_inner :
    innerMember ∈ (ofChars innerClassText).declarations outerClass ∧
      innerMember.form = .classMember "run" ∧
      innerMember.toRecord "a.js" ∈ (ofChars innerClassText).records "a.js" outerClass ∧
      innerMember.qualifiedName = "A.B.run" ∧
      ∃ r ∈ (ofChars innerClassText).records "a.js" outerClass, r.name = "A.B" ∧ r.line = 1 := by
  have hd : innerMember ∈ (ofChars innerClassText).declarations outerClass := by decide +kernel
  have hrecord : innerMember.toRecord "a.js" ∈
      (ofChars innerClassText).records "a.js" outerClass := by decide +kernel
  obtain ⟨hname, c, _, _, _, r, hr, hrname, _⟩ :=
    member_keeps_class (ofChars innerClassText) "a.js" outerClass innerMember "run" hd rfl hrecord
  have hlines : ∀ r ∈ (ofChars innerClassText).records "a.js" outerClass, r.line = 1 := by
    decide +kernel
  exact ⟨hd, rfl, hrecord, hname, r, hr, hrname, hlines r hr⟩

end Source

end CodeNav
