import CodeNav.Proofs.Document.LineOffsets
import CodeNav.Proofs.Source.AssignedPaths
import CodeNav.Proofs.Source.MemberClasses
import CodeNav.Workspace.Service

/-! The line that a record leads to. Every declaration is made for one node of the tree, a class, a
member of one, a property of a literal, a statement or a function, and has the line of this node; so
where the rows of a tree count the line feeds before its nodes, the place of a record lies on the
line of the document on which the node of its declaration starts. -/
namespace CodeNav
set_option autoImplicit false
open Text

/-! ## Nodes of a tree -/

namespace Node

/-- The node is the tree itself or stands somewhere below it. -/
inductive Inside (n : Node) : Node → Prop
  | self : Inside n n
  | ofChild {child tree : Node} (hchild : child ∈ tree.children) (h : Inside n child) : Inside n tree

theorem Inside.trans {n m tree : Node} (h : n.Inside m) (hm : m.Inside tree) : n.Inside tree := by
  induction hm with
  | self => exact h
  | ofChild hchild _ ih => exact .ofChild hchild ih

theorem inside_of_child {n c : Node} {role : Role} (h : n.child? role = some c) : c.Inside n :=
  .ofChild (Source.mem_of_child h) .self

theorem inside_iff (n tree : Node) (above : List Source.Site) :
    n.Inside tree ↔ ∃ p ∈ tree.places above, p.node = n := by
  constructor
  · intro h
    induction h generalizing above with
    | self => exact ⟨⟨n, above⟩, by rw [places_eq]; exact List.mem_cons_self, rfl⟩
    | @ofChild child tree hchild _ ih =>
      obtain ⟨index, hindex, rfl⟩ := List.mem_iff_getElem.mp hchild
      obtain ⟨p, hp, hnode⟩ := ih (⟨tree, index⟩ :: above)
      refine ⟨p, ?_, hnode⟩
      rw [places_eq]
      exact List.mem_cons_of_mem _ (List.mem_flatMap.mpr
        ⟨(tree.children[index], index), List.mk_mem_zipIdx_iff_getElem?.mpr (by simp [hindex]), hp⟩)
  · rintro ⟨p, hp, rfl⟩
    induction tree using Node.induction generalizing above with
    | mk label children ih =>
      rw [places_eq] at hp
      rcases List.mem_cons.mp hp with rfl | hp
      · exact .self
      · obtain ⟨⟨child, index⟩, hchild, hp⟩ := List.mem_flatMap.mp hp
        have hmem := List.fst_mem_of_mem_zipIdx hchild
        exact .ofChild hmem (ih child hmem _ hp)

end Node

/-! ## The node of a declaration -/

namespace Source

/-- The declaration is made for the node: for a class, a member in the body of one, a property of a
literal that is bound or assigned, an assignment to a dotted path, or a function with a name. -/
inductive Emits (source : Source) (tree : Node) : Declaration → Node → Prop
  | ofClass {p : Place} (hp : p ∈ tree.places []) (hkind : p.node.kind = .classLike) :
    Emits source tree (source.classItself p.above.head? (source.scopeAt p.above) p.node) p.node
  | ofMember {p : Place} {body member : Node} {d : Declaration} (hp : p ∈ tree.places [])
    (hkind : p.node.kind = .classLike) (hbody : p.node.child? .body = some body)
    (hmember : member ∈ body.children)
    (h : source.classMember?
      (source.classItself p.above.head? (source.scopeAt p.above) p.node).path member = some d) :
    Emits source tree d member
  | ofBoundProperty {p q : Place} {declarator object : Node} {path : List String} {d : Declaration}
    (hp : p ∈ tree.places []) (hkind : p.node.kind = .variableStatement)
    (hdeclarator : declarator ∈ p.node.children)
    (hbound : source.boundLiteral? declarator = some (path, object)) (hq : q ∈ object.places [])
    (h : source.memberAt? (source.scopeAt p.above) path q = some d) : Emits source tree d q.node
  | ofAssignedProperty {p q : Place} {base path : List String} {value : Node} {d : Declaration}
    (hp : p ∈ tree.places []) (hkind : p.node.kind = .expressionStatement)
    (hassigned : source.dottedAssignment? (source.scopeAt p.above) p.node = some (base, path, value))
    (hobject : value.kind = .object) (hq : q ∈ value.places [])
    (h : source.memberAt? base path q = some d) : Emits source tree d q.node
  | ofStatement {p : Place} {base path : List String} {value : Node} (hp : p ∈ tree.places [])
    (hkind : p.node.kind = .expressionStatement)
    (hassigned :
      source.dottedAssignment? (source.scopeAt p.above) p.node = some (base, path, value)) :
    Emits source tree
      { scope := base, form := .dottedAssignment path, line := p.node.line,
        params := if value.kind = .functionValue then some (source.parameters value) else none }
      p.node
  | ofFunction {p : Place} {name : Node} (hp : p ∈ tree.places [])
    (hkind : p.node.kind = .functionDeclaration ∧ p.node.child? .name = some name ∨
      p.node.kind = .functionValue ∧ valueName? p.above.head? = some name) :
    Emits source tree (source.functionNamed (source.scopeAt p.above) p.node name) p.node

variable {source : Source} {tree n : Node} {d : Declaration}

theorem line_of_classMember {path : List String} {member : Node}
    (h : source.classMember? path member = some d) : d.line = member.line := by
  rw [classMember?] at h
  split at h
  · obtain ⟨_, _, rfl⟩ := Option.map_eq_some_iff.mp h
    rfl
  · obtain ⟨_, _, rfl⟩ := Option.map_eq_some_iff.mp h
    rfl
  · obtain ⟨_, _, rfl⟩ := Option.map_eq_some_iff.mp h
    rfl
  · cases h

theorem line_of_memberAt {scope path : List String} {q : Place}
    (h : source.memberAt? scope path q = some d) : d.line = q.node.line := by
  obtain ⟨keys, -, h⟩ := Option.bind_eq_some_iff.mp h
  obtain ⟨held, -, h⟩ := Option.bind_eq_some_iff.mp h
  cases h
  rfl

theorem Emits.line_eq (h : source.Emits tree d n) : d.line = n.line := by
  cases h with
  | ofClass | ofStatement | ofFunction => rfl
  | ofMember _ _ _ _ h => exact line_of_classMember h
  | ofBoundProperty _ _ _ _ _ h | ofAssignedProperty _ _ _ _ _ h => exact line_of_memberAt h

theorem inside_of_boundLiteral {declarator object : Node} {path : List String}
    (h : source.boundLiteral? declarator = some (path, object)) : object.Inside declarator := by
  have hpair {name literal : Node} (h : (if name.kind = .identifier ∧ literal.kind = .object then
      some ([source.string name], literal) else none) = some (path, object)) : literal = object := by
    split at h
    · exact congrArg Prod.snd (Option.some.inj h)
    · cases h
  have hside {value : Node} (hvalue : declarator.child? .value = some value)
      (h : (do
        let left ← value.child? .left
        let right ← value.child? .right
        if left.kind = .identifier ∧ right.kind = .object then some ([source.string left], right)
        else none) = some (path, object)) : object.Inside declarator := by
    obtain ⟨left, -, h⟩ := Option.bind_eq_some_iff.mp h
    obtain ⟨right, hright, h⟩ := Option.bind_eq_some_iff.mp h
    exact hpair h ▸ (Node.inside_of_child hright).trans (Node.inside_of_child hvalue)
  rw [boundLiteral?] at h
  split at h
  · obtain ⟨value, hvalue, h⟩ := Option.bind_eq_some_iff.mp h
    dsimp only at h
    split at h
    · obtain ⟨_, hname, h⟩ := Option.bind_eq_some_iff.mp h
      obtain ⟨name, -, rfl⟩ := Option.map_eq_some_iff.mp hname
      exact hpair h ▸ Node.inside_of_child hvalue
    · exact hside hvalue h
    · exact hside hvalue h
    · cases h
  · cases h

theorem inside_of_dottedAssignment {scope base path : List String} {statement value : Node}
    (h : source.dottedAssignment? scope statement = some (base, path, value)) :
    value.Inside statement := by
  obtain ⟨expression, hexpression, h⟩ := Option.bind_eq_some_iff.mp h
  split at h
  · obtain ⟨left, -, h⟩ := Option.bind_eq_some_iff.mp h
    obtain ⟨right, hright, h⟩ := Option.bind_eq_some_iff.mp h
    split at h
    · obtain ⟨target, -, h⟩ := Option.bind_eq_some_iff.mp h
      cases h
      exact .trans (Node.inside_of_child hright) (.ofChild (List.mem_of_head? hexpression) .self)
    · cases h
  · cases h

theorem Emits.inside (h : source.Emits tree d n) : n.Inside tree := by
  have hplace {p : Place} (hp : p ∈ tree.places []) : p.node.Inside tree :=
    (Node.inside_iff p.node tree []).mpr ⟨p, hp, rfl⟩
  have hobject {q : Place} {object : Node} (hq : q ∈ object.places []) : q.node.Inside object :=
    (Node.inside_iff q.node object []).mpr ⟨q, hq, rfl⟩
  cases h with
  | ofClass hp | ofStatement hp | ofFunction hp => exact hplace hp
  | ofMember hp _ hbody hmember =>
    exact .trans (.ofChild hmember .self) (.trans (Node.inside_of_child hbody) (hplace hp))
  | ofBoundProperty hp _ hdeclarator hbound hq =>
    exact (hobject hq).trans ((inside_of_boundLiteral hbound).trans
      (.trans (.ofChild hdeclarator .self) (hplace hp)))
  | ofAssignedProperty hp _ hassigned _ hq =>
    exact (hobject hq).trans ((inside_of_dottedAssignment hassigned).trans (hplace hp))

theorem emits_of_declaredAt {p : Place} (hp : p ∈ tree.places []) (h : d ∈ source.declaredAt p) :
    ∃ n, source.Emits tree d n := by
  rw [declaredAt, declared] at h
  cases hkind : p.node.kind with
  | classLike =>
    simp only [hkind, classDeclarations_eq] at h
    rcases List.mem_cons.mp h with rfl | h
    · exact ⟨_, .ofClass hp hkind⟩
    · obtain ⟨member, hmember, hd⟩ := List.mem_filterMap.mp h
      obtain ⟨body, hbody, hmember⟩ := List.mem_flatMap.mp hmember
      exact ⟨member, .ofMember hp hkind (Option.mem_toList.mp hbody) hmember hd⟩
  | variableStatement =>
    simp only [hkind] at h
    obtain ⟨bound, hbound, h⟩ := List.mem_flatMap.mp h
    obtain ⟨declarator, hdeclarator, hbound⟩ := List.mem_filterMap.mp hbound
    obtain ⟨q, hq, hd⟩ := List.mem_filterMap.mp h
    exact ⟨q.node, .ofBoundProperty hp hkind hdeclarator hbound hq hd⟩
  | expressionStatement =>
    simp only [hkind] at h
    obtain ⟨⟨base, path, value⟩, hassigned, h⟩ := List.mem_flatMap.mp h
    have hassigned := Option.mem_toList.mp hassigned
    rw [assignmentDeclarations, List.mem_append, List.mem_singleton] at h
    rcases h with h | rfl
    · split at h
      · next hobject =>
        obtain ⟨q, hq, hd⟩ := List.mem_filterMap.mp h
        exact ⟨q.node, .ofAssignedProperty hp hkind hassigned hobject hq hd⟩
      · cases h
    · exact ⟨_, .ofStatement hp hkind hassigned⟩
  | functionDeclaration =>
    simp only [hkind] at h
    obtain ⟨name, hname, rfl⟩ := List.mem_map.mp h
    exact ⟨_, .ofFunction hp (Or.inl ⟨hkind, Option.mem_toList.mp hname⟩)⟩
  | functionValue =>
    simp only [hkind] at h
    obtain ⟨name, hname, rfl⟩ := List.mem_map.mp h
    exact ⟨_, .ofFunction hp (Or.inr ⟨hkind, Option.mem_toList.mp hname⟩)⟩
  | _ =>
    simp only [hkind] at h
    cases h

/-- What the places of a tree declare is what its nodes emit. -/
theorem mem_rawDeclarations_iff :
    d ∈ source.rawDeclarations tree ↔ ∃ n, source.Emits tree d n := by
  rw [rawDeclarations, List.mem_flatMap]
  constructor
  · rintro ⟨p, hp, h⟩
    exact emits_of_declaredAt hp h
  · rintro ⟨n, h⟩
    cases h with
    | @ofClass p hp hkind =>
      refine ⟨p, hp, ?_⟩
      rw [declaredAt, declared, hkind]
      exact List.mem_cons_self
    | @ofMember p body member d hp hkind hbody hmember h =>
      refine ⟨p, hp, ?_⟩
      rw [declaredAt, declared, hkind]
      simp only [classDeclarations_eq]
      exact List.mem_cons_of_mem _ (List.mem_filterMap.mpr
        ⟨_, List.mem_flatMap.mpr ⟨body, Option.mem_toList.mpr hbody, hmember⟩, h⟩)
    | @ofBoundProperty p q declarator object path d hp hkind hdeclarator hbound hq h =>
      refine ⟨p, hp, ?_⟩
      rw [declaredAt, declared, hkind]
      exact List.mem_flatMap.mpr ⟨_, List.mem_filterMap.mpr ⟨declarator, hdeclarator, hbound⟩,
        List.mem_filterMap.mpr ⟨q, hq, h⟩⟩
    | @ofAssignedProperty p q base path value d hp hkind hassigned hobject hq h =>
      refine ⟨p, hp, ?_⟩
      rw [declaredAt, declared, hkind]
      refine List.mem_flatMap.mpr ⟨_, Option.mem_toList.mpr hassigned, ?_⟩
      rw [assignmentDeclarations, if_pos hobject]
      exact List.mem_append_left _ (List.mem_filterMap.mpr ⟨q, hq, h⟩)
    | @ofStatement p base path value hp hkind hassigned =>
      refine ⟨p, hp, ?_⟩
      rw [declaredAt, declared, hkind]
      refine List.mem_flatMap.mpr ⟨_, Option.mem_toList.mpr hassigned, ?_⟩
      exact List.mem_append_right _ (List.mem_singleton.mpr rfl)
    | @ofFunction p name hp hkind =>
      refine ⟨p, hp, ?_⟩
      rw [declaredAt, declared]
      rcases hkind with ⟨hkind, hname⟩ | ⟨hkind, hname⟩
      · rw [hkind]
        exact List.mem_map.mpr ⟨name, Option.mem_toList.mpr hname, rfl⟩
      · rw [hkind]
        exact List.mem_map.mpr ⟨name, Option.mem_toList.mpr hname, rfl⟩

theorem exists_emits {file : String} {r : Record} (h : r ∈ source.records file tree) :
    ∃ d n, source.Emits tree d n ∧ r = d.toRecord file := by
  obtain ⟨d, hd, rfl⟩ := List.mem_map.mp h
  have hraw := Seen.mem_of_mem_keepNew {} _ d
    (source.declarations_eq_keepNew tree ▸ (indexable_sublist [] _).subset hd)
  obtain ⟨n, hn⟩ := mem_rawDeclarations_iff.mp hraw
  exact ⟨d, n, hn, rfl⟩

/-! ## Lines -/

theorem lineIndex_of_emits (file : String) (h : source.Emits tree d n)
    (hrow : n.label.row < 2 ^ 32 - 1) : (d.toRecord file).lineIndex = n.label.row := by
  rw [Record.lineIndex, toRecord_eq, h.line_eq, Node.line]
  simp only [UInt32.toNat_add, UInt32.toNat_ofNat', UInt32.toNat_one]
  omega

/-- Where the rows of a tree count the line feeds before its nodes, each record leads to the start of
the line on which the node of its declaration starts, and the document has this line. -/
theorem record_leads_to_line_of_node (text : List Char) (tree : Node) (path file : String)
    (hrows : ∀ p ∈ tree.places [],
      p.node.label.row = ((Utf8.encode text).take p.node.label.start).count 10)
    (hfeeds : text.count '\n' < 2 ^ 32 - 1) :
    ∀ r ∈ (ofChars text).records file tree,
      r.location.line < (Document.ofText path text).lines.length ∧
      ∃ d n, (ofChars text).Emits tree d n ∧ n.Inside tree ∧ r = d.toRecord file ∧
        ∃ before line after, LineAround text n.label.start before line after ∧
          r.location = ⟨file, before.count '\n', 0⟩ ∧
          (Document.ofText path text).line r.location.line = Document.withoutReturn line := by
  intro r hr
  obtain ⟨d, n, hemits, rfl⟩ := exists_emits hr
  obtain ⟨p, hp, rfl⟩ := (Node.inside_iff n tree []).mp hemits.inside
  obtain ⟨before, line, after, haround, hcount⟩ := exists_lineAround text p.node.label.start
  have hrow : p.node.label.row = before.count '\n' := (hrows p hp).trans hcount
  have hle : before.count '\n' ≤ text.count '\n' := by
    rw [haround.text_eq, List.count_append]
    exact Nat.le_add_right _ _
  have hindex := lineIndex_of_emits file hemits (by omega)
  have hlocation : (d.toRecord file).location = ⟨file, before.count '\n', 0⟩ := by
    rw [Record.location, toRecord_file, hindex, hrow]
  obtain ⟨hlt, hline⟩ := haround.line_ofText path
  refine ⟨by rw [hlocation]; exact hlt, d, p.node, hemits, hemits.inside, rfl, before, line, after,
    haround, hlocation, by rw [hlocation]; exact hline⟩

/-- A class with a method, in lines that end with a carriage return and a line feed, behind a comment
with a wide character and a carriage return of its own. -/
def returnsText : List Char :=
  "/* é\r*/\r\nclass A \x7b\r\n  m() \x7b\x7d\r\n\x7d".toList

def returnsTree : Node :=
  .mk ⟨.other, .other, 0, 0, 32⟩ [
    .mk ⟨.comment, .other, 0, 0, 8⟩ [],
    .mk ⟨.classLike, .other, 1, 10, 32⟩ [
      .mk ⟨.identifier, .name, 1, 16, 17⟩ [],
      .mk ⟨.other, .body, 1, 18, 32⟩ [
        .mk ⟨.methodDefinition, .other, 2, 23, 29⟩ [
          .mk ⟨.propertyName, .name, 2, 23, 24⟩ [], .mk ⟨.other, .parameters, 2, 24, 26⟩ [],
          .mk ⟨.other, .body, 2, 27, 29⟩ []]]]]

theorem record_leads_to_line_of_method :
    (∀ p ∈ returnsTree.places [],
      p.node.label.row = ((Utf8.encode returnsText).take p.node.label.start).count 10) ∧
    returnsText.count '\n' < 2 ^ 32 - 1 ∧
    ⟨"a.js", "A.m", 3, 0, []⟩ ∈ (ofChars returnsText).records "a.js" returnsTree ∧
    (Record.location ⟨"a.js", "A.m", 3, 0, []⟩).line <
      (Document.ofText "a.js" returnsText).lines.length ∧
    (Document.ofText "a.js" returnsText).line (Record.location ⟨"a.js", "A.m", 3, 0, []⟩).line =
      "  m() \x7b\x7d".toList := by
  have hrows : ∀ p ∈ returnsTree.places [],
      p.node.label.row = ((Utf8.encode returnsText).take p.node.label.start).count 10 := by
    decide +kernel
  have hfeeds : returnsText.count '\n' < 2 ^ 32 - 1 := by decide +kernel
  have hr : ⟨"a.js", "A.m", 3, 0, []⟩ ∈ (ofChars returnsText).records "a.js" returnsTree := by
    decide +kernel
  exact ⟨hrows, hfeeds, hr,
    (record_leads_to_line_of_node returnsText returnsTree "a.js" "a.js" hrows hfeeds _ hr).1,
    by decide +kernel⟩

end Source

end CodeNav
