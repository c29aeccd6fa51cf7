import CodeNav.Proofs.Source.Walk

/-! Names of methods. A method in the body of a class is declared under the text of its key, whatever
this is; in an object literal a quoted key counts without its quotes, and a key that is computed
or empty not at all. So the two places agree exactly on keys that are plain. -/
namespace CodeNav
set_option autoImplicit false
open Text

namespace Text

theorem member_inj (owner : String) {first second : String}
    (h : owner ++ "." ++ first = owner ++ "." ++ second) : first = second := by
  rw [← String.toList_inj] at h ⊢
  simpa using h

end Text

namespace Source

variable (source : Source)

/-! ## Keys -/

def isQuote (c : Char) : Bool :=
  c == '"' || c == '\''

/-- A key that stands for its own text: a name, private or not, a number, or a quoted text that
shows no quote at either end. -/
def IsPlainKey (key : Node) : Prop :=
  key.kind = .propertyName ∨ key.kind = .number ∨
    (key.kind = .quoted ∧ source.text key ≠ [] ∧
      (∀ c ∈ (source.text key).head?, isQuote c = false) ∧
      ∀ c ∈ (source.text key).getLast?, isQuote c = false)

theorem keyText_quoted (key : Node) (h : key.kind = .quoted) :
    source.keyText? key =
      let name := trimEnd isQuote (trimStart isQuote (source.text key))
      if name = [] then none else some (String.ofList name) := by
  rw [keyText?, h]
  simp only [List.isEmpty_iff]
  rfl

theorem keyText_eq_string_iff (key : Node) :
    source.keyText? key = some (source.string key) ↔ source.IsPlainKey key := by
  rw [IsPlainKey]
  cases hkind : key.kind with
  | propertyName | number => simp [keyText?, hkind]
  | quoted =>
    have htrimmed : trimEnd isQuote (trimStart isQuote (source.text key)) = source.text key ↔ _ :=
      trimmed_eq_self_iff isQuote (source.text key)
    rw [source.keyText_quoted key hkind]
    simp only [reduceCtorEq, false_or, true_and, ← htrimmed, string]
    constructor
    · intro h
      split at h
      · cases h
      · next hne =>
        have hsame := String.ofList_injective (Option.some.inj h)
        rw [hsame] at hne
        exact ⟨hne, hsame⟩
    · rintro ⟨hne, hsame⟩
      rw [hsame, if_neg hne]
  | _ => simp [keyText?, hkind]

/-! ## Methods in both places -/

/-- What a method declares in the body of the class with the given path. -/
def bodyMethod (path : List String) (method : Node) : List Declaration :=
  (source.classMembers path [method] {}).1

/-- What a method declares in an object literal bound to the given path. -/
def literalMethod (scope path : List String) (method : Node) : List Declaration :=
  source.propertyMembers scope path method

section

variable {method name : Node} (hmethod : method.kind = .methodDefinition)
  (hname : method.child? .name = some name)
include hmethod hname

theorem classMember_of_method (path : List String) :
    source.classMember? path method =
      some ⟨path, .classMember (source.string name), method.line,
        some (source.parameters method)⟩ := by
  simp only [classMember?, hmethod, hname, Option.map_some]

theorem bodyMethod_eq (path : List String) :
    source.bodyMethod path method =
      [⟨path, .classMember (source.string name), method.line,
        some (source.parameters method)⟩] := by
  rw [bodyMethod, classMembers_eq,
    List.filterMap_cons_some (source.classMember_of_method hmethod hname path),
    keepNew_cons_plain {} _ _ rfl rfl]
  rfl

theorem literalMethod_eq (scope path : List String) :
    source.literalMethod scope path method =
      ((source.keyText? name).map fun key =>
        source.objectMember scope (path ++ [key]) method method).toList := by
  simp only [literalMethod, propertyMembers_eq, functionProperty?, nestedMembers, hmethod, hname,
    Option.bind_some, reduceCtorEq, ↓reduceIte, List.append_nil]
  cases source.keyText? name <;> rfl

/-- The members around a method, and the names seen before it, do not matter to it. -/
theorem classMembers_around (path : List String) (before after : List Node) (seen : Seen) :
    (source.classMembers path (before ++ method :: after) seen).1 =
      (source.classMembers path before seen).1 ++ source.bodyMethod path method ++
        (source.classMembers path after (source.classMembers path before seen).2).1 := by
  simp only [classMembers_eq, List.filterMap_append, Seen.keepNew_append]
  rw [List.filterMap_cons_some (source.classMember_of_method hmethod hname path),
    keepNew_cons_plain _ _ _ rfl rfl, source.bodyMethod_eq hmethod hname, List.append_assoc]
  rfl

theorem qualifiedName_bodyMethod (path : List String) (hpath : path ≠ []) :
    (source.bodyMethod path method).map Declaration.qualifiedName =
      [joinDots path ++ "." ++ source.string name] := by
  rw [source.bodyMethod_eq hmethod hname, List.map_singleton, Declaration.qualifiedName,
    Declaration.path, Form.segments, joinDots_append_splitDots, joinDots_concat path _ hpath]

theorem qualifiedName_literalMethod (scope path : List String) (hpath : scope ++ path ≠ []) :
    (source.literalMethod scope path method).map Declaration.qualifiedName =
      ((source.keyText? name).map fun key => joinDots (scope ++ path) ++ "." ++ key).toList := by
  rw [source.literalMethod_eq hmethod hname]
  cases source.keyText? name with
  | none => rfl
  | some key =>
    rw [Option.map_some, Option.toList_some, List.map_singleton, Declaration.qualifiedName,
      Declaration.path, objectMember, Form.segments, ← List.append_assoc,
      joinDots_concat _ key hpath]
    rfl

end

theorem literalMembers_around (scope path : List String) (label : Label) (before after : List Node)
    (method : Node) :
    source.literalMembers scope path (.mk label (before ++ method :: after)) =
      source.literalMembers scope path (.mk label before) ++
        source.literalMethod scope path method ++
          source.literalMembers scope path (.mk label after) := by
  simp only [literalMembers_eq, Node.children, List.flatMap_append, List.flatMap_cons,
    literalMethod, List.append_assoc]

/-- A method with a key declares the same name in the body of a class and in a literal bound to the
path of the class exactly if the key is plain, and then its record is the same. Neither place
looks at what stands around the method. -/
theorem method_named_alike_iff (scope path : List String) (method name : Node)
    (hpath : scope ++ path ≠ []) (hmethod : method.kind = .methodDefinition)
    (hname : method.child? .name = some name) :
    let owner := scope ++ path
    (∀ before after seen,
      (source.classMembers owner (before ++ method :: after) seen).1 =
        (source.classMembers owner before seen).1 ++ source.bodyMethod owner method ++
          (source.classMembers owner after (source.classMembers owner before seen).2).1) ∧
    (∀ label before after,
      source.literalMembers scope path (.mk label (before ++ method :: after)) =
        source.literalMembers scope path (.mk label before) ++
          source.literalMethod scope path method ++
            source.literalMembers scope path (.mk label after)) ∧
    ((∀ key, joinDots owner ++ "." ++ key ∈
          (source.bodyMethod owner method).map Declaration.qualifiedName ↔
        joinDots owner ++ "." ++ key ∈
          (source.literalMethod scope path method).map Declaration.qualifiedName) ↔
      source.IsPlainKey name) ∧
    (source.IsPlainKey name → ∀ file,
      (source.bodyMethod owner method).map (Declaration.toRecord file) =
        (source.literalMethod scope path method).map (Declaration.toRecord file)) := by
  intro owner
  have hbody := source.qualifiedName_bodyMethod hmethod hname owner hpath
  have hliteral := source.qualifiedName_literalMethod hmethod hname scope path hpath
  refine ⟨source.classMembers_around hmethod hname owner,
    fun label before after => source.literalMembers_around scope path label before after method,
    ?_, ?_⟩
  · rw [hbody, hliteral, ← keyText_eq_string_iff]
    constructor
    · intro h
      have hmem := (h (source.string name)).mp List.mem_cons_self
      rw [Option.mem_toList, Option.map_eq_some_iff] at hmem
      obtain ⟨key, hkey, hsame⟩ := hmem
      rw [hkey, member_inj (joinDots owner) hsame]
    · intro h key
      rw [h]
      rfl
  · intro hplain file
    have hkey := (source.keyText_eq_string_iff name).mpr hplain
    rw [hkey] at hliteral
    rw [source.bodyMethod_eq hmethod hname] at hbody ⊢
    rw [source.literalMethod_eq hmethod hname, hkey] at hliteral ⊢
    have hsame := (List.cons.inj (hbody.trans hliteral.symm)).1
    rw [Option.map_some, Option.toList_some, List.map_singleton, List.map_singleton, toRecord_eq,
      toRecord_eq, hsame]
    rfl

/-- Methods with a quoted, a computed and a private key. -/
def keyedText : List Char :=
  "class A \x7b 'run'() \x7b\x7d [run]() \x7b\x7d #run(x) \x7b\x7d \x7d".toList

def quotedMethod : Node :=
  .mk ⟨.methodDefinition, .other, 0, 10, 20⟩ [
    .mk ⟨.quoted, .name, 0, 10, 15⟩ [], .mk ⟨.other, .parameters, 0, 15, 17⟩ [],
    .mk ⟨.other, .body, 0, 18, 20⟩ []]

def computedMethod : Node :=
  .mk ⟨.methodDefinition, .other, 0, 21, 31⟩ [
    .mk ⟨.other, .name, 0, 21, 26⟩ [], .mk ⟨.other, .parameters, 0, 26, 28⟩ [],
    .mk ⟨.other, .body, 0, 29, 31⟩ []]

def privateKey : Node :=
  .mk ⟨.propertyName, .name, 0, 32, 36⟩ []

def privateMethod : Node :=
  .mk ⟨.methodDefinition, .other, 0, 32, 42⟩ [
    privateKey,
    .mk ⟨.other, .parameters, 0, 36, 39⟩ [.mk ⟨.identifier, .other, 0, 37, 38⟩ []],
    .mk ⟨.other, .body, 0, 40, 42⟩ []]

theorem method_named_alike_for_private :
    [] ++ ["A"] ≠ ([] : List String) ∧ privateMethod.kind = .methodDefinition ∧
      privateMethod.child? .name = some privateKey ∧ (ofChars keyedText).IsPlainKey privateKey ∧
      (ofChars keyedText).literalMethod [] ["A"] privateMethod =
        [⟨[], .objectMember ["A", "#run"], 1, some [⟨"x", none⟩]⟩] ∧
      ((ofChars keyedText).bodyMethod ["A"] privateMethod).map (Declaration.toRecord "a.js") =
        ((ofChars keyedText).literalMethod [] ["A"] privateMethod).map
          (Declaration.toRecord "a.js") := by
  have hpath : [] ++ ["A"] ≠ ([] : List String) := by decide
  have hplain : (ofChars keyedText).IsPlainKey privateKey := .inl rfl
  obtain ⟨_, _, _, hrecords⟩ := (ofChars keyedText).method_named_alike_iff [] ["A"] privateMethod
    privateKey hpath rfl rfl
  exact ⟨hpath, rfl, rfl, hplain, by decide +kernel, hrecords hplain "a.js"⟩

/-- The class keeps the quotes of a key, and declares a computed one. -/
theorem quoted_method_named_apart :
    ((ofChars keyedText).bodyMethod ["A"] quotedMethod).map Declaration.qualifiedName =
        ["A.'run'"] ∧
      ((ofChars keyedText).literalMethod [] ["A"] quotedMethod).map Declaration.qualifiedName =
        ["A.run"] ∧
      ((ofChars keyedText).bodyMethod ["A"] computedMethod).map Declaration.qualifiedName =
        ["A.[run]"] ∧
      ((ofChars keyedText).literalMethod [] ["A"] computedMethod).map Declaration.qualifiedName =
        [] := by
  decide +kernel

end Source

end CodeNav
