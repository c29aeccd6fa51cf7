import CodeNav.Navigation.Ranking
import CodeNav.Proofs.Checked.Arguments
import CodeNav.Proofs.Checked.Words
import CodeNav.Proofs.Text.DottedNames

/-! Ranking with checks. Whether a name is a member of an owner is told from the lengths of the
three texts and from one byte, which is looked at only when the lengths fit. The sum of two lengths
and of the dot between them still fits in a word, as no text is longer than half the address
space. -/
namespace CodeNav.Checked
set_option autoImplicit false
open Text

/-- A text takes less than half of the address space. -/
def Storable (text : String) : Prop :=
  2 * Utf8.size text.toList < UInt64.size

/-! ## Members -/

def isMemberName (name owner member : String) : Except Fault Bool := do
  let front ← add (Utf8.size owner.toList) 1
  let length ← add front (Utf8.size member.toList)
  if Utf8.size name.toList == length && owner.toList.isPrefixOf name.toList &&
      member.toList.isSuffixOf name.toList then
    return (← get (Utf8.encode name.toList) (Utf8.size owner.toList)) == 0x2E
  else return false

theorem get_encode_eq (owner : List Char) {rest : List Char} (h : 0 < Utf8.size rest) :
    ∃ byte, (Utf8.encode rest).head? = some byte ∧
      get (Utf8.encode (owner ++ rest)) (Utf8.size owner) = .ok byte := by
  obtain ⟨byte, more, hbytes⟩ := List.exists_cons_of_length_pos (l := Utf8.encode rest) h
  refine ⟨byte, by rw [hbytes]; rfl, get_eq ?_⟩
  rw [Utf8.encode_append, Utf8.size, List.getElem?_append_right (Nat.le_refl _), Nat.sub_self,
    hbytes]
  rfl

/-- Once the lengths fit, the byte behind the owner decides. -/
theorem dot_iff_of_size {owner rest member : List Char} (hmember : member <:+ owner ++ rest)
    (hsize : Utf8.size rest = 1 + Utf8.size member) :
    (Utf8.encode rest).head? = some 0x2E ↔ owner ++ rest = owner ++ '.' :: member := by
  rw [Utf8.head_encode_eq_dot_iff, List.append_cancel_left_eq]
  constructor
  · rintro ⟨tail, rfl⟩
    rw [Utf8.size_cons] at hsize
    have htail : tail <:+ owner ++ '.' :: tail :=
      (List.suffix_cons '.' tail).trans (List.suffix_append owner _)
    rw [suffix_eq_of_size htail hmember (Nat.add_left_cancel hsize)]
  · exact fun h => ⟨member, h⟩

theorem isMemberName_eq (name : String) {owner member : String} (howner : Storable owner)
    (hmember : Storable member) :
    isMemberName name owner member = .ok (Text.isMemberName name owner member) := by
  have hword : UInt64.size = 18446744073709551616 := rfl
  rw [Storable] at howner hmember
  rw [isMemberName, add_eq (by omega), ok_bind, add_eq (by omega), ok_bind, Text.isMemberName]
  generalize name.toList = name, owner.toList = owner, member.toList = member at *
  split
  · next hfits =>
    simp only [Bool.and_eq_true, beq_iff_eq, List.isPrefixOf_iff_prefix,
      List.isSuffixOf_iff_suffix] at hfits
    obtain ⟨⟨hsize, ⟨rest, rfl⟩⟩, hsuffix⟩ := hfits
    rw [Utf8.size_append] at hsize
    have hrest : 0 < Utf8.size rest := by omega
    obtain ⟨byte, hbyte, hget⟩ := get_encode_eq owner hrest
    have hdot := dot_iff_of_size hsuffix (by omega)
    rw [hbyte, Option.some.injEq] at hdot
    rw [hget, ok_bind]
    exact congrArg Except.ok (Bool.eq_iff_iff.mpr (by rw [beq_iff_eq, beq_iff_eq, hdot]))
  · next hmisfit =>
    refine congrArg Except.ok (beq_eq_false_iff_ne.mpr fun hname => hmisfit ?_).symm
    simp only [Bool.and_eq_true, beq_iff_eq, List.isPrefixOf_iff_prefix,
      List.isSuffixOf_iff_suffix]
    rw [hname, Utf8.size_append, Utf8.size_cons, ← Nat.add_assoc]
    exact ⟨⟨rfl, List.prefix_append owner _⟩,
      (List.suffix_cons '.' member).trans (List.suffix_append owner _)⟩

/-! ## Grades -/

/-- A check that is made only under a condition. -/
def onlyIf (condition : Bool) (check : Except Fault Bool) : Except Fault Bool :=
  if condition then check else pure false

def memberOf (r : Record) (word : String) (owner : Option String) : Except Fault Bool :=
  match owner with
  | some owner => isMemberName r.name owner word
  | none => pure false

def grade? (query : Lookup) (namespaces : List String) (r : Record) :
    Except Fault (Option Grade) := do
  let fits := r.arity.toNat == query.arguments
  if r.name = "" then return none
  if ← onlyIf query.onInstance (memberOf r query.word query.enclosingClass) then
    return some .exact
  if r.name = query.word && fits then return some .exact
  if query.dotted = some r.name then return some .exact
  if ← onlyIf (r.arity = 0) (namespaces.anyM (isMemberName r.name · query.word)) then
    return some .exact
  if ← memberOf r query.word query.receiverType then
    return some (if fits then .exact else .typed)
  return if r.name = query.word || Lookup.endsWithMember r.name query.word then some .other else none

/-- The texts that lengths are taken of can be stored. -/
structure QueryStorable (query : Lookup) : Prop where
  word : Storable query.word
  enclosingClass : ∀ owner, query.enclosingClass = some owner → Storable owner
  receiverType : ∀ owner, query.receiverType = some owner → Storable owner

theorem onlyIf_ok (condition result : Bool) :
    onlyIf condition (.ok result) = .ok (condition && result) := by
  cases condition <;> rfl

theorem memberOf_eq (r : Record) {word : String} {owner : Option String} (hword : Storable word)
    (howner : ∀ name, owner = some name → Storable name) :
    memberOf r word owner = .ok (owner.any (Text.isMemberName r.name · word)) := by
  cases owner with
  | none => rfl
  | some name => exact isMemberName_eq r.name (howner name rfl) hword

theorem grade?_eq {query : Lookup} {namespaces : List String} (h : QueryStorable query)
    (hnamespaces : ∀ owner ∈ namespaces, Storable owner) (r : Record) :
    grade? query namespaces r = .ok (query.grade? namespaces r) := by
  have hnamespace : namespaces.anyM (isMemberName r.name · query.word) =
      .ok (namespaces.any (Text.isMemberName r.name · query.word)) :=
    anyM_eq fun owner howner => isMemberName_eq r.name (hnamespaces owner howner) h.word
  rw [grade?, Lookup.grade?, memberOf_eq r h.word h.enclosingClass,
    memberOf_eq r h.word h.receiverType, hnamespace, onlyIf_ok, onlyIf_ok]
  simp only [ok_bind, pure_eq, apply_ite Except.ok]

/-! ## The ranked candidates -/

def target? (query : Lookup) (exact all : List Record) : Except Fault (Option Nat) := do
  if all.length = 1 then return some 0
  if query.onInstance && (exact.filter query.prefers).length == 1 then return some 0
  if exact.length = 1 then return all.idxOf? (← get exact 0)
  return none

def rank (query : Lookup) (namespaces : List String) (table : Table) : Except Fault Resolution := do
  let graded ← table.mapM fun r => do return (r, ← grade? query namespaces r)
  let group (grade : Grade) := (graded.filter (·.2 = some grade)).map (·.1)
  let all := [true, false].flatMap fun preferred =>
    [Grade.exact, Grade.typed, Grade.other].flatMap fun grade =>
      (group grade).filter (query.prefers · == preferred)
  return {
    word := query.word
    arguments := query.arguments
    candidates := all
    target := ← target? query (group .exact) all }

theorem target?_eq (query : Lookup) (namespaces : List String) (table : Table) :
    target? query (query.graded namespaces table .exact) (query.candidates namespaces table) =
      .ok (query.target? namespaces table) := by
  rw [target?, Lookup.target?]
  generalize query.graded namespaces table .exact = exact
  split
  · rfl
  split
  · rfl
  match exact with
  | [] => rfl
  | [only] => rfl
  | _ :: _ :: _ => rfl

theorem rank_eq {query : Lookup} {namespaces : List String} (h : QueryStorable query)
    (hnamespaces : ∀ owner ∈ namespaces, Storable owner) (table : Table) :
    rank query namespaces table = .ok (query.rank namespaces table) := by
  have hgraded : (table.mapM fun r => do return (r, ← grade? query namespaces r)) =
      .ok (table.map fun r => (r, query.grade? namespaces r)) :=
    mapM_eq fun r _ => by rw [grade?_eq h hnamespaces r]; rfl
  have hgroup (grade : Grade) :
      (((table.map fun r => (r, query.grade? namespaces r)).filter (·.2 = some grade)).map
        (·.1)) = query.graded namespaces table grade := by
    rw [List.filter_map, List.map_map]
    exact List.map_id _
  have htarget := target?_eq query namespaces table
  rw [Lookup.candidates] at htarget
  rw [rank, hgraded, ok_bind]
  simp only [hgroup, htarget, ok_bind]
  rfl

/-! ## Looking up and resolving -/

def lookup? (doc : Document) (pos : Position) (table : Table) : Except Fault (Option Lookup) := do
  let some range ← wordRange? doc pos | return none
  let word ← wordIn doc range
  let start : Position := ⟨pos.line, range.start⟩
  let before ← linePrefix doc start
  let types := Bindings.ofDocument doc
  let enclosing := doc.enclosingClass? pos.line
  return some {
    word
    file := doc.path
    onInstance := "this.".toList.isSuffixOf before
    dotted := ← dottedWord? (doc.line pos.line) range
    arguments := ← argumentCount doc pos
    enclosingClass := enclosing
    receiverType := match receiverWord? (trimEnd isBlank before) with
      | some receiver => types.get? receiver
      | none => enclosing
    objectType := ← objectType doc start table types }

def resolve? (doc : Document) (pos : Position) (namespaces : List String) (table : Table) :
    Except Fault (Option Resolution) := do
  let some query ← lookup? doc pos table | return none
  return some (← rank query namespaces table)

theorem lookup?_eq {doc : Document} (h : doc.Storable) (pos : Position) (table : Table) :
    lookup? doc pos table = .ok (Lookup.at? doc pos table) := by
  rw [lookup?, Lookup.at?, wordRange?_eq (h.length_line_lt pos.line), ok_bind]
  cases hrange : doc.wordRange? pos with
  | none => rfl
  | some range =>
    have hle := start_le_stop hrange
    simp only [wordIn_eq doc hle, linePrefix_eq, dottedWord?_eq _ hle, argumentCount_eq h,
      objectType_eq, ok_bind]
    rfl

theorem queryStorable_of_at {doc : Document} (h : doc.Storable) {pos : Position} {table : Table}
    {query : Lookup} (hquery : Lookup.at? doc pos table = some query) : QueryStorable query := by
  have hbound : ∀ line ∈ doc.lines, Utf8.size line ≤ Utf8.size (joinWith '\n' doc.lines) :=
    fun line hline => Utf8.size_le_of_infix (infix_joinWith_of_mem '\n' hline)
  have hfits : 2 * Utf8.size (joinWith '\n' doc.lines) < UInt64.size := h
  have hclass (owner : String) (howner : doc.enclosingClass? pos.line = some owner) :
      Storable owner := by
    have hsize := Document.size_enclosingClass_le hbound howner
    rw [Storable]
    omega
  rw [Lookup.at?] at hquery
  cases hrange : doc.wordRange? pos with
  | none => rw [hrange] at hquery; cases hquery
  | some range =>
    rw [hrange] at hquery
    cases hquery
    refine ⟨?_, hclass, fun owner howner => ?_⟩
    · rw [Storable, Document.wordIn, String.toList_ofList]
      have hsize := h.size_line_lt range.line
      have hword : (((doc.line range.line).drop range.start).take (range.stop - range.start)) <:+:
          doc.line range.line := (List.take_prefix _ _).isInfix.trans (List.drop_suffix _ _).isInfix
      exact Nat.lt_of_le_of_lt (Nat.mul_le_mul_left 2 (Utf8.size_le_of_infix hword)) hsize
    · simp only at howner
      split at howner
      · have hsize := (Bindings.bounded_ofDocument hbound).of_get howner
        rw [Storable]
        omega
      · exact hclass owner howner

theorem resolve?_eq {doc : Document} (h : doc.Storable) {namespaces : List String}
    (hnamespaces : ∀ owner ∈ namespaces, Storable owner) (pos : Position) (table : Table) :
    resolve? doc pos namespaces table = .ok (doc.resolve? pos namespaces table) := by
  rw [resolve?, lookup?_eq h, ok_bind, Document.resolve?]
  cases hquery : Lookup.at? doc pos table with
  | none => rfl
  | some query =>
    simp only [rank_eq (queryStorable_of_at h hquery) hnamespaces]
    rfl

end CodeNav.Checked
