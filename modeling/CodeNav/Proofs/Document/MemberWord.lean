import CodeNav.Calls.Target
import CodeNav.Proofs.Text.DottedNames
import CodeNav.Proofs.Text.Runs

/-! The member at a position: the word that the position touches, the receiver before its dot, and
the types that a document binds receivers to. -/
namespace CodeNav
set_option autoImplicit false
open Text Text.Scan

/-! ## Words -/

namespace Document

section Cut

-- The word on the line of the position, between `left` and `right`.
variable {doc : Document} {pos : Position} {left word right : List Char}
  (hline : doc.line pos.line = left ++ (word ++ right))

include hline

theorem wordRange_of_cut (hword : ∀ c ∈ word, isIdentChar c = true) (hne : word ≠ [])
    (hleft : ∀ c, left.getLast? = some c → isIdentChar c = false)
    (hright : ∀ c, right.head? = some c → isIdentChar c = false)
    (hfrom : left.length ≤ pos.character) (hto : pos.character ≤ left.length + word.length) :
    doc.wordRange? pos = some ⟨pos.line, left.length, left.length + word.length⟩ := by
  obtain ⟨k, hk⟩ := Nat.exists_eq_add_of_le hfrom
  have hin : k ≤ word.length := by omega
  have hbefore : doc.before pos = left ++ word.take k := by
    rw [before, hline, hk, List.take_length_add_append, List.take_append_of_le_length hin]
  have hafter : doc.after pos = word.drop k ++ right := by
    rw [after, hline, hk, List.drop_length_add_append, List.drop_append_of_le_length hin]
  have hcolumn : min pos.character (doc.line pos.line).length = left.length + k := by
    rw [hline, List.length_append, List.length_append]
    omega
  have hpositive := List.length_pos_iff.mpr hne
  rw [wordRange?, hcolumn, hbefore, hafter,
    takeWhile_reverse_append (fun c hc => hword c (List.mem_of_mem_take hc)) hleft,
    takeWhile_append_of_stop (fun c hc => hword c (List.mem_of_mem_drop hc)) hright,
    List.length_reverse, List.length_take, List.length_drop, Nat.min_eq_left hin,
    if_neg (by omega)]
  congr 2 <;> omega

theorem wordIn_of_cut :
    doc.wordIn ⟨pos.line, left.length, left.length + word.length⟩ = String.ofList word := by
  rw [wordIn, hline, List.drop_left, Nat.add_sub_cancel_left, List.take_left]

theorem before_of_cut : doc.before ⟨pos.line, left.length⟩ = left := by
  rw [before, hline, List.take_left]

end Cut

end Document

theorem receiverWord_of_cut {front receiver : List Char} (hne : receiver ≠ [])
    (hreceiver : ∀ c ∈ receiver, isWordChar c = true)
    (hfront : ∀ c, front.getLast? = some c → isWordChar c = false) :
    receiverWord? (front ++ receiver ++ ['.']) = some (String.ofList receiver) := by
  have hrev : (front ++ receiver ++ ['.']).reverse = '.' :: (front ++ receiver).reverse :=
    List.reverse_concat
  have hsome : ¬ receiver.isEmpty = true := fun hempty => hne (List.isEmpty_iff.mp hempty)
  rw [receiverWord?, hrev]
  simp only [takeWhile_reverse_append hreceiver hfront, List.reverse_reverse, if_neg hsome]

theorem receiverPath_of_cut {front path : List Char} (hne : path ≠ [])
    (hpath : ∀ c ∈ path, isPathChar c = true)
    (hfront : ∀ c, front.getLast? = some c → isPathChar c = false) :
    receiverPath? (front ++ path ++ ['.']) = some path := by
  have hrev : (front ++ path ++ ['.']).reverse = '.' :: (front ++ path).reverse :=
    List.reverse_concat
  have hsome : ¬ path.isEmpty = true := fun hempty => hne (List.isEmpty_iff.mp hempty)
  rw [receiverPath?, hrev]
  simp only [takeWhile_reverse_append hpath hfront, List.reverse_reverse, if_neg hsome]

/-- A symbol that starts with a path holds it, so its own name is never taken. -/
theorem Table.symbolPath_eq (table : Table) (path : List Char) :
    table.symbolPath path =
      if (table.firstStartingWith? path).isSome then String.ofList path else "" := by
  rw [symbolPath]
  cases hfirst : table.firstStartingWith? path with
  | none => rfl
  | some r =>
    have hstarts := List.find?_some hfirst
    rw [Bool.and_eq_true, List.isPrefixOf_iff_prefix] at hstarts
    exact if_pos ((occursIn_iff path r.name.toList).mpr hstarts.2.isInfix)

/-! ## Names and types of receivers -/

namespace BindingLine

theorem constructed_yields (isType : Char → Bool) :
    (constructed isType).Yields fun type => ∀ c ∈ type, isType c = true :=
  yields_bind fun _ => yields_bind fun _ => yields_bind fun _ => yields_bind fun _ =>
    yields_bind fun _ => (yields_run1 isType).bind fun _ htype => yields_bind fun _ =>
      yields_bind fun _ => yields_pure htype

theorem newVariable_yields (isName isType : Char → Bool) :
    (newVariable isName isType).Yields fun bound =>
      (∀ c ∈ bound.1, isName c = true) ∧ (∀ c ∈ bound.2, isType c = true) :=
  yields_bind fun _ => (yields_run1 isName).bind fun _ hname =>
    (constructed_yields isType).bind fun _ htype => yields_pure ⟨hname, htype⟩

theorem newProperty_yields (isName isType : Char → Bool) :
    (newProperty isName isType).Yields fun bound =>
      (∀ c ∈ bound.1, isName c = true) ∧ (∀ c ∈ bound.2, isType c = true) :=
  yields_bind fun _ => yields_bind fun _ => (yields_run1 isName).bind fun _ hname =>
    (constructed_yields isType).bind fun _ htype => yields_pure ⟨hname, htype⟩

theorem aliased_yields (isName isSource : Char → Bool) :
    (aliased isName isSource).Yields fun bound => ∀ c ∈ bound.1, isName c = true :=
  yields_bind fun _ => (yields_run1 isName).bind fun _ hname => yields_bind fun _ =>
    yields_bind fun _ => yields_bind fun _ => yields_bind fun _ => yields_bind fun _ =>
      yields_bind fun _ => yields_pure hname

theorem typedParam_yields :
    typedParam.Yields fun bound =>
      (∀ c ∈ bound.1, isWordChar c = true) ∧ (∀ c ∈ bound.2, isPathChar c = true) :=
  (yields_run1 isWordChar).bind fun _ hname => yields_bind fun _ => yields_bind fun _ =>
    yields_bind fun _ => yields_bind fun _ => yields_bind fun _ =>
      (yields_run1 isPathChar).bind fun _ htype => yields_pure ⟨hname, htype⟩

end BindingLine

namespace Bindings

/-- Every type is a dotted path. -/
def Dotted (types : Bindings) : Prop :=
  ∀ bound ∈ types, ∀ c ∈ bound.2.toList, isPathChar c = true

theorem Dotted.of_get {types : Bindings} (htypes : types.Dotted) {name type : String}
    (hget : types.get? name = some type) : ∀ c ∈ type.toList, isPathChar c = true := by
  rw [get?, List.lookup_eq_some_iff] at hget
  obtain ⟨newer, older, rfl, -⟩ := hget
  exact htypes (name, type) (List.mem_append_right newer List.mem_cons_self)

/-- Every bound name is a dotted path. -/
def Named (types : Bindings) : Prop :=
  ∀ bound ∈ types, ∀ c ∈ bound.1.toList, isPathChar c = true

theorem Named.get_eq_none {types : Bindings} (htypes : types.Named) {name : String} {c : Char}
    (hc : c ∈ name.toList) (hpath : isPathChar c = false) : types.get? name = none := by
  cases hget : types.get? name with
  | none => rfl
  | some type =>
    rw [get?, List.lookup_eq_some_iff] at hget
    obtain ⟨newer, older, rfl, -⟩ := hget
    rw [htypes (name, type) (List.mem_append_right newer List.mem_cons_self) c hc] at hpath
    cases hpath

/-- Names and types are dotted paths. -/
structure Paths (types : Bindings) : Prop where
  named : types.Named
  dotted : types.Dotted

theorem Paths.insert {types : Bindings} (htypes : types.Paths) {name type : String}
    (hname : ∀ c ∈ name.toList, isPathChar c = true)
    (htype : ∀ c ∈ type.toList, isPathChar c = true) : (types.insert name type).Paths := by
  refine ⟨fun bound hbound => ?_, fun bound hbound => ?_⟩
  · rcases List.mem_cons.mp hbound with rfl | hbound
    · exact hname
    · exact htypes.named bound (List.mem_filter.mp hbound).1
  · rcases List.mem_cons.mp hbound with rfl | hbound
    · exact htype
    · exact htypes.dotted bound (List.mem_filter.mp hbound).1

theorem Paths.insertText {types : Bindings} (htypes : types.Paths) {name type : List Char}
    (hname : ∀ c ∈ name, isPathChar c = true) (htype : ∀ c ∈ type, isPathChar c = true) :
    (types.insertText name type).Paths :=
  htypes.insert (by rwa [String.toList_ofList]) (by rwa [String.toList_ofList])

theorem paths_bindNewVariables (line : List Char) {types : Bindings} (htypes : types.Paths) :
    (bindNewVariables line types).Paths := by
  refine List.foldlRecOn (motive := Paths) _ _ htypes (fun types htypes hit hhit => ?_)
  obtain ⟨hname, htype⟩ := (BindingLine.newVariable_yields _ _).value_of_mem hhit
  exact htypes.insertText (fun c hc => isPathChar_of_isWordChar (hname c hc)) htype

theorem paths_bindNewProperties (line : List Char) {types : Bindings} (htypes : types.Paths) :
    (bindNewProperties line types).Paths := by
  refine List.foldlRecOn (motive := Paths) _ _ htypes (fun types htypes hit hhit => ?_)
  obtain ⟨hword, htype⟩ := (BindingLine.newProperty_yields _ _).value_of_mem hhit
  have hname : ∀ c ∈ hit.value.1, isPathChar c = true := fun c hc =>
    isPathChar_of_isWordChar (hword c hc)
  have hinstance : ∀ c ∈ instancePrefix, isPathChar c = true :=
    List.all_eq_true.mp (by decide +kernel)
  exact (htypes.insertText hname htype).insertText
    (List.forall_mem_append.mpr ⟨hinstance, hname⟩) htype

theorem paths_bindAlias (line : List Char) {types : Bindings} (htypes : types.Paths) :
    (bindAlias line types).Paths := by
  rw [bindAlias]
  split
  · exact htypes
  · next hit hhit =>
    split
    · next type hsource =>
      have hname := (BindingLine.aliased_yields _ _).value_of_mem (List.mem_of_head? hhit)
      refine htypes.insert ?_ ?_
      · rw [String.toList_ofList]
        exact fun c hc => isPathChar_of_isWordChar (hname c hc)
      · rw [sourceType?, Option.or_eq_some_iff] at hsource
        rcases hsource with hget | ⟨-, hbare⟩
        · exact htypes.dotted.of_get hget
        · obtain ⟨bare, -, hget⟩ := Option.bind_eq_some_iff.mp hbare
          exact htypes.dotted.of_get hget
    · exact htypes

theorem paths_bindParams (line : List Char) {types : Bindings} (htypes : types.Paths) :
    (bindParams line types).Paths := by
  rw [bindParams]
  split
  · exact htypes
  · refine List.foldlRecOn (motive := Paths) _ _ htypes (fun types htypes param _ => ?_)
    split
    · next typed htyped =>
      obtain ⟨hname, htype⟩ :=
        BindingLine.typedParam_yields.value_of_mem (List.mem_of_head? htyped)
      exact htypes.insertText (fun c hc => isPathChar_of_isWordChar (hname c hc)) htype
    · exact htypes

theorem paths_ofDocument (doc : Document) : (ofDocument doc).Paths := by
  refine List.foldlRecOn (motive := Paths) _ _ ⟨nofun, nofun⟩ (fun types htypes line _ => ?_)
  exact paths_bindParams line (paths_bindAlias line (paths_bindNewProperties line
    (paths_bindNewVariables line htypes)))

end Bindings

end CodeNav
