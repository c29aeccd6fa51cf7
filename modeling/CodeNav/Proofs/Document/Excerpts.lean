import CodeNav.Document.Bindings
import CodeNav.Document.ClassLine
import CodeNav.Proofs.Document.LineOffsets
import CodeNav.Proofs.Text.Hits

/-! What a document says is no longer than the document. The types that its lines bind and the
classes that they introduce are copied from the lines, so a bound on the lines bounds them; and a
text that fits in memory has lines that together do. -/
namespace CodeNav
set_option autoImplicit false
open Text Text.Scan

/-! ## Pieces of a text -/

theorem Text.infix_of_mem_splitOn {sep : Char} {cs piece : List Char} (h : piece ∈ splitOn sep cs) :
    piece <:+: cs := by
  induction cs generalizing piece with
  | nil =>
    rw [splitOn_free sep [] List.not_mem_nil, List.mem_singleton] at h
    exact h ▸ List.infix_refl _
  | cons c cs ih =>
    by_cases hc : c = sep
    · rw [hc, splitOn_sep, List.mem_cons] at h
      rcases h with rfl | h
      · exact List.nil_infix
      · exact List.infix_cons (ih h)
    · obtain ⟨first, pieces, hcs, hccs⟩ := splitOn_cons_of_ne sep c cs hc
      have hfirst : first <+: cs := by
        rw [← joinWith_splitOn sep cs, hcs, joinWith_cons]
        exact List.prefix_append first _
      rw [hccs, List.mem_cons] at h
      rcases h with rfl | h
      · exact ((List.prefix_cons_inj c).mpr hfirst).isInfix
      · exact List.infix_cons (ih (hcs ▸ List.mem_cons_of_mem first h))

theorem Text.infix_joinWith_of_mem (sep : Char) {piece : List Char} {pieces : List (List Char)}
    (h : piece ∈ pieces) : piece <:+: joinWith sep pieces := by
  match pieces with
  | [] => cases h
  | [only] => exact List.mem_singleton.mp h ▸ List.infix_refl _
  | first :: next :: pieces =>
    rw [joinWith_cons_cons]
    rcases List.mem_cons.mp h with rfl | h
    · exact (List.prefix_append piece _).isInfix
    · exact (infix_joinWith_of_mem sep h).trans
        ((List.suffix_cons sep _).trans (List.suffix_append first _)).isInfix

theorem Text.trim_isInfix (cs : List Char) : trim cs <:+: cs := by
  rw [trim, trimEnd, trimStart]
  refine List.IsInfix.trans ?_ (List.dropWhile_suffix isBlank).isInfix
  rw [← List.reverse_infix, List.reverse_reverse]
  exact (List.dropWhile_suffix isBlank).isInfix

/-! ## Documents that fit in memory -/

/-- The lines, with line feeds between them, take less than half of the address space. -/
def Document.Storable (doc : Document) : Prop :=
  2 * Utf8.size (joinWith '\n' doc.lines) < UInt64.size

theorem size_withoutReturn_le (line : List Char) :
    Utf8.size (Document.withoutReturn line) ≤ Utf8.size line := by
  rw [Document.withoutReturn, dropSuffix?]
  split
  · exact Utf8.size_le_of_infix (List.take_prefix _ line).isInfix
  · exact Nat.le_refl _

theorem size_joinWith_withoutReturn_le (lines : List (List Char)) :
    Utf8.size (joinWith '\n' (lines.map Document.withoutReturn)) ≤
      Utf8.size (joinWith '\n' lines) := by
  match lines with
  | [] => exact Nat.le_refl _
  | [line] => exact size_withoutReturn_le line
  | line :: next :: lines =>
    have hline := size_withoutReturn_le line
    have hlater := size_joinWith_withoutReturn_le (next :: lines)
    rw [List.map_cons] at hlater
    rw [List.map_cons, List.map_cons, joinWith_cons_cons, joinWith_cons_cons, Utf8.size_append,
      Utf8.size_append, Utf8.size_cons, Utf8.size_cons]
    omega

/-- A text of less than half of the address space makes a document that fits. -/
theorem storable_ofText (path : String) {text : List Char}
    (h : 2 * Utf8.size text < UInt64.size) : (Document.ofText path text).Storable := by
  have hsize := size_joinWith_withoutReturn_le (splitOn '\n' text)
  rw [joinWith_splitOn] at hsize
  exact Nat.lt_of_le_of_lt (Nat.mul_le_mul_left 2 hsize) h

/-- Each character and each line end takes a byte. -/
theorem length_le_size_joinWith (lines : List (List Char)) :
    lines.flatten.length + lines.length ≤ Utf8.size (joinWith '\n' lines) + 1 := by
  match lines with
  | [] => exact Nat.zero_le _
  | [line] =>
    rw [List.flatten_singleton]
    exact Nat.succ_le_succ (Utf8.length_le_size line)
  | line :: next :: lines =>
    have hline := Utf8.length_le_size line
    have hlater := length_le_size_joinWith (next :: lines)
    have hfeed : '\n'.utf8Size = 1 := rfl
    rw [List.flatten_cons, List.length_append, List.length_cons, joinWith_cons_cons,
      Utf8.size_append, Utf8.size_cons]
    omega

namespace Document.Storable

variable {doc : Document} (h : doc.Storable)

include h

theorem length_lines_lt : doc.lines.length < UInt64.size := by
  have hlength := length_le_size_joinWith doc.lines
  have hword : UInt64.size = 18446744073709551616 := rfl
  rw [Storable] at h
  omega

/-- The characters of the lines from some line on. -/
theorem length_flatten_drop_lt (count : Nat) :
    (doc.lines.drop count).flatten.length + 1 < UInt64.size := by
  have hlength := length_le_size_joinWith doc.lines
  have hword : UInt64.size = 18446744073709551616 := rfl
  rw [← List.take_append_drop count doc.lines, List.flatten_append, List.length_append,
    List.take_append_drop] at hlength
  rw [Storable] at h
  omega

theorem size_line_lt (index : Nat) : 2 * Utf8.size (doc.line index) < UInt64.size := by
  rw [Document.line, List.getD_eq_getElem?_getD]
  cases hget : doc.lines[index]? with
  | none => exact Nat.zero_lt_succ _
  | some line =>
    have hinfix := infix_joinWith_of_mem '\n' (List.mem_of_getElem? hget)
    exact Nat.lt_of_le_of_lt (Nat.mul_le_mul_left 2 (Utf8.size_le_of_infix hinfix)) h

theorem length_line_lt (index : Nat) : (doc.line index).length < UInt64.size := by
  have hsize := h.size_line_lt index
  have hlength := Utf8.length_le_size (doc.line index)
  omega

end Document.Storable

/-! ## Types of variables -/

namespace BindingLine

theorem advances_keyword : keyword.Advances :=
  advances_wordEdge.bind fun _ => (advances_oneOf _).bind fun _ => advances_blanks1

theorem excerpts_constructed (isType : Char → Bool) : (constructed isType).Excerpts id :=
  advances_blanks.excerpts_bind fun _ => (advances_chars _).excerpts_bind fun _ =>
    advances_blanks.excerpts_bind fun _ => (advances_chars _).excerpts_bind fun _ =>
      advances_blanks1.excerpts_bind fun _ => (excerpts_run1 isType).bind fun _ =>
        yields_bind fun _ => yields_bind fun _ => yields_pure rfl

theorem excerpts_newVariable (isName isType : Char → Bool) :
    (newVariable isName isType).Excerpts Prod.snd :=
  advances_keyword.excerpts_bind fun _ => (advances_run1 isName).excerpts_bind fun _ =>
    (excerpts_constructed isType).bind fun _ => yields_pure rfl

theorem excerpts_newProperty (isName isType : Char → Bool) :
    (newProperty isName isType).Excerpts Prod.snd :=
  advances_wordEdge.excerpts_bind fun _ => (advances_chars _).excerpts_bind fun _ =>
    (advances_run1 isName).excerpts_bind fun _ =>
      (excerpts_constructed isType).bind fun _ => yields_pure rfl

theorem excerpts_functionParams : functionParams.Excerpts id :=
  advances_wordEdge.excerpts_bind fun _ => (advances_chars _).excerpts_bind fun _ =>
    advances_blanks.excerpts_bind fun _ =>
      ((advances_run isWordChar).bind fun _ => advances_pure ()).excerpts_bind fun _ =>
        advances_blanks.excerpts_bind fun _ => (advances_chars _).excerpts_bind fun _ =>
          (excerpts_run1 _).bind fun _ => yields_bind fun _ => yields_pure rfl

theorem excerpts_typedParam : typedParam.Excerpts Prod.snd :=
  (advances_run1 isWordChar).excerpts_bind fun _ => advances_blanks.excerpts_bind fun _ =>
    (advances_chars _).opt.excerpts_bind fun _ => advances_blanks.excerpts_bind fun _ =>
      (advances_chars _).excerpts_bind fun _ => advances_blanks.excerpts_bind fun _ =>
        (excerpts_run1 isPathChar).bind fun _ => yields_pure rfl

end BindingLine

namespace Bindings

/-- Every type takes at most so many bytes. -/
def Bounded (bound : Nat) (types : Bindings) : Prop :=
  ∀ bind ∈ types, Utf8.size bind.2.toList ≤ bound

namespace Bounded

variable {bound : Nat} {types : Bindings} (h : types.Bounded bound)

include h

theorem of_get {name type : String} (hget : types.get? name = some type) :
    Utf8.size type.toList ≤ bound := by
  rw [get?, List.lookup_eq_some_iff] at hget
  obtain ⟨newer, older, rfl, -⟩ := hget
  exact h (name, type) (List.mem_append_right newer List.mem_cons_self)

theorem insert (name : String) {type : String} (htype : Utf8.size type.toList ≤ bound) :
    (types.insert name type).Bounded bound := by
  intro bind hbind
  rcases List.mem_cons.mp hbind with rfl | hbind
  · exact htype
  · exact h bind (List.mem_filter.mp hbind).1

theorem insertText (name : List Char) {type line : List Char} (htype : type <:+: line)
    (hline : Utf8.size line ≤ bound) : (types.insertText name type).Bounded bound :=
  h.insert _ (by
    rw [String.toList_ofList]
    exact Nat.le_trans (Utf8.size_le_of_infix htype) hline)

theorem observe {line : List Char} (hline : Utf8.size line ≤ bound) :
    (types.observe line).Bounded bound := by
  have hvariables : (bindNewVariables line types).Bounded bound :=
    List.foldlRecOn (motive := Bounded bound) _ _ h fun later hlater hit hhit =>
      hlater.insertText _ ((BindingLine.excerpts_newVariable _ _).of_hit hhit) hline
  have hproperties : (bindNewProperties line (bindNewVariables line types)).Bounded bound := by
    refine List.foldlRecOn (motive := Bounded bound) _ _ hvariables fun later hlater hit hhit => ?_
    have htype := (BindingLine.excerpts_newProperty _ _).of_hit hhit
    exact (hlater.insertText _ htype hline).insertText _ htype hline
  have halias : (bindAlias line (bindNewProperties line (bindNewVariables line types))).Bounded
      bound := by
    rw [bindAlias]
    split
    · exact hproperties
    · split
      · next type hsource =>
        refine hproperties.insert _ ?_
        rw [sourceType?, Option.or_eq_some_iff] at hsource
        rcases hsource with hget | ⟨-, hbare⟩
        · exact hproperties.of_get hget
        · obtain ⟨bare, -, hget⟩ := Option.bind_eq_some_iff.mp hbare
          exact hproperties.of_get hget
      · exact hproperties
  rw [Bindings.observe, bindParams]
  split
  · exact halias
  · next hit hhit =>
    have hparams := BindingLine.excerpts_functionParams.of_hit (List.mem_of_head? hhit)
    refine List.foldlRecOn (motive := Bounded bound) _ _ halias fun later hlater param hparam => ?_
    split
    · next typed htyped =>
      have htype := BindingLine.excerpts_typedParam.of_hit (List.mem_of_head? htyped)
      exact hlater.insertText _ (htype.trans ((trim_isInfix param).trans
        ((infix_of_mem_splitOn hparam).trans hparams))) hline
    · exact hlater

end Bounded

theorem bounded_ofDocument {doc : Document} {bound : Nat}
    (h : ∀ line ∈ doc.lines, Utf8.size line ≤ bound) : (ofDocument doc).Bounded bound :=
  List.foldlRecOn (motive := Bounded bound) _ _ nofun fun _ htypes line hline =>
    htypes.observe (h line hline)

end Bindings

/-! ## Classes -/

namespace ClassLine

theorem excerpts_assignedClass : assignedClass.Excerpts id := by
  have hexport : (do lit "export"; blanks1 : Scan Unit).Advances :=
    (advances_chars _).bind fun _ => advances_blanks1
  have hkeyword : (do opt (do lit "export"; blanks1); oneOf ["const", "let", "var"]; blanks1 :
      Scan Unit).Advances :=
    hexport.opt.bind fun _ => (advances_oneOf _).bind fun _ => advances_blanks1
  exact hkeyword.opt.excerpts_bind fun _ => (excerpts_run1 isPathChar).bind fun _ =>
    yields_bind fun _ => yields_bind fun _ => yields_bind fun _ => yields_bind fun _ =>
      yields_bind fun _ => yields_bind fun _ => yields_bind fun _ => yields_bind fun _ =>
        yields_bind fun _ => yields_pure rfl

theorem excerpts_declaredClass : declaredClass.Excerpts id := by
  have hdefault : (do lit "default"; blanks1 : Scan Unit).Advances :=
    (advances_chars _).bind fun _ => advances_blanks1
  have hexport : (do lit "export"; blanks1; opt (do lit "default"; blanks1) : Scan Unit).Advances :=
    (advances_chars _).bind fun _ => advances_blanks1.bind fun _ => hdefault.opt
  have habstract : (do lit "abstract"; blanks1 : Scan Unit).Advances :=
    (advances_chars _).bind fun _ => advances_blanks1
  exact hexport.opt.excerpts_bind fun _ => habstract.opt.excerpts_bind fun _ =>
    (advances_chars _).excerpts_bind fun _ => advances_blanks1.excerpts_bind fun _ =>
      excerpts_run1 isPathChar

theorem className_isInfix {line : List Char} {name : String} (h : className? line = some name) :
    name.toList <:+: line := by
  obtain ⟨path, hpath, rfl⟩ := Option.map_eq_some_iff.mp h
  rw [String.toList_ofList]
  refine List.IsInfix.trans ?_ (trim_isInfix line)
  rcases Option.or_eq_some_iff.mp hpath with hassigned | ⟨-, hdeclared⟩
  · exact excerpts_assignedClass.of_atStart hassigned
  · exact excerpts_declaredClass.of_atStart hdeclared

end ClassLine

theorem Document.size_enclosingClass_le {doc : Document} {bound line : Nat}
    (h : ∀ text ∈ doc.lines, Utf8.size text ≤ bound) {name : String}
    (hname : doc.enclosingClass? line = some name) : Utf8.size name.toList ≤ bound := by
  obtain ⟨text, htext, hclass⟩ := List.exists_of_findSome?_eq_some hname
  have hmem := List.mem_of_mem_take (List.mem_reverse.mp htext)
  exact Nat.le_trans (Utf8.size_le_of_infix (ClassLine.className_isInfix hclass)) (h text hmem)

end CodeNav
