import CodeNav.Proofs.Calls.OwnCall
import CodeNav.Proofs.Navigation.TableOrder

/-! Positions in one word. The word at a position is the longest run of identifier characters that
touches it, a position past the end of a line being its end. Wherever in a word a position is, the
identifier is resolved alike and its calls are searched alike: what is read off the line behind the
position starts with an opening parenthesis, and there is none in a word. -/
namespace CodeNav
set_option autoImplicit false
open Text CallSearch

/-! ## Runs of identifier characters -/

/-- The characters of a line from `start` up to `stop`, all of them identifier characters. -/
structure IdentRun (chars : List Char) (start stop : Nat) : Prop where
  ordered : start ≤ stop
  within : stop ≤ chars.length
  inside : ∀ i c, start ≤ i → i < stop → chars[i]? = some c → isIdentChar c = true

/-- The longest of the runs that touch a column, where one that is not empty does. -/
structure WordAt (chars : List Char) (column start stop : Nat) : Prop where
  run : IdentRun chars start stop
  nonempty : start < stop
  from_start : start ≤ column
  to_stop : column ≤ stop
  longest : ∀ first last, IdentRun chars first last → first ≤ column → column ≤ last →
    start ≤ first ∧ last ≤ stop

theorem WordAt.unique {chars : List Char} {column start stop first last : Nat}
    (h : WordAt chars column start stop) (hother : WordAt chars column first last) :
    first = start ∧ last = stop := by
  obtain ⟨hfirst, hlast⟩ := h.longest first last hother.run hother.from_start hother.to_stop
  obtain ⟨hstart, hstop⟩ := hother.longest start stop h.run h.from_start h.to_stop
  omega

/-- A line cut at both ends of the run that touches a column; the run may be empty. -/
structure RunCut (chars : List Char) (column : Nat) (left word right : List Char) : Prop where
  eq_append : chars = left ++ (word ++ right)
  word_ident : ∀ c ∈ word, isIdentChar c = true
  left_end : ∀ c, left.getLast? = some c → isIdentChar c = false
  right_end : ∀ c, right.head? = some c → isIdentChar c = false
  from_word : left.length ≤ column
  to_word : column ≤ left.length + word.length

theorem Text.head_dropWhile {p : Char → Bool} {cs : List Char} {c : Char}
    (h : (cs.dropWhile p).head? = some c) : p c = false := by
  have hnot := List.head?_dropWhile_not p cs
  rw [h] at hnot
  exact hnot

theorem exists_runCut (chars : List Char) {column : Nat} (hcolumn : column ≤ chars.length) :
    ∃ left word right, RunCut chars column left word right := by
  let front := (chars.take column).reverse
  let back := chars.drop column
  have hfront : (front.dropWhile isIdentChar).reverse ++ (front.takeWhile isIdentChar).reverse =
      chars.take column := by
    rw [← List.reverse_append, List.takeWhile_append_dropWhile, List.reverse_reverse]
  have hlength := congrArg List.length hfront
  rw [List.length_append, List.length_take, Nat.min_eq_left hcolumn] at hlength
  have hident (cs : List Char) : ∀ c ∈ cs.takeWhile isIdentChar, isIdentChar c = true :=
    List.all_eq_true.mp List.all_takeWhile
  refine ⟨(front.dropWhile isIdentChar).reverse,
    (front.takeWhile isIdentChar).reverse ++ back.takeWhile isIdentChar,
    back.dropWhile isIdentChar, ?_, ?_, ?_, fun c hc => head_dropWhile hc, by omega, ?_⟩
  · rw [List.append_assoc, List.takeWhile_append_dropWhile, ← List.append_assoc, hfront,
      List.take_append_drop]
  · intro c hc
    rcases List.mem_append.mp hc with hc | hc
    · exact hident front c (List.mem_reverse.mp hc)
    · exact hident back c hc
  · intro c hc
    rw [List.getLast?_reverse] at hc
    exact head_dropWhile hc
  · rw [List.length_append]
    omega

namespace RunCut

variable {chars : List Char} {column : Nat} {left word right : List Char}
  (h : RunCut chars column left word right)

include h

theorem isRun : IdentRun chars left.length (left.length + word.length) where
  ordered := Nat.le_add_right _ _
  within := by
    rw [h.eq_append, List.length_append, List.length_append]
    omega
  inside i c hfrom hto hc := by
    obtain ⟨k, rfl⟩ := Nat.exists_eq_add_of_le hfrom
    rw [h.eq_append, List.getElem?_append_right hfrom, Nat.add_sub_cancel_left,
      List.getElem?_append_left (by omega)] at hc
    exact h.word_ident c (List.mem_of_getElem? hc)

/-- A run that touches the column and were longer would hold a character that ends the word. -/
theorem longest (first last : Nat) (hrun : IdentRun chars first last) (hfirst : first ≤ column)
    (hlast : column ≤ last) : left.length ≤ first ∧ last ≤ left.length + word.length := by
  have hfrom := h.from_word
  have hto := h.to_word
  constructor
  · refine Nat.le_of_not_lt (fun hbefore => ?_)
    have hne : left ≠ [] := by
      rintro rfl
      cases hbefore
    obtain ⟨body, c, rfl⟩ := (List.eq_nil_or_concat left).resolve_left hne
    rw [List.concat_eq_append, List.length_append, List.length_singleton] at hbefore hfrom
    have hc : chars[body.length]? = some c := by
      rw [h.eq_append, List.concat_eq_append, List.append_assoc,
        List.getElem?_append_right (Nat.le_refl _), Nat.sub_self]
      rfl
    have hident := hrun.inside body.length c (by omega) (by omega) hc
    rw [h.left_end c (by rw [List.concat_eq_append, List.getLast?_concat])] at hident
    cases hident
  · refine Nat.le_of_not_lt (fun hbehind => ?_)
    have hlength := hrun.within
    rw [h.eq_append, List.length_append, List.length_append] at hlength
    obtain ⟨c, rest, hright⟩ := List.exists_cons_of_length_pos (l := right) (by omega)
    have hc : chars[left.length + word.length]? = some c := by
      rw [h.eq_append, ← List.append_assoc, ← List.length_append,
        List.getElem?_append_right (Nat.le_refl _), Nat.sub_self, hright]
      rfl
    have hident := hrun.inside (left.length + word.length) c (by omega) (by omega) hc
    rw [h.right_end c (by rw [hright]; rfl)] at hident
    cases hident

theorem wordAt (hne : word ≠ []) :
    WordAt chars column left.length (left.length + word.length) where
  run := h.isRun
  nonempty := Nat.lt_add_of_pos_right (List.length_pos_iff.mpr hne)
  from_start := h.from_word
  to_stop := h.to_word
  longest := h.longest

end RunCut

/-! ## The word at a position -/

namespace Document

/-- The column of a position: past the end of its line it is the end. -/
def column (doc : Document) (pos : Position) : Nat :=
  min pos.character (doc.line pos.line).length

theorem column_le (doc : Document) (pos : Position) :
    doc.column pos ≤ (doc.line pos.line).length :=
  Nat.min_le_right _ _

theorem wordRange_column (doc : Document) (pos : Position) :
    doc.wordRange? ⟨pos.line, doc.column pos⟩ = doc.wordRange? pos := by
  by_cases hin : pos.character ≤ (doc.line pos.line).length
  · rw [column, Nat.min_eq_left hin]
  · have hpast : (doc.line pos.line).length ≤ pos.character := Nat.le_of_not_le hin
    have hcolumn : doc.column pos = (doc.line pos.line).length := Nat.min_eq_right hpast
    simp only [wordRange?, before, after, hcolumn, Nat.min_self, Nat.min_eq_right hpast,
      List.take_length, List.take_of_length_le hpast, List.drop_length,
      List.drop_eq_nil_of_le hpast]

theorem wordRange_of_runCut {doc : Document} {pos : Position} {left word right : List Char}
    (h : RunCut (doc.line pos.line) (doc.column pos) left word right) :
    doc.wordRange? pos =
      if word = [] then none else some ⟨pos.line, left.length, left.length + word.length⟩ := by
  rw [← wordRange_column]
  split
  · next hnone =>
    subst hnone
    have hat : doc.column pos = left.length := Nat.le_antisymm h.to_word h.from_word
    have hline : doc.line pos.line = left ++ right := h.eq_append
    have hleft := takeWhile_reverse_append h.word_ident h.left_end
    have hright := takeWhile_append_of_stop h.word_ident h.right_end
    rw [List.append_nil] at hleft
    rw [List.nil_append] at hright
    rw [wordRange?, before, after, hat, hline, List.take_left, List.drop_left, hleft, hright]
    rfl
  · next hne =>
    exact wordRange_of_cut h.eq_append h.word_ident hne h.left_end h.right_end h.from_word h.to_word

/-- The word at a position is the longest run that touches its column. -/
theorem wordRange_eq_some_iff (doc : Document) (pos : Position) (range : WordRange) :
    doc.wordRange? pos = some range ↔ range.line = pos.line ∧
      WordAt (doc.line pos.line) (doc.column pos) range.start range.stop := by
  obtain ⟨left, word, right, hcut⟩ := exists_runCut (doc.line pos.line) (doc.column_le pos)
  rw [wordRange_of_runCut hcut]
  constructor
  · intro h
    split at h
    · cases h
    · next hne =>
      cases h
      exact ⟨rfl, hcut.wordAt hne⟩
  · rintro ⟨hline, hword⟩
    have hne : word ≠ [] := by
      rintro rfl
      have hwithin := hcut.longest _ _ hword.run hword.from_start hword.to_stop
      have hnonempty := hword.nonempty
      rw [List.length_nil] at hwithin
      omega
    obtain ⟨hstart, hstop⟩ := (hcut.wordAt hne).unique hword
    rw [if_neg hne, ← hline, ← hstop, ← hstart]

/-- Every position from the start of a word to its end touches this word. -/
theorem wordRange_of_mem {doc : Document} {pos : Position} {range : WordRange}
    (h : doc.wordRange? pos = some range) {character : Nat} (hstart : range.start ≤ character)
    (hstop : character ≤ range.stop) : doc.wordRange? ⟨pos.line, character⟩ = some range := by
  obtain ⟨left, word, right, hcut⟩ := exists_runCut (doc.line pos.line) (doc.column_le pos)
  rw [wordRange_of_runCut hcut] at h
  split at h
  · cases h
  · next hne =>
    cases h
    exact wordRange_of_cut hcut.eq_append hcut.word_ident hne hcut.left_end hcut.right_end hstart hstop

/-- Behind a position in a word, an opening parenthesis is one behind the word. -/
theorem opening_after_word {doc : Document} {pos : Position} {range : WordRange}
    (h : doc.wordRange? pos = some range) :
    (doc.after pos).dropWhile (· != '(') =
      ((doc.line pos.line).drop range.stop).dropWhile (· != '(') := by
  obtain ⟨-, hword⟩ := (wordRange_eq_some_iff doc pos range).mp h
  have hstart := hword.from_start
  have hstop := hword.to_stop
  have hwithin := hword.run.within
  rw [column] at hstart hstop
  rw [after]
  by_cases hin : pos.character ≤ range.stop
  · obtain ⟨k, hk⟩ := Nat.exists_eq_add_of_le hin
    have hcut : (doc.line pos.line).drop pos.character =
        ((doc.line pos.line).drop pos.character).take k ++ (doc.line pos.line).drop range.stop := by
      rw [hk, ← List.drop_drop, List.take_append_drop]
    rw [hcut, List.dropWhile_append_of_pos]
    intro c hc
    obtain ⟨i, hi⟩ := List.mem_iff_getElem?.mp hc
    rw [List.getElem?_take] at hi
    split at hi
    · rw [List.getElem?_drop] at hi
      have hident := hword.run.inside (pos.character + i) c (by omega) (by omega) hi
      rw [bne_iff_ne]
      rintro rfl
      cases hident
    · cases hi
  · -- Past the end of the line, the word ends where the line does.
    have hend : range.stop = (doc.line pos.line).length := by omega
    rw [List.drop_eq_nil_of_le (by omega), List.drop_eq_nil_of_le (by omega)]

theorem argumentCount_of_sameWord {doc : Document} {pos other : Position} {range : WordRange}
    (hline : pos.line = other.line) (hpos : doc.wordRange? pos = some range)
    (hother : doc.wordRange? other = some range) :
    doc.argumentCount pos = doc.argumentCount other := by
  rw [argumentCount, argumentCount, opening_after_word hpos, opening_after_word hother, hline]

end Document

/-! ## Answers at a position -/

theorem Lookup.at_of_sameWord {doc : Document} {pos other : Position}
    (hline : pos.line = other.line) (hword : doc.wordRange? pos = doc.wordRange? other)
    (table : Table) : Lookup.at? doc pos table = Lookup.at? doc other table := by
  rw [Lookup.at?, Lookup.at?]
  cases hother : doc.wordRange? other with
  | none => rw [hword, hother]; rfl
  | some range =>
    rw [hword, hother, Document.argumentCount_of_sameWord hline (hword.trans hother) hother, hline]

namespace Service

theorem target_of_sameWord {doc : Document} {pos other : Position}
    (hline : pos.line = other.line) (hword : doc.wordRange? pos = doc.wordRange? other) :
    target? doc pos = target? doc other := by
  rw [target?, target?, Document.declaredTarget?, Document.declaredTarget?, Document.word?,
    Document.word?, hword, hline]

theorem findReferences_of_sameWord (s : Service) (disk : Disk) {doc : Document}
    {pos other : Position} (hline : pos.line = other.line)
    (hword : doc.wordRange? pos = doc.wordRange? other) :
    s.findReferences disk doc pos = s.findReferences disk doc other := by
  have hcalls (target : Target) (files : List String) :
      s.callsOf disk target doc pos files = s.callsOf disk target doc other files := by
    rw [callsOf, callsOf, hline]
  simp only [findReferences, Document.word?, hword, target_of_sameWord hline hword, hcalls]

/-- It does not matter where in a word the cursor is. The word is the longest run of identifier
characters that touches it, a position past the end of the line being the end, and every position
from its start to its end touches the same word; at any two positions of a line that touch the same
word, or none, the identifier is resolved alike and the search for its calls comes to the same. -/
theorem same_word_same_answers (doc : Document) :
    (∀ pos range, doc.wordRange? pos = some range ↔ range.line = pos.line ∧
      WordAt (doc.line pos.line) (min pos.character (doc.line pos.line).length)
        range.start range.stop) ∧
    (∀ pos range, doc.wordRange? pos = some range →
      ∀ character, range.start ≤ character → character ≤ range.stop →
        doc.wordRange? ⟨pos.line, character⟩ = some range) ∧
    ∀ pos other, pos.line = other.line → doc.wordRange? pos = doc.wordRange? other →
      (∀ namespaces table,
        doc.resolve? pos namespaces table = doc.resolve? other namespaces table) ∧
      ∀ (s : Service) (disk : Disk),
        s.findReferences disk doc pos = s.findReferences disk doc other := by
  refine ⟨doc.wordRange_eq_some_iff, ?_, ?_⟩
  · intro pos range h character hstart hstop
    exact Document.wordRange_of_mem h hstart hstop
  · intro pos other hline hword
    constructor
    · intro namespaces table
      rw [Document.resolve?, Document.resolve?, Lookup.at_of_sameWord hline hword]
    · intro s disk
      exact s.findReferences_of_sameWord disk hline hword

/-- A document whose last line ends with a word. -/
def trailingDocument : Document :=
  ⟨"a.js", ["p.run(1);".toList, "p.run".toList]⟩

theorem same_word_same_answers_of_run :
    trailingDocument.wordRange? ⟨1, 2⟩ = some ⟨1, 2, 5⟩ ∧
    trailingDocument.wordRange? ⟨1, 9⟩ = some ⟨1, 2, 5⟩ ∧
    trailingDocument.resolve? ⟨1, 9⟩ [] clampTable =
      trailingDocument.resolve? ⟨1, 2⟩ [] clampTable ∧
    (gaugeService.findReferences lateDisk trailingDocument ⟨1, 9⟩).2.1 =
      .found { target := ⟨"p", "run"⟩, references := [⟨⟨"a.js", 0, 0⟩, "p.run(1);"⟩] } := by
  have hword : trailingDocument.wordRange? ⟨1, 2⟩ = some ⟨1, 2, 5⟩ := by decide +kernel
  have hpast : trailingDocument.wordRange? ⟨1, 9⟩ = some ⟨1, 2, 5⟩ := by decide +kernel
  have hfound : (gaugeService.findReferences lateDisk trailingDocument ⟨1, 2⟩).2.1 =
      .found { target := ⟨"p", "run"⟩, references := [⟨⟨"a.js", 0, 0⟩, "p.run(1);"⟩] } := by
    decide +kernel
  obtain ⟨hresolve, hsearch⟩ := (same_word_same_answers trailingDocument).2.2 ⟨1, 9⟩ ⟨1, 2⟩ rfl
    (hpast.trans hword.symm)
  exact ⟨hword, hpast, hresolve [] clampTable, hsearch gaugeService lateDisk ▸ hfound⟩

end Service

end CodeNav
