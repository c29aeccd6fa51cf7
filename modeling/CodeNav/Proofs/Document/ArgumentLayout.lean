import CodeNav.Document.Arguments
import CodeNav.Proofs.Text.Pieces

/-! The layout of a call does not matter to the number of its arguments. A blank leaves the count as
it is, inside quotes and outside, and so does a line end; hence the count depends on the non-blank
characters alone, wherever the lines are broken. -/
namespace CodeNav
set_option autoImplicit false
open Text

/-! ## Text without its blanks -/

namespace Text

def solid (cs : List Char) : List Char :=
  cs.filter (!isBlank ·)

theorem solid_append (front back : List Char) : solid (front ++ back) = solid front ++ solid back :=
  List.filter_append front back

theorem solid_cons_blank {c : Char} (hc : isBlank c = true) (cs : List Char) :
    solid (c :: cs) = solid cs := by
  rw [solid, solid, List.filter_cons_of_neg]
  simp [hc]

/-- Blanks between pieces are lost with the others. -/
theorem solid_spaced {sep : Char} (hsep : isBlank sep = true) (pieces : List (List Char)) :
    solid (pieces.flatMap (sep :: ·)) = solid pieces.flatten := by
  induction pieces with
  | nil => rfl
  | cons piece pieces ih =>
    rw [List.flatMap_cons, List.flatten_cons, List.cons_append, solid_cons_blank hsep, solid_append,
      solid_append, ih]

end Text

namespace Document

theorem withoutReturn_concat (front : List Char) : withoutReturn (front ++ ['\r']) = front := by
  simp [withoutReturn, dropSuffix?]

theorem withoutReturn_of_last (line : List Char) (h : line.getLast? ≠ some '\r') :
    withoutReturn line = line := by
  rw [withoutReturn, dropSuffix?, if_neg, Option.getD_none]
  intro hsuffix
  obtain ⟨front, rfl⟩ := List.isSuffixOf_iff_suffix.mp hsuffix
  exact h List.getLast?_concat

theorem solid_withoutReturn (line : List Char) : solid (withoutReturn line) = solid line := by
  by_cases hlast : line.getLast? = some '\r'
  · obtain ⟨front, rfl⟩ := List.getLast?_eq_some_iff.mp hlast
    rw [withoutReturn_concat, solid_append]
    exact (List.append_nil (solid front)).symm
  · rw [withoutReturn_of_last line hlast]

theorem solid_flatten_withoutReturn (lines : List (List Char)) :
    solid (lines.map withoutReturn).flatten = solid lines.flatten := by
  induction lines with
  | nil => rfl
  | cons line lines ih =>
    rw [List.map_cons, List.flatten_cons, List.flatten_cons, solid_append, solid_append,
      solid_withoutReturn, ih]

/-- Only the end of a line can lose a carriage return. -/
theorem withoutReturn_append (front rest : List Char) {c : Char} (hc : c ≠ '\r') :
    withoutReturn (front ++ c :: rest) = front ++ c :: withoutReturn rest := by
  rcases List.eq_nil_or_concat rest with rfl | ⟨body, d, rfl⟩
  · rw [withoutReturn_of_last (front ++ [c]) (by simpa using hc), withoutReturn_of_last [] nofun]
  · have hall : front ++ c :: (body ++ [d]) = (front ++ c :: body) ++ [d] := by simp
    rw [List.concat_eq_append]
    by_cases hd : d = '\r'
    · rw [hall, hd, withoutReturn_concat, withoutReturn_concat]
    · have hlast : some d ≠ some '\r' := fun he => hd (Option.some.inj he)
      rw [withoutReturn_of_last (body ++ [d]) (by rwa [List.getLast?_concat]),
        withoutReturn_of_last _ (by rwa [hall, List.getLast?_concat])]

end Document

/-! ## Blanks and the count -/

namespace Tally

/-- An open quote is a quote. -/
def Quoting (t : Tally) : Prop :=
  ∀ q, t.quote = some q → isQuote q = true

theorem quoting_of_none {t : Tally} (h : t.quote = none) : t.Quoting := by
  intro q hq
  rw [h] at hq
  cases hq

theorem no_mark_of_blank {c : Char} (hc : isBlank c = true) :
    isOpening c = false ∧ isClosing c = false ∧ isQuote c = false ∧ c ≠ ',' := by
  have hmark (marks : List Char) (hmarks : marks.all (!isBlank ·) = true) : c ∉ marks := by
    intro hmem
    have hsolid := List.all_eq_true.mp hmarks c hmem
    rw [hc] at hsolid
    cases hsolid
  have hopening := hmark ['(', '[', '\x7b'] (by decide)
  have hclosing := hmark [')', ']', '\x7d'] (by decide)
  have hquote := hmark ['"', '\'', '\x60'] (by decide)
  have hcomma := hmark [','] (by decide)
  simp only [List.mem_cons, List.not_mem_nil, or_false, not_or] at hopening hclosing hquote hcomma
  simp [isOpening, isClosing, isQuote, hopening, hclosing, hquote, hcomma]

theorem take_blank (t : Tally) {c : Char} (hc : isBlank c = true) : t.take c = t := by
  simp [take, hc]

theorem step_blank {t : Tally} (ht : t.Quoting) {c : Char} (hc : isBlank c = true) :
    t.step? c = some t := by
  obtain ⟨hopening, hclosing, hquote, hcomma⟩ := no_mark_of_blank hc
  rw [step?, t.take_blank hc]
  split
  · next q hq =>
    -- A blank is not the quote that would close.
    have hne : c ≠ q := by
      intro he
      rw [he, ht q hq] at hquote
      cases hquote
    simp [hne, hq.symm]
  · simp [hopening, hclosing, hquote, hcomma]

/-- A step opens no quote but the character it takes. -/
theorem quote_of_step {t later : Tally} {c : Char} (h : t.step? c = some later) :
    later.quote = none ∨ later.quote = t.quote ∨ later.quote = some c ∧ isQuote c = true := by
  rw [step?] at h
  split at h
  · next q hq =>
    cases h
    by_cases hc : c = q
    · exact .inl (if_pos (beq_iff_eq.mpr hc))
    · exact .inr (.inl ((if_neg (mt beq_iff_eq.mp hc)).trans hq.symm))
  · next hq =>
    split at h
    · split at h <;> cases h <;> exact .inl hq
    split at h
    · split at h <;> cases h
      exact .inl hq
    split at h
    · cases h
      exact .inl hq
    split at h
    · next hquote =>
      cases h
      exact .inr (.inr ⟨rfl, hquote⟩)
    · cases h
      exact .inl hq

theorem Quoting.step {t later : Tally} (ht : t.Quoting) {c : Char}
    (h : t.step? c = some later) : later.Quoting := by
  intro q hq
  rcases quote_of_step h with hnone | hsame | ⟨hsome, hquote⟩
  · rw [hnone] at hq
    cases hq
  · exact ht q (hsame ▸ hq)
  · rw [hsome, Option.some.injEq] at hq
    exact hq ▸ hquote

/-- The non-blank characters of a line decide, whatever the rest of the text is worth. -/
theorem countLine_solid {t : Tally} (ht : t.Quoting) (next : Tally → Nat) (cs : List Char) :
    t.countLine next (solid cs) = t.countLine next cs := by
  induction cs generalizing t with
  | nil => rfl
  | cons c cs ih =>
    by_cases hc : isBlank c = true
    · rw [solid_cons_blank hc, countLine, step_blank ht hc]
      exact ih ht
    · have hsolid : solid (c :: cs) = c :: solid cs := List.filter_cons_of_pos (by simpa using hc)
      rw [hsolid, countLine, countLine]
      cases hstep : t.step? c with
      | none => rfl
      | some later => exact ih (ht.step hstep)

theorem countLine_append (t : Tally) (next : Tally → Nat) (front back : List Char) :
    t.countLine next (front ++ back) = t.countLine (fun later => later.countLine next back) front := by
  induction front generalizing t with
  | nil => rfl
  | cons c front ih =>
    rw [List.cons_append, countLine, countLine]
    cases t.step? c with
    | none => rfl
    | some later => exact ih later

-- What follows a line starts from a count that the line left, and there an open quote is a quote.
theorem countLine_congr {t : Tally} (ht : t.Quoting) {next other : Tally → Nat}
    (h : ∀ later : Tally, later.Quoting → next later = other later) (cs : List Char) :
    t.countLine next cs = t.countLine other cs := by
  induction cs generalizing t with
  | nil => exact h t ht
  | cons c cs ih =>
    rw [countLine, countLine]
    cases hstep : t.step? c with
    | none => rfl
    | some later => exact ih (ht.step hstep)

/-- Line by line, or the lines run together: from every state the count is the same. -/
theorem countLines_eq {t : Tally} (ht : t.Quoting) (lines : List (List Char)) :
    t.countLines lines = t.countLine total lines.flatten := by
  induction lines generalizing t with
  | nil => rfl
  | cons line lines ih =>
    rw [countLines, List.flatten_cons, countLine_append]
    refine countLine_congr ht (fun later hlater => ?_) line
    rw [later.take_blank (by decide)]
    exact ih hlater

end Tally

/-! ## Calls in a document -/

namespace Document

/-- The count at a position goes through the non-blank characters behind the first opening
parenthesis, to the end of the document. -/
theorem argumentCount_eq {doc : Document} {pos : Position} {front tail : List Char}
    (hafter : doc.after pos = front ++ '(' :: tail) (hfront : '(' ∉ front) :
    doc.argumentCount pos = Tally.countLine { depth := 1 } Tally.total
      (solid (tail ++ (doc.lines.drop (pos.line + 1)).flatten)) := by
  have hopen : (doc.after pos).dropWhile (· != '(') = '(' :: tail := by
    rw [hafter, dropWhile_ne_append hfront]
  rw [argumentCount, hopen]
  simp only
  rw [Tally.countLines_eq (Tally.quoting_of_none rfl), List.flatten_cons, List.cons_append,
    Tally.countLine_solid (Tally.quoting_of_none rfl)]
  rfl

theorem length_take_of_drop {cs rest : List Char} {n : Nat} (h : cs.drop n = rest)
    (hne : rest ≠ []) : (cs.take n).length = n := by
  have hlt : n < cs.length := by
    rw [← h, Ne, List.drop_eq_nil_iff] at hne
    omega
  rw [List.length_take, Nat.min_eq_left (Nat.le_of_lt hlt)]

/-- The same for a line as it was read, with the carriage return that it may have lost. -/
theorem argumentCount_of_read {doc : Document} {pos : Position} {line front tail : List Char}
    {rest : List (List Char)} (hlines : doc.lines.drop pos.line = withoutReturn line :: rest)
    (hcut : line.drop pos.character = front ++ '(' :: tail) (hfront : '(' ∉ front) :
    doc.argumentCount pos =
      Tally.countLine { depth := 1 } Tally.total (solid (tail ++ rest.flatten)) := by
  have hread : withoutReturn line =
      line.take pos.character ++ (front ++ '(' :: withoutReturn tail) := by
    have hall : line = (line.take pos.character ++ front) ++ '(' :: tail := by
      rw [List.append_assoc, ← hcut, List.take_append_drop]
    conv => lhs; rw [hall]
    rw [withoutReturn_append _ _ (by decide), List.append_assoc]
  have hline : doc.line pos.line = withoutReturn line := by
    rw [Document.line, List.getD_eq_getElem?_getD, ← List.head?_drop, hlines]
    rfl
  have hafter : doc.after pos = front ++ '(' :: withoutReturn tail := by
    have hlength := length_take_of_drop hcut (by simp)
    rw [after, hline, hread]
    conv => lhs; arg 1; rw [← hlength]
    exact List.drop_left
  have hrest : doc.lines.drop (pos.line + 1) = rest := by
    rw [← List.tail_drop, hlines, List.tail_cons]
  rw [argumentCount_eq hafter hfront, hrest, solid_append, solid_withoutReturn, ← solid_append]

theorem lines_ofText_of_line (path : String) {text : List Char} (h : '\n' ∉ text) :
    (ofText path text).lines = [withoutReturn text] := by
  rw [ofText, splitOn_free '\n' text h]
  rfl

theorem mem_of_mem_withoutReturn {line : List Char} {c : Char} (h : c ∈ withoutReturn line) :
    c ∈ line := by
  by_cases hlast : line.getLast? = some '\r'
  · obtain ⟨front, rfl⟩ := List.getLast?_eq_some_iff.mp hlast
    rw [withoutReturn_concat] at h
    exact List.mem_append_left _ h
  · rwa [withoutReturn_of_last line hlast] at h

theorem line_feed_not_mem_line (path : String) (text line : List Char)
    (h : line ∈ (ofText path text).lines) : '\n' ∉ line := by
  obtain ⟨piece, hpiece, rfl⟩ := List.mem_map.mp h
  exact fun hmem => mem_splitOn '\n' text piece hpiece (mem_of_mem_withoutReturn hmem)

theorem lines_drop_of_after {doc : Document} {pos : Position} (h : doc.after pos ≠ []) :
    doc.lines.drop pos.line = doc.line pos.line :: doc.lines.drop (pos.line + 1) := by
  by_cases hline : pos.line < doc.lines.length
  · rw [line, List.getD_eq_getElem?_getD, List.getElem?_eq_getElem hline]
    exact List.drop_eq_getElem_cons hline
  · have hempty : doc.line pos.line = [] := by
      rw [line, List.getD_eq_getElem?_getD, List.getElem?_eq_none (Nat.le_of_not_lt hline)]
      rfl
    rw [after, hempty, List.drop_nil] at h
    exact absurd rfl h

/-- The arguments of a call are counted alike on many lines and on one: the count at a position is
the count at the same character of the one-line document that joins its line and all that follow by
blanks. -/
theorem argument_count_ignores_layout (path : String) (text : List Char) (pos : Position)
    (hcall : '(' ∈ (ofText path text).after pos) :
    let doc := ofText path text
    let flat := ofText path (joinWith ' ' (doc.lines.drop pos.line))
    flat.lines.length = 1 ∧ doc.argumentCount pos = flat.argumentCount ⟨0, pos.character⟩ := by
  intro doc flat
  obtain ⟨front, tail, hafter, hfront⟩ := List.eq_append_cons_of_mem hcall
  have hfree : '\n' ∉ joinWith ' ' (doc.lines.drop pos.line) := by
    intro hmem
    rcases mem_joinWith ' ' '\n' _ hmem with hsep | ⟨line, hline, hin⟩
    · cases hsep
    · exact line_feed_not_mem_line path text line (List.mem_of_mem_drop hline) hin
  have hflat : flat.lines = [withoutReturn (joinWith ' ' (doc.lines.drop pos.line))] :=
    lines_ofText_of_line path hfree
  refine ⟨by rw [hflat]; rfl, ?_⟩
  -- The joined line holds the call where the line of the position does, and more behind it.
  let more := (doc.lines.drop (pos.line + 1)).flatMap (' ' :: ·)
  have hcut : (joinWith ' ' (doc.lines.drop pos.line)).drop pos.character =
      front ++ '(' :: (tail ++ more) := by
    have hat := length_take_of_drop hafter (by simp)
    rw [List.length_take] at hat
    rw [lines_drop_of_after (List.ne_nil_of_mem hcall), joinWith_cons,
      List.drop_append_of_le_length (by omega)]
    exact (congrArg (· ++ more) hafter).trans (by simp)
  have hcount : flat.argumentCount ⟨0, pos.character⟩ =
      Tally.countLine { depth := 1 } Tally.total (solid ((tail ++ more) ++ [].flatten)) :=
    argumentCount_of_read hflat hcut hfront
  rw [argumentCount_eq hafter hfront, hcount, List.flatten_nil, List.append_nil, solid_append,
    solid_append, solid_spaced (by decide)]

/-- A call that does not close, with a literal and a group broken over lines. -/
def brokenCall : List Char := "x\nlog('a,\nb)', f(1,\r\n2), c".toList

theorem argument_count_ignores_layout_of_brokenCall :
    '(' ∈ (ofText "a.js" brokenCall).after ⟨1, 1⟩ ∧
    (ofText "a.js" brokenCall).argumentCount ⟨1, 1⟩ = 3 ∧
    (ofText "a.js" brokenCall).argumentCount ⟨1, 1⟩ =
      (ofText "a.js" "log('a, b)', f(1, 2), c".toList).argumentCount ⟨0, 1⟩ := by
  have hcall : '(' ∈ (ofText "a.js" brokenCall).after ⟨1, 1⟩ := by decide
  have hjoined : joinWith ' ' ((ofText "a.js" brokenCall).lines.drop 1) =
      "log('a, b)', f(1, 2), c".toList := by decide
  have hcount := (argument_count_ignores_layout "a.js" brokenCall ⟨1, 1⟩ hcall).2
  rw [hjoined] at hcount
  exact ⟨hcall, by decide, hcount⟩

end Document

end CodeNav
