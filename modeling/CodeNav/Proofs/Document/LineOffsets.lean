import CodeNav.Document.Basic
import CodeNav.Proofs.Text.Offsets

/-! The line of a byte offset. A document is split at its line feeds, and each line then loses the
carriage return at its end; so the number of line feeds before an offset, counted in the bytes of the
text, is the index of the line that the offset falls on. -/
namespace CodeNav
set_option autoImplicit false
open Text

/-- The line of the text, without its line feed, that holds the byte offset: it starts at or before
the offset and, unless it is the last one, reaches it. -/
structure LineAround (text : List Char) (offset : Nat) (before line after : List Char) : Prop where
  text_eq : text = before ++ (line ++ after)
  line_free : '\n' ∉ line
  before_end : ∀ c, before.getLast? = some c → c = '\n'
  after_head : ∀ c, after.head? = some c → c = '\n'
  starts : Utf8.size before ≤ offset
  reaches : after ≠ [] → offset ≤ Utf8.size (before ++ line)

theorem exists_lineStart (front : List Char) :
    ∃ before start, front = before ++ start ∧ '\n' ∉ start ∧
      ∀ c, before.getLast? = some c → c = '\n' := by
  obtain ⟨last, hfree, rfl | ⟨before, rfl⟩⟩ := splitOn_last '\n' front
  · exact ⟨[], front, rfl, hfree, nofun⟩
  · refine ⟨before ++ ['\n'], last, by rw [List.append_assoc]; rfl, hfree, fun c hc => ?_⟩
    rw [List.getLast?_concat, Option.some.injEq] at hc
    exact hc.symm

theorem exists_lineEnd (rest : List Char) :
    ∃ stop after, rest = stop ++ after ∧ '\n' ∉ stop ∧ ∀ c, after.head? = some c → c = '\n' := by
  cases hfirst : splitFirst? '\n' rest with
  | none =>
    exact ⟨rest, [], (List.append_nil rest).symm, (splitFirst_eq_none_iff '\n' rest).mp hfirst, nofun⟩
  | some parts =>
    refine ⟨parts.1, '\n' :: parts.2, splitFirst_eq '\n' rest _ _ hfirst,
      splitFirst_free '\n' rest _ _ hfirst, fun c hc => (Option.some.inj hc).symm⟩

theorem exists_lineAround (text : List Char) (offset : Nat) :
    ∃ before line after, LineAround text offset before line after ∧
      ((Utf8.encode text).take offset).count 10 = before.count '\n' := by
  obtain ⟨front, rest, ⟨rfl, hfits, hpasses⟩, hcount⟩ := Utf8.exists_cutAt text offset
  obtain ⟨before, start, rfl, hstart, hbefore⟩ := exists_lineStart front
  obtain ⟨stop, after, rfl, hstop, hafter⟩ := exists_lineEnd rest
  rw [Utf8.size_append] at hfits hpasses
  have hreaches : after ≠ [] → offset ≤ Utf8.size (before ++ (start ++ stop)) := by
    intro hne
    rw [Utf8.size_append, Utf8.size_append]
    cases stop with
    | nil =>
      obtain ⟨c, later, rfl⟩ := List.exists_cons_of_ne_nil hne
      obtain rfl := hafter c rfl
      have hlt : offset < Utf8.size before + Utf8.size start + 1 := hpasses '\n' later rfl
      omega
    | cons c stop =>
      have hlt := hpasses c (stop ++ after) rfl
      rw [Utf8.size_cons]
      omega
  refine ⟨before, start ++ stop, after, ⟨?_, ?_, hbefore, hafter, by omega, hreaches⟩, ?_⟩
  · simp only [List.append_assoc]
  · rw [List.mem_append, not_or]
    exact ⟨hstart, hstop⟩
  · rw [hcount, List.count_append, List.count_eq_zero.mpr hstart, Nat.add_zero]

/-- The lines of a text are counted by the line feeds before them. -/
theorem LineAround.getElem_splitOn {text before line after : List Char} {offset : Nat}
    (h : LineAround text offset before line after) :
    (splitOn '\n' text)[before.count '\n']? = some line := by
  have hline : ∃ pieces, splitOn '\n' (line ++ after) = line :: pieces := by
    cases after with
    | nil => exact ⟨[], by rw [List.append_nil, splitOn_free '\n' line h.line_free]⟩
    | cons c after =>
      obtain rfl := h.after_head c rfl
      rw [splitOn_append, splitOn_free '\n' line h.line_free]
      exact ⟨_, rfl⟩
  obtain ⟨pieces, hpieces⟩ := hline
  rw [h.text_eq]
  rcases List.eq_nil_or_concat before with rfl | ⟨above, c, rfl⟩
  · rw [List.nil_append, hpieces]
    rfl
  · rw [List.concat_eq_append] at h ⊢
    obtain rfl := h.before_end c List.getLast?_concat
    have hlength := length_splitOn '\n' above
    rw [List.append_assoc, List.singleton_append, splitOn_append, hpieces, List.count_append,
      List.count_singleton_self, ← hlength, List.getElem?_append_right (Nat.le_refl _), Nat.sub_self]
    rfl

theorem LineAround.line_ofText {text before line after : List Char} {offset : Nat}
    (h : LineAround text offset before line after) (path : String) :
    before.count '\n' < (Document.ofText path text).lines.length ∧
      (Document.ofText path text).line (before.count '\n') = Document.withoutReturn line := by
  have hget : (Document.ofText path text).lines[before.count '\n']? =
      some (Document.withoutReturn line) := by
    rw [Document.ofText, List.getElem?_map, h.getElem_splitOn, Option.map_some]
  exact ⟨(List.getElem?_eq_some_iff.mp hget).1,
    by rw [Document.line, List.getD_eq_getElem?_getD, hget]; rfl⟩

end CodeNav
