import CodeNav.Proofs.Symbol.LineCodec

/-! What becomes of a readable line that is written again. The record that is read, from however
loose a line, is written as a line which is then read and written the same; only the line breaks of
the first line are lost. -/
namespace CodeNav
set_option autoImplicit false
open Text

namespace Line

/-! ## Records of lines without line breaks -/

theorem parseToken_plain (text : List Char)
    (h : ∀ c ∈ text, c ≠ '\n' ∧ c ≠ '\r' ∧ c ≠ ';') : (parseToken text).Plain := by
  rw [parseToken]
  cases hmark : splitFirst? typeMark text with
  | none =>
    have hfree : ':' ∉ text := (splitFirst_eq_none_iff typeMark text).mp hmark
    refine ⟨?_, by simp⟩
    intro c hc
    rw [String.toList_ofList] at hc
    obtain ⟨h1, h2, h3⟩ := h c hc
    exact ⟨h1, h2, h3, fun he => hfree (he ▸ hc)⟩
  | some parts =>
    obtain ⟨name, type⟩ := parts
    have htext := splitFirst_eq typeMark text name type hmark
    have hmark : ':' ∉ name := splitFirst_free typeMark text name type hmark
    have hname : ∀ c ∈ (String.ofList name).toList,
        c ≠ '\n' ∧ c ≠ '\r' ∧ c ≠ ';' ∧ c ≠ ':' := by
      intro c hc
      rw [String.toList_ofList] at hc
      obtain ⟨h1, h2, h3⟩ := h c (htext ▸ List.mem_append_left _ hc)
      exact ⟨h1, h2, h3, fun he => hmark (he ▸ hc)⟩
    by_cases hunknown : type = unknownType
    · simp only [hunknown, ↓reduceIte]
      exact ⟨hname, by simp⟩
    · simp only [hunknown, ↓reduceIte]
      refine ⟨hname, ?_⟩
      intro t ht
      cases ht
      refine ⟨?_, ?_⟩
      · intro he
        rw [← String.toList_inj, String.toList_ofList] at he
        exact hunknown he
      · intro c hc
        rw [String.toList_ofList] at hc
        exact h c (htext ▸ List.mem_append_right _ (List.mem_cons_of_mem _ hc))

theorem parseParams_plain (raw : List Char) (h : ∀ c ∈ raw, c ≠ '\n' ∧ c ≠ '\r') :
    ∀ p ∈ parseParams raw, p.Plain := by
  intro p hp
  simp only [parseParams] at hp
  split at hp
  · cases hp
  · obtain ⟨text, htext, rfl⟩ := List.mem_map.mp hp
    have hfree : ';' ∉ text := mem_splitOn tokenSeparator _ text htext
    apply parseToken_plain
    intro c hc
    have hraw := h c (mem_trimEnd _ c raw (mem_of_mem_splitOn _ c _ text htext hc))
    exact ⟨hraw.1, hraw.2, fun he => hfree (he ▸ hc)⟩

/-- Of a line without line breaks the record keeps everything when it is written. -/
theorem normalized_of_parse (line : List Char) (r : Record) (h : parse line = .ok r)
    (hline : ∀ c ∈ line, c ≠ '\n' ∧ c ≠ '\r') : r.normalized = r := by
  obtain ⟨file, name, lineField, countField, tail, hfields, hfile, hname, _, _, hparams⟩ :=
    exists_fields_of_parse line r h
  have hfield (field : List Char)
      (hmem : field ∈ [file, name, lineField, countField] ++ tail.toList) :
      ∀ c ∈ field, c ≠ '\n' ∧ c ≠ '\r' := fun c hc =>
    hline c (hfields.text ▸ mem_joinWith_of_mem ',' c _ field hmem hc)
  apply Record.normalized_eq_self
  · intro c hc
    rw [hfile, hname, String.toList_ofList, String.toList_ofList, List.mem_append] at hc
    rcases hc with hc | hc
    · exact hfield file (by simp) c hc
    · exact hfield name (by simp) c hc
  · rw [hparams]
    cases tail with
    | none => simp
    | some raw => exact parseParams_plain raw (hfield raw (by simp))

/-- A line is readable exactly if it has three commas or more and its third and fourth fields are
numerals of 32 bits between blanks. The record that was read is written as a line that is read and
written the same again, and where the line has no line break, read as the same record. -/
theorem readable_line_settles (line : List Char) :
    ((∃ r, parse line = .ok r) ↔ 3 ≤ line.count ',' ∧
      IsNumeral 4294967295 (trim ((splitOn ',' line).getD 2 [])) ∧
      IsNumeral 4294967295 (trim ((splitOn ',' line).getD 3 []))) ∧
    ∀ r, parse line = .ok r → ∃ again, parse r.toLine = .ok again ∧ again.toLine = r.toLine ∧
      ((∀ c ∈ line, c ≠ '\n' ∧ c ≠ '\r') → again = r) := by
  refine ⟨parse_isOk_iff line, ?_⟩
  intro r h
  exact ⟨r.normalized, Record.parse_toLine r (parse_commaFree line r h), Record.toLine_normalized r,
    normalized_of_parse line r h⟩

/-- Blanks and a plus sign around numbers, leading zeros, an empty token, a token without a type, a
colon inside a type, and a type that stands for none. -/
def looseLine : List Char := " a.js,,\t+007 , 4294967295,x;;y:A:B;z:unknown".toList

def looseRecord : Record :=
  { file := " a.js", name := "", line := 7, arity := 4294967295,
    params := [⟨"x", none⟩, ⟨"", none⟩, ⟨"y", some "A:B"⟩, ⟨"z", none⟩] }

theorem readable_line_settles_of_loose :
    parse looseLine = .ok looseRecord ∧ (∀ c ∈ looseLine, c ≠ '\n' ∧ c ≠ '\r') ∧
      parse looseRecord.toLine = .ok looseRecord ∧ looseRecord.toLine ≠ looseLine := by
  have hparse : parse looseLine = .ok looseRecord := by decide +kernel
  have hfree : '\n' ∉ looseLine ∧ '\r' ∉ looseLine := by decide
  have hline : ∀ c ∈ looseLine, c ≠ '\n' ∧ c ≠ '\r' := fun c hc =>
    ⟨fun he => hfree.1 (he ▸ hc), fun he => hfree.2 (he ▸ hc)⟩
  obtain ⟨again, hread, _, hsame⟩ := (readable_line_settles looseLine).2 looseRecord hparse
  rw [hsame hline] at hread
  exact ⟨hparse, hline, hread, by decide⟩

end Line

end CodeNav
