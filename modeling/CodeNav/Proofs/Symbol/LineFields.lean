import CodeNav.Proofs.Text.Pieces
import CodeNav.Symbol.Line
import Mathlib.Data.List.Induction
import Mathlib.Data.Nat.Digits.Defs

/-! The fields of a line of the index. A line with three commas or more has one cut into fields, and
it is a record exactly if its third and fourth fields are numerals between blanks; what stands
behind the fourth comma is never refused. -/
namespace CodeNav
set_option autoImplicit false
open Text

/-! ## Numerals -/

namespace Text

/-- A decimal numeral of at most `bound`: ASCII digits, at least one, after an optional plus sign. -/
def IsNumeral (bound : Nat) (text : List Char) : Prop :=
  ∃ ds, (text = ds ∨ text = '+' :: ds) ∧ ds ≠ [] ∧ (∀ c ∈ ds, c.isDigit = true) ∧
    Nat.ofDigits 10 (ds.reverse.map digitValue) ≤ bound

theorem numeralValue_eq_ofDigits (ds : List Char) :
    numeralValue ds = Nat.ofDigits 10 (ds.reverse.map digitValue) := by
  induction ds using List.reverseRecOn with
  | nil => rfl
  | append_singleton ds c ih =>
    rw [numeralValue_snoc, ih, List.reverse_append, List.reverse_singleton, List.singleton_append,
      List.map_cons, Nat.ofDigits_cons, Nat.add_comm]

theorem readDigits_isSome_iff (bound : Nat) (ds : List Char) :
    (if ds.isEmpty || !ds.all Char.isDigit then none
      else if numeralValue ds ≤ bound then some (numeralValue ds) else none).isSome = true ↔
    ds ≠ [] ∧ (∀ c ∈ ds, c.isDigit = true) ∧
      Nat.ofDigits 10 (ds.reverse.map digitValue) ≤ bound := by
  rw [← numeralValue_eq_ofDigits, ← List.all_eq_true, ne_eq, ← List.isEmpty_iff]
  cases ds.isEmpty <;> cases ds.all Char.isDigit <;> simp

theorem readNumeral_isSome_iff (bound : Nat) (cs : List Char) :
    (readNumeral? bound cs).isSome = true ↔ IsNumeral bound cs := by
  by_cases hsign : ∃ rest, cs = '+' :: rest
  · obtain ⟨rest, rfl⟩ := hsign
    have hread := readDigits_isSome_iff bound rest
    rw [readNumeral?]
    refine hread.trans ⟨fun h => ⟨rest, .inr rfl, h⟩, ?_⟩
    rintro ⟨ds, rfl | hds, hdigits⟩
    · exact absurd (hdigits.2.1 '+' List.mem_cons_self) (by decide)
    · rw [(List.cons.inj hds).2]
      exact hdigits
  · have hread := readDigits_isSome_iff bound cs
    rw [readNumeral?]
    · refine hread.trans ⟨fun h => ⟨cs, .inl rfl, h⟩, ?_⟩
      rintro ⟨ds, rfl | hds, hdigits⟩
      · exact hdigits
      · exact absurd ⟨ds, hds⟩ hsign
    · exact fun rest hrest => hsign ⟨rest, hrest⟩

end Text

namespace Line

theorem readWord_isSome_iff (field : List Char) :
    (readWord? field).isSome = true ↔ IsNumeral 4294967295 (trim field) := by
  rw [readWord?, Option.isSome_map]
  exact readNumeral_isSome_iff 4294967295 (trim field)

/-! ## Fields -/

/-- The four fields in front of a line, and what stands behind the fourth comma if there is one. -/
structure HasFields (line file name lineField countField : List Char) (tail : Option (List Char)) :
    Prop where
  text : line = joinWith ',' ([file, name, lineField, countField] ++ tail.toList)
  free : ∀ field ∈ [file, name, lineField, countField], ',' ∉ field

section Fields

variable {line file name lineField countField : List Char} {tail : Option (List Char)}

theorem HasFields.splitOn_eq (h : HasFields line file name lineField countField tail) :
    splitOn ',' line =
      [file, name, lineField, countField] ++ (tail.map (splitOn ',')).getD [] := by
  rw [h.text]
  cases tail with
  | none => exact splitOn_joinWith ',' file [name, lineField, countField] h.free
  | some raw => exact splitOn_joinWith_last ',' [file, name, lineField, countField] raw h.free

theorem HasFields.three_le_count (h : HasFields line file name lineField countField tail) :
    3 ≤ line.count ',' := by
  have hlength := congrArg List.length h.splitOn_eq
  rw [length_splitOn, List.length_append, List.length_cons, List.length_cons, List.length_cons,
    List.length_singleton] at hlength
  omega

theorem HasFields.toOption_parse (h : HasFields line file name lineField countField tail) :
    (parse line).toOption = (readWord? lineField).bind fun number =>
      (readWord? countField).map fun arity =>
        { file := String.ofList file, name := String.ofList name, line := number, arity,
          params := (tail.map parseParams).getD [] } := by
  have hsplit : splitAtMost ',' 4 line = [file, name, lineField, countField] ++ tail.toList := by
    rw [h.text]
    cases tail with
    | none =>
      refine splitAtMost_joinWith ',' 4 [file, name, lineField] countField ⟨?_, by simp, ?_⟩
      · exact fun field hfield => h.free field (List.mem_append_left [countField] hfield)
      · exact fun _ => h.free countField (by simp)
    | some raw =>
      exact splitAtMost_joinWith ',' 4 [file, name, lineField, countField] raw
        ⟨h.free, Nat.le_refl 4, fun hlt => absurd hlt (Nat.lt_irrefl 4)⟩
  rw [parse, fieldSeparator, hsplit]
  simp only [List.cons_append, List.nil_append, parseFields]
  cases readWord? lineField <;> cases readWord? countField <;> cases tail <;> rfl

/-- A character behind the last field becomes part of it. -/
theorem HasFields.snoc_count (h : HasFields line file name lineField countField none) (c : Char)
    (hc : c ≠ ',') :
    HasFields (line ++ [c]) file name lineField (countField ++ [c]) none := by
  refine ⟨?_, ?_⟩
  · rw [h.text]
    exact (joinWith_concat_append ',' [file, name, lineField] countField [c]).symm
  · have hfree := h.free
    simp only [List.mem_cons, List.not_mem_nil, or_false, forall_eq_or_imp, forall_eq] at hfree ⊢
    obtain ⟨hfile, hname, hnumber, hcount⟩ := hfree
    refine ⟨hfile, hname, hnumber, fun hmem => ?_⟩
    rcases List.mem_append.mp hmem with hmem | hmem
    · exact hcount hmem
    · exact hc (List.mem_singleton.mp hmem).symm

theorem HasFields.snoc_tail {raw : List Char}
    (h : HasFields line file name lineField countField (some raw)) (c : Char) :
    HasFields (line ++ [c]) file name lineField countField (some (raw ++ [c])) := by
  refine ⟨?_, h.free⟩
  rw [h.text]
  exact (joinWith_concat_append ',' [file, name, lineField, countField] raw [c]).symm

end Fields

/-- A line has the four fields, or it has too few commas and is no record. -/
theorem hasFields_or_error (line : List Char) :
    (∃ file name lineField countField tail,
        HasFields line file name lineField countField tail) ∨
      (line.count ',' < 3 ∧ ∃ count, parse line = .error (.fieldCount count)) := by
  obtain ⟨front, last, hline, hcut⟩ := exists_cut ',' 4 line
  have hparse : parse line = parseFields (front ++ [last]) := by
    rw [parse, fieldSeparator, hline, splitAtMost_joinWith ',' 4 front last hcut]
  have hshort (hlt : front.length < 3) : line.count ',' < 3 := by
    have hlength := congrArg List.length (splitOn_joinWith_last ',' front last hcut.free)
    rw [← hline, length_splitOn, List.length_append,
      splitOn_free ',' last (hcut.last_free (by omega)), List.length_singleton] at hlength
    omega
  rcases front with _ | ⟨file, _ | ⟨name, _ | ⟨lineField, _ | ⟨countField, _ | ⟨next, more⟩⟩⟩⟩⟩
  · exact .inr ⟨hshort (by simp), _, hparse⟩
  · exact .inr ⟨hshort (by simp), _, hparse⟩
  · exact .inr ⟨hshort (by simp), _, hparse⟩
  · refine .inl ⟨file, name, lineField, last, none, hline, ?_⟩
    intro field hfield
    rcases List.mem_append.mp (show field ∈ [file, name, lineField] ++ [last] from hfield) with
      hfront | hlast
    · exact hcut.free field hfront
    · exact List.mem_singleton.mp hlast ▸ hcut.last_free (by simp)
  · exact .inl ⟨file, name, lineField, countField, some last, hline, hcut.free⟩
  · have hlength := hcut.length_le
    simp only [List.length_cons] at hlength
    omega

theorem parse_eq_ok_iff (line : List Char) (r : Record) :
    parse line = .ok r ↔ (parse line).toOption = some r := by
  cases parse line <;> simp [Except.toOption]

/-- What the fields of a record say. -/
theorem exists_fields_of_parse (line : List Char) (r : Record) (h : parse line = .ok r) :
    ∃ file name lineField countField tail, HasFields line file name lineField countField tail ∧
      r.file = String.ofList file ∧ r.name = String.ofList name ∧
      readWord? lineField = some r.line ∧ readWord? countField = some r.arity ∧
      r.params = (tail.map parseParams).getD [] := by
  rcases hasFields_or_error line with ⟨file, name, lineField, countField, tail, hfields⟩ |
    ⟨_, count, herror⟩
  · rw [parse_eq_ok_iff, hfields.toOption_parse, Option.bind_eq_some_iff] at h
    obtain ⟨number, hnumber, h⟩ := h
    obtain ⟨arity, harity, rfl⟩ := Option.map_eq_some_iff.mp h
    exact ⟨file, name, lineField, countField, tail, hfields, rfl, rfl, hnumber, harity, rfl⟩
  · rw [herror] at h
    cases h

theorem parse_isOk_iff (line : List Char) :
    (∃ r, parse line = .ok r) ↔ 3 ≤ line.count ',' ∧
      IsNumeral 4294967295 (trim ((splitOn ',' line).getD 2 [])) ∧
      IsNumeral 4294967295 (trim ((splitOn ',' line).getD 3 [])) := by
  rcases hasFields_or_error line with ⟨file, name, lineField, countField, tail, h⟩ |
    ⟨hcount, count, herror⟩
  · simp only [parse_eq_ok_iff, h.toOption_parse]
    rw [← Option.isSome_iff_exists, Option.isSome_bind, h.splitOn_eq, ← readWord_isSome_iff,
      ← readWord_isSome_iff, and_iff_right h.three_le_count]
    simp only [List.cons_append, List.getD_cons_succ, List.getD_cons_zero]
    cases readWord? lineField <;> simp
  · rw [herror]
    constructor
    · rintro ⟨r, hr⟩
      cases hr
    · exact fun hthree => absurd hthree.1 (by omega)

/-! ## What stands behind a line -/

theorem parseParams_snoc_return (raw : List Char) : parseParams (raw ++ ['\r']) = parseParams raw := by
  rw [parseParams, parseParams, trimEnd_snoc _ raw '\r' (by decide)]

theorem readWord_snoc_return (field : List Char) : readWord? (field ++ ['\r']) = readWord? field := by
  rw [readWord?, readWord?, trim_snoc field '\r' (by decide)]

/-- A carriage return behind a line belongs to its last field, where it does not count, or to a line
that is no record with it either. -/
theorem parse_snoc_return (line : List Char) :
    (parse (line ++ ['\r'])).toOption = (parse line).toOption := by
  rcases hasFields_or_error line with ⟨file, name, lineField, countField, tail, h⟩ |
    ⟨hcount, count, herror⟩
  · cases tail with
    | none =>
      rw [(h.snoc_count '\r' (by decide)).toOption_parse, h.toOption_parse, readWord_snoc_return]
    | some raw =>
      rw [(h.snoc_tail '\r').toOption_parse, h.toOption_parse, Option.map_some, parseParams_snoc_return,
        Option.map_some]
  · rcases hasFields_or_error (line ++ ['\r']) with ⟨_, _, _, _, _, h⟩ | ⟨_, count', herror'⟩
    · have hmore := h.three_le_count
      rw [List.count_append, List.count_singleton] at hmore
      simp at hmore
      omega
    · rw [herror, herror']
      rfl

end Line

end CodeNav
