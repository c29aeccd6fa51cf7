import CodeNav.Proofs.Symbol.LineCodec
import CodeNav.Proofs.Text.Utf8
import CodeNav.Symbol.Index

/-! The index as a text, read back. A written table is loaded as its normal form with no line passed
over, and whatever bytes are loaded, no record of the result has a comma in its path or name. -/
namespace CodeNav
set_option autoImplicit false
open Text

/-- No record of the table has a comma in its path or name. -/
def Table.CommaFree (table : Table) : Prop :=
  ∀ r ∈ table, r.CommaFree

instance (table : Table) : Decidable table.CommaFree :=
  inferInstanceAs (Decidable (∀ r ∈ table, r.CommaFree))

namespace Table

theorem commaFree_nil : CommaFree [] := fun _ h => absurd h List.not_mem_nil

theorem commaFree_append (first second : Table) (h1 : first.CommaFree) (h2 : second.CommaFree) :
    CommaFree (first ++ second) := by
  intro r hr
  rcases List.mem_append.mp hr with h | h
  · exact h1 r h
  · exact h2 r h

theorem commaFree_filter (table : Table) (p : Record → Bool) (h : table.CommaFree) :
    CommaFree (table.filter p) :=
  fun r hr => h r (List.mem_filter.mp hr).1

end Table

/-! ## Lines of a text -/

namespace Record
open Line

theorem line_feed_not_mem_toLine (r : Record) : '\n' ∉ r.toLine := by
  intro hc
  rcases mem_joinWith fieldSeparator '\n' (fields r) hc with h | ⟨field, hfield, hin⟩
  · exact absurd h (by decide)
  · simp only [fields, List.mem_cons, List.not_mem_nil, or_false] at hfield
    rcases hfield with rfl | rfl | rfl | rfl | rfl
    · exact ((mem_unbroken _ _).mp hin).2.1 rfl
    · exact ((mem_unbroken _ _).mp hin).2.1 rfl
    · exact not_mem_digits _ '\n' (by decide) hin
    · exact not_mem_digits _ '\n' (by decide) hin
    · rcases mem_joinWith tokenSeparator '\n' _ hin with h | ⟨piece, hpiece, hmem⟩
      · exact absurd h (by decide)
      · obtain ⟨p, _, rfl⟩ := List.mem_map.mp hpiece
        exact (mem_token p '\n' hmem).1 rfl

theorem isAllBlank_toLine (r : Record) : isAllBlank r.toLine = false := by
  have hmem : ',' ∈ r.toLine := by
    rw [toLine, fields, joinWith_cons_cons]
    exact List.mem_append_right _ List.mem_cons_self
  rw [isAllBlank, List.all_eq_false]
  exact ⟨',', hmem, by decide⟩

end Record

namespace LoadedIndex

theorem readLines_toLines (table : Table) (h : table.CommaFree) :
    readLines (table.map Record.toLine) = { table := table.map Record.normalized, skipped := 0 } := by
  induction table with
  | nil => rfl
  | cons r table ih =>
    have hrest := ih (fun s hs => h s (List.mem_cons_of_mem r hs))
    rw [List.map_cons, readLines, hrest, Record.isAllBlank_toLine,
      Record.parse_toLine r (h r List.mem_cons_self)]
    simp

/-- A table that was written is loaded as its normal form, and no line is passed over. -/
theorem ofText_toText (table : Table) (h : table.CommaFree) :
    ofText table.toText = { table := table.map Record.normalized, skipped := 0 } := by
  cases table with
  | nil => rfl
  | cons r table =>
    have hfree : ∀ line ∈ r.toLine :: table.map Record.toLine, '\n' ∉ line := by
      intro line hline
      rw [← List.map_cons] at hline
      obtain ⟨s, _, rfl⟩ := List.mem_map.mp hline
      exact s.line_feed_not_mem_toLine
    rw [ofText, Table.toText, List.map_cons, splitOn_joinWith '\n' _ _ hfree, ← List.map_cons]
    exact readLines_toLines (r :: table) h

theorem ofBytes_toText (table : Table) (h : table.CommaFree) :
    ofBytes (Utf8.encode table.toText) =
      { table := table.map Record.normalized, skipped := 0 } := by
  rw [ofBytes, Utf8.decodeLossy_encode, ofText_toText table h]

/-- Whatever the lines are, the records read from them have no commas. -/
theorem readLines_commaFree (lines : List (List Char)) : (readLines lines).table.CommaFree := by
  induction lines with
  | nil => exact Table.commaFree_nil
  | cons line lines ih =>
    rw [readLines]
    by_cases hb : isAllBlank line = true
    · simpa [hb] using ih
    · cases hp : Line.parse line with
      | error fault => simpa [hb, hp] using ih
      | ok r =>
        have hr := Line.parse_commaFree line r hp
        simp only [hb, Bool.false_eq_true, ↓reduceIte]
        exact Table.commaFree_append [r] _ (by simpa [Table.CommaFree] using hr) ih

theorem toLine_map_normalized (table : Table) :
    (table.map Record.normalized).map Record.toLine = table.map Record.toLine := by
  rw [List.map_map]
  apply List.map_congr_left
  intro r _
  exact Record.toLine_normalized r

end LoadedIndex

end CodeNav
