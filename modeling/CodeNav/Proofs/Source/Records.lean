import CodeNav.Proofs.Symbol.IndexText
import CodeNav.Source.Extract

/-! What the records of a tree have in common: they belong to the file that was read, and none has a
name that a line of the index could not hold. -/
namespace CodeNav.Source
set_option autoImplicit false
open Text

theorem hasChar_eq_false (c : Char) (s : String) : hasChar c s = false ↔ c ∉ s.toList := by
  simp [hasChar]

theorem toRecord_file (file : String) (d : Declaration) : (d.toRecord file).file = file := by
  rw [Declaration.toRecord]
  cases d.params <;> rfl

theorem toRecord_name (file : String) (d : Declaration) :
    (d.toRecord file).name = d.qualifiedName := by
  rw [Declaration.toRecord]
  cases d.params <;> rfl

theorem comma_not_mem_of_indexable (seen : List (String × UInt32)) (ds : List Declaration) :
    ∀ d ∈ indexable seen ds, ',' ∉ d.qualifiedName.toList := by
  induction ds generalizing seen with
  | nil => intro d hd; cases hd
  | cons d ds ih =>
    intro e he
    rw [indexable] at he
    split at he
    · exact ih seen e he
    · next hkeep =>
      rw [List.mem_cons] at he
      rcases he with rfl | he
      · rw [Bool.or_eq_true, not_or, Bool.not_eq_true] at hkeep
        exact (hasChar_eq_false ',' _).mp hkeep.1
      · exact ih _ e he

theorem indexable_sublist (seen : List (String × UInt32)) (ds : List Declaration) :
    (indexable seen ds).Sublist ds := by
  induction ds generalizing seen with
  | nil => exact List.Sublist.refl _
  | cons d ds ih =>
    rw [indexable]
    split
    · exact (ih seen).cons d
    · exact (ih _).cons_cons d

theorem records_file (source : Source) (file : String) (tree : Node) :
    ∀ r ∈ source.records file tree, r.file = file := by
  intro r hr
  obtain ⟨d, _, rfl⟩ := List.mem_map.mp hr
  exact toRecord_file file d

theorem records_commaFree (source : Source) (file : String) (tree : Node)
    (h : ',' ∉ file.toList) : Table.CommaFree (source.records file tree) := by
  intro r hr
  obtain ⟨d, hd, rfl⟩ := List.mem_map.mp hr
  rw [Record.CommaFree, toRecord_file, toRecord_name]
  exact ⟨h, comma_not_mem_of_indexable [] _ d hd⟩

end CodeNav.Source
