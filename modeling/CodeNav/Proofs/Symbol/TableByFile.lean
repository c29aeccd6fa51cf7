import CodeNav.Symbol.Table

/-! A table file by file: what dropping the records of a file leaves of each other file, and that a
table is known up to the order of its files by the records of each. -/
namespace CodeNav.Table
set_option autoImplicit false

theorem inFile_append (first second : Table) (file : String) :
    inFile (first ++ second) file = first.inFile file ++ second.inFile file :=
  List.filter_append first second

theorem withoutFile_append (first second : Table) (file : String) :
    withoutFile (first ++ second) file = first.withoutFile file ++ second.withoutFile file :=
  List.filter_append first second

theorem inFile_withoutFile_self (table : Table) (file : String) :
    (table.withoutFile file).inFile file = [] := by
  simp [inFile, withoutFile, List.filter_filter]

theorem withoutFile_withoutFile (table : Table) (file : String) :
    (table.withoutFile file).withoutFile file = table.withoutFile file := by
  simp [withoutFile, List.filter_filter]

theorem inFile_withoutFile_other (table : Table) (file other : String) (h : other ≠ file) :
    (table.withoutFile file).inFile other = table.inFile other := by
  rw [inFile, withoutFile, List.filter_filter]
  apply List.filter_congr
  intro r _
  by_cases hr : r.file = other <;> simp [hr, h]

theorem inFile_of_all (table : Table) (file : String) (h : ∀ r ∈ table, r.file = file) :
    table.inFile file = table :=
  List.filter_eq_self.mpr (fun r hr => beq_iff_eq.mpr (h r hr))

theorem inFile_of_none (table : Table) (file : String) (h : ∀ r ∈ table, r.file ≠ file) :
    table.inFile file = [] :=
  List.filter_eq_nil_iff.mpr (fun r hr he => h r hr (beq_iff_eq.mp he))

theorem withoutFile_of_all (table : Table) (file : String) (h : ∀ r ∈ table, r.file = file) :
    table.withoutFile file = [] := by
  rw [withoutFile, List.filter_eq_nil_iff]
  intro r hr
  simp [h r hr]

/-- Tables with the same records of each file differ in the order of the files only. -/
theorem perm_of_inFile (first second : Table)
    (h : ∀ file, first.inFile file = second.inFile file) : first.Perm second := by
  rw [List.perm_iff_count]
  intro r
  have hcount (table : Table) : (table.inFile r.file).count r = table.count r :=
    List.count_filter (by simp)
  rw [← hcount first, ← hcount second, h r.file]

end CodeNav.Table
