import CodeNav.Proofs.Text.Pieces
import CodeNav.Workspace.Service

/-! What the news that a path is gone takes out of the table. A path that the index admits as a file
loses the records of that file, any other path those below it as a directory. So everything the path
names is cleared exactly if the table holds nothing of the other kind: no file below a path that
looks like a source file, and no record of a file that the index does not admit. -/
namespace CodeNav
set_option autoImplicit false
open Text

namespace Record

/-- Does the record belong to a file below a directory, at any depth? -/
def Below (r : Record) (dir : String) : Prop :=
  ∃ rest, r.file = dir ++ "/" ++ rest

def Within (r : Record) (path : String) : Prop :=
  r.file = path ∨ r.Below path

theorem below_iff (r : Record) (dir : String) :
    r.Below dir ↔ (dir.toList ++ ['/']) <+: r.file.toList := by
  constructor
  · rintro ⟨rest, h⟩
    refine ⟨rest.toList, ?_⟩
    rw [h, String.toList_append, String.toList_append]
    rfl
  · rintro ⟨rest, h⟩
    refine ⟨String.ofList rest, ?_⟩
    rw [← String.toList_inj, ← h, String.toList_append, String.toList_append, String.toList_ofList,
      String.toList_ofList]

instance (r : Record) (dir : String) : Decidable (r.Below dir) :=
  decidable_of_iff _ (r.below_iff dir).symm

instance (r : Record) (path : String) : Decidable (r.Within path) :=
  inferInstanceAs (Decidable (_ ∨ _))

theorem Below.file_ne {r : Record} {dir : String} (h : r.Below dir) : r.file ≠ dir := by
  intro hsame
  have hlength := ((r.below_iff dir).mp h).length_le
  rw [hsame, List.length_append, List.length_singleton] at hlength
  omega

end Record

namespace Table

theorem isUnder_eq (dir : String) (r : Record) (h : dir.toList.getLast? ≠ some '/') :
    isUnder dir r = decide (r.Below dir) := by
  have htrim : trimEnd (· == '/') dir.toList = dir.toList := by
    apply trimEnd_of_last
    intro c hc
    apply beq_false_of_ne
    rintro rfl
    exact h hc
  rw [isUnder, directoryPrefix, htrim, Bool.eq_iff_iff, List.isPrefixOf_iff_prefix,
    decide_eq_true_eq, r.below_iff dir]

/-- The table without the records at a path and below it. -/
def cleared (table : Table) (path : String) : Table :=
  table.filter fun r => ¬ r.Within path

theorem cleared_eq_withoutFile_iff (table : Table) (path : String) :
    table.withoutFile path = table.cleared path ↔ ∀ r ∈ table, ¬ r.Below path := by
  have hcleared : table.cleared path = (table.withoutFile path).filter fun r => ¬ r.Below path := by
    rw [cleared, withoutFile, List.filter_filter]
    apply List.filter_congr
    intro r _
    rw [Bool.eq_iff_iff]
    simp [Record.Within, and_comm]
  rw [hcleared, eq_comm, List.filter_eq_self]
  constructor
  · intro h r hr hbelow
    have hkept : r ∈ table.withoutFile path :=
      List.mem_filter.mpr ⟨hr, bne_iff_ne.mpr hbelow.file_ne⟩
    exact of_decide_eq_true (h r hkept) hbelow
  · intro h r hr
    exact decide_eq_true (h r (List.mem_filter.mp hr).1)

theorem cleared_eq_withoutDirectory_iff (table : Table) (path : String)
    (hslash : path.toList.getLast? ≠ some '/') :
    table.withoutDirectory path = table.cleared path ↔ ∀ r ∈ table, r.file ≠ path := by
  have hkeeps (r : Record) : (!isUnder path r) = decide (¬ r.Below path) := by
    rw [isUnder_eq path r hslash, decide_not]
  have hcleared : table.cleared path =
      (table.withoutDirectory path).filter fun r => r.file != path := by
    rw [cleared, withoutDirectory, List.filter_filter]
    apply List.filter_congr
    intro r _
    rw [hkeeps r, Bool.eq_iff_iff]
    simp [Record.Within]
  rw [hcleared, eq_comm, List.filter_eq_self]
  constructor
  · intro h r hr hfile
    have hkept : r ∈ table.withoutDirectory path := by
      refine List.mem_filter.mpr ⟨hr, ?_⟩
      rw [hkeeps r, decide_eq_true_eq]
      exact fun hbelow => hbelow.file_ne hfile
    exact bne_iff_ne.mp (h r hkept) hfile
  · intro h r hr
    exact bne_iff_ne.mpr (h r (List.mem_filter.mp hr).1)

end Table

namespace Service

theorem table_handleRemoved (grammar : Grammar) (s : Service) (disk : Disk) (path : List Char)
    (file : String) (h : s.admission.relative? path = some file) :
    (s.handleEvent grammar disk (.removed path)).service.table =
      if s.admission.admits file then s.table.withoutFile file
      else s.table.withoutDirectory file := by
  rw [handleEvent]
  simp only [h]
  split
  · rfl
  · show (s.store.removeDirectory file ⟨disk, s.table⟩).2.table = _
    rw [Store.removeDirectory]
    split <;> rfl

/-- After the news that a path is gone, whether or not the index could be written, the table has
lost the records of that very file if the index admits it, and else the records below it. It is the
old table without all that the path names exactly if it had none of the other kind. -/
theorem removal_clears_iff (grammar : Grammar) (s : Service) (disk : Disk) (path : List Char)
    (file : String) (hpath : s.admission.relative? path = some file)
    (hslash : file.toList.getLast? ≠ some '/') :
    let left := (s.handleEvent grammar disk (.removed path)).service.table
    left = s.table.filter (fun r =>
      if s.admission.admits file then ¬ r.file = file else ¬ r.Below file) ∧
    (left = s.table.cleared file ↔
      if s.admission.admits file then ∀ r ∈ s.table, ¬ r.Below file
      else ∀ r ∈ s.table, r.file ≠ file) := by
  intro left
  have hleft : left = _ := s.table_handleRemoved grammar disk path file hpath
  rw [hleft]
  split
  · refine ⟨?_, s.table.cleared_eq_withoutFile_iff file⟩
    apply List.filter_congr
    intro r _
    rw [Bool.eq_iff_iff, bne_iff_ne, decide_eq_true_eq]
  · refine ⟨?_, s.table.cleared_eq_withoutDirectory_iff file hslash⟩
    apply List.filter_congr
    intro r _
    rw [Table.isUnder_eq file r hslash, decide_not]

/-- A directory, its neighbour with a longer name, and a directory that is named like a file. -/
def subTable : Table :=
  [{ file := "keep.js", name := "keep", line := 1 },
    { file := "sub/a.js", name := "a", line := 1 },
    { file := "sub/deep/b.js", name := "b", line := 1 },
    { file := "subway.js", name := "subway", line := 1 },
    { file := "lib.js/f.js", name := "f", line := 1 }]

def subDisk : Disk :=
  ⟨[], [(["w".toList], .directory), (["w".toList, "keep.js".toList], .file []),
    (["w".toList, "subway.js".toList], .file [])]⟩

def subService : Service :=
  { settings := {}
    admission := Admission.ofSettings subDisk "/w".toList {}
    store := Store.inWorkspace "/w".toList "symbols.index"
    table := subTable
    history := {} }

theorem removal_clears_sub :
    subService.admission.relative? "/w/sub".toList = some "sub" ∧
    "sub".toList.getLast? ≠ some '/' ∧
    (∀ r ∈ subTable, r.file ≠ "sub") ∧
    (subService.handleEvent (Grammar.ofSamples []) subDisk
      (.removed "/w/sub".toList)).service.table = subTable.cleared "sub" := by
  have hpath : subService.admission.relative? "/w/sub".toList = some "sub" := by decide +kernel
  have hslash : "sub".toList.getLast? ≠ some '/' := by decide
  have hadmits : ¬ subService.admission.admits "sub" = true := by decide +kernel
  have hfiles : ∀ r ∈ subTable, r.file ≠ "sub" := by decide
  have h := removal_clears_iff (Grammar.ofSamples []) subService subDisk _ "sub" hpath hslash
  exact ⟨hpath, hslash, hfiles, h.2.mpr (by rw [if_neg hadmits]; exact hfiles)⟩

/-- The directory looks like a file of the index, so only a file of this name would be dropped. The
records below it stay, although the index is written. -/
theorem removal_keeps_directory_named_like_file :
    subService.admission.relative? "/w/lib.js".toList = some "lib.js" ∧
    (subService.handleEvent (Grammar.ofSamples []) subDisk (.removed "/w/lib.js".toList)).result =
      .ok true ∧
    (subService.handleEvent (Grammar.ofSamples []) subDisk
      (.removed "/w/lib.js".toList)).service.table ≠
      subTable.cleared "lib.js" := by
  have hpath : subService.admission.relative? "/w/lib.js".toList = some "lib.js" := by
    decide +kernel
  refine ⟨hpath, by rfl, ?_⟩
  rw [table_handleRemoved (Grammar.ofSamples []) subService subDisk _ "lib.js" hpath]
  decide +kernel

end Service

end CodeNav
